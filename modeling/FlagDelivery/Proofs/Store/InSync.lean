import FlagDelivery.Proofs.Item.Stored
import FlagDelivery.Proofs.Store.Memory
import FlagDelivery.Proofs.Store.Traffic

/-!
# A backend in step with a memory

`InSync` says that a backend holds the texts of a view's items and no others. It is kept by putting an item that is
newer than the one held, `InSync.put`, and it is reached from anywhere by replacing all data, `inSync_replacing`. What
is in step is read back as the items, `InSync.read`.
-/

namespace FlagDelivery

/-- An item that a shared store gives back as it is: its content does not say that it is deleted, and its doubles are
read as they are written. -/
structure Item.Faithful (i : Item) : Prop extends i.Storable where
  nonneg : 0 ≤ i.version
  live : ∀ v, i.content = some v → Stored.saysDeleted v = false
  exact : ∀ v, i.content = some v → v.reread = v

namespace Item

/-- The item with its version in its content. -/
def stamped (i : Item) : Item := ⟨i.version, i.content.map (Stored.withVersion i.version)⟩

/-- What is read back for a faithful item is the item itself. -/
theorem Faithful.readBack {i : Item} (h : i.Faithful) : Stored.readBack i = i.stamped := by
  obtain ⟨version, content⟩ := i
  cases content with
  | none => rfl
  | some content =>
    have hd := h.live content rfl
    have hs := Stored.stamped_of_exact h.toStorable.readable rfl (h.exact content rfl)
    simp only [Stored.readBack, hd, hs]
    rfl

/-- The text that is stored for an item. -/
def textAt (i : Item) (key : String) : String := (Stored.ofItem i).textFor key

end Item

/-- The texts that a backend holds of a kind are those of a view's items. -/
def TextsOf (kind : Kind) (v : View) (b : SharedMemory) : Prop :=
  ∀ key, b.text? kind.space key = (v kind key).map fun i => i.textAt key

/-- The version that a text tells is that of the item held, if the item can be read back. -/
theorem TextsOf.versionAt {v : View} {b : SharedMemory} {kind : Kind} {key : String} (h : TextsOf kind v b)
    (hs : ∀ i, v kind key = some i → i.Storable) : b.versionAt kind.space key = .ok (v.versionAt kind key) := by
  unfold SharedMemory.versionAt View.versionAt
  rw [h key]
  cases hi : v kind key with
  | none => rfl
  | some i =>
    obtain ⟨deleted, hv⟩ := Stored.versionOf_textFor (hs i hi).readable key
    simp [Item.textAt, hv, Functor.map, Except.map]

/-- Where an item was put that is newer than the one held, the texts are those of the view that was offered the item. -/
theorem TextsOf.put {v : View} {b : SharedMemory} {kind kind' : Kind} {key : String} {item : Item} (h : TextsOf kind' v b)
    (hlt : v.versionAt kind key < item.version) :
    TextsOf kind' (v.offered kind key item) (b.put kind.space key (item.textAt key)) := by
  intro key'
  rw [View.offered_of_lt hlt, SharedMemory.text?_put]
  by_cases hk : kind = kind' ∧ key = key'
  · obtain ⟨rfl, rfl⟩ := hk
    simp
  · have hs : ¬(kind.space = kind'.space ∧ key = key') := fun h => hk ⟨Kind.space_inj h.1, h.2⟩
    rw [if_neg hk, if_neg hs, h key']

/-- A backend holds the texts of a view's items of a kind, and no others. -/
structure InSyncOn (kind : Kind) (v : View) (b : SharedMemory) : Prop where
  faithful : ∀ key i, v kind key = some i → i.Faithful
  text : ∀ key, b.text? kind.space key = (v kind key).map fun i => i.textAt key

/-- A backend holds the texts of a view's items, and no others. -/
def InSync (v : View) (b : SharedMemory) : Prop := ∀ kind, InSyncOn kind v b

namespace InSync

variable {v : View} {b : SharedMemory}

/-- Only the texts of a backend matter. -/
theorem onTexts (h : InSync v b) {c : SharedMemory} (hc : ∀ space key, c.text? space key = b.text? space key) : InSync v c :=
  fun kind => ⟨(h kind).faithful, fun key => (hc _ _).trans ((h kind).text key)⟩

/-- The version that the backend tells is the one held. -/
theorem versionAt (h : InSync v b) (kind : Kind) (key : String) :
    b.versionAt kind.space key = .ok (v.versionAt kind key) :=
  TextsOf.versionAt (h kind).text fun i hi => ((h kind).faithful key i hi).toStorable

/-- Where an item was put that is newer than the one held, the backend is in step with the view that was offered the
item. -/
theorem put (h : InSync v b) {kind : Kind} {key : String} {item : Item} (hi : item.Faithful)
    (hlt : v.versionAt kind key < item.version) :
    InSync (v.offered kind key item) (b.put kind.space key (item.textAt key)) := by
  refine fun kind' => ⟨?_, TextsOf.put (h kind').text hlt⟩
  intro key' i hv
  rw [View.offered_of_lt hlt] at hv
  split at hv
  · exact Option.some.inj hv ▸ hi
  · exact (h kind').faithful key' i hv

/-- What is in step is read back as the items, with their versions in their contents. -/
theorem read (h : InSync v b) (kind : Kind) (key : String) :
    ((b.text? kind.space key).map fun text => (Stored.ofText text).bind Stored.toItem) =
      (v kind key).map fun i => .ok i.stamped := by
  rw [(h kind).text key, Option.map_map]
  cases hi : v kind key with
  | none => rfl
  | some i =>
    have hf := (h kind).faithful key i hi
    simp only [Option.map_some, Function.comp_apply, Item.textAt, Stored.ofText_textFor hf.toStorable.readable, hf.readBack]

end InSync

/-! ## Replacing all data -/

/-- Replacing a kind on both sides leaves the texts of its items, whatever was there before. -/
theorem textsOf_replace {tables : PerKind (Option Table)} {b : SharedMemory} {kind kind' : Kind} (es : List (String × Item))
    (h : kind = kind' ∨ TextsOf kind' (Memory.viewOf tables) b) :
    TextsOf kind' (Memory.viewOf (tables.set kind (some (Table.ofEntries es))))
      (b.replace kind.space (es.map fun (key, i) => (key, i.textAt key))) := by
  intro key
  rw [Memory.viewOf_set, SharedMemory.text?, SharedMemory.space_replace]
  by_cases hk : kind = kind'
  · subst hk
    rw [if_pos rfl, if_pos rfl]
    exact Table.getElem?_ofList_map (fun key i => i.textAt key) es key
  · have hs : ¬kind.space = kind'.space := fun h => hk (Kind.space_inj h)
    rw [if_neg hk, if_neg hs]
    exact h.resolve_left hk key

/-- The texts that are stored for items. -/
def Groups.storedTexts (data : Groups Item) : List (String × List (String × String)) :=
  Guarded.texts (data.map fun _ item => .ofItem item)

theorem Groups.storedTexts_cons (kind : Kind) (es : List (String × Item)) (data : Groups Item) :
    Groups.storedTexts ((kind, es) :: data) =
      (kind.space, es.map fun (key, i) => (key, i.textAt key)) :: data.storedTexts := by
  simp [storedTexts, Guarded.texts, Groups.map, Item.textAt]

theorem Groups.lists_cons (group : Kind × List (String × Item)) (data : Groups Item) (kind : Kind) :
    Groups.lists (group :: data) kind = (decide (group.1 = kind) || data.lists kind) := rfl

/-- Replacing all data on both sides leaves the texts of the items of each kind that is listed, and of each that was so
before. -/
theorem textsOf_replacing {data : Groups Item} {tables : PerKind (Option Table)} {b : SharedMemory} {kind : Kind}
    (h : data.lists kind = true ∨ TextsOf kind (Memory.viewOf tables) b) :
    TextsOf kind (Memory.viewOf (Memory.replace tables data)) (b.replacing data.storedTexts) := by
  induction data generalizing tables b with
  | nil => exact h.resolve_left (by simp [Groups.lists])
  | cons group data ih =>
    obtain ⟨kind', es⟩ := group
    rw [Groups.storedTexts_cons, SharedMemory.replacing_cons]
    refine ih ?_
    by_cases hl : Groups.lists data kind = true
    · exact .inl hl
    · refine .inr (textsOf_replace es (h.imp_left ?_))
      intro h
      rw [Groups.lists_cons, Bool.or_eq_true, decide_eq_true_iff] at h
      exact h.resolve_right hl

/-- Every item of a group of entries is faithful. -/
def Groups.Faithful (data : Groups Item) : Prop := ∀ e ∈ data.entries, e.2.2.Faithful

/-- Once all kinds were replaced on both sides, the sides are in step. -/
theorem inSync_replacing {data : Groups Item} (hd : data.Faithful) (hl : ∀ kind, data.lists kind = true)
    (tables : PerKind (Option Table)) (b : SharedMemory) :
    InSync (Memory.viewOf (Memory.replace tables data)) (b.replacing data.storedTexts) := by
  refine fun kind => ⟨?_, textsOf_replacing (.inl (hl kind))⟩
  intro key i hi
  rcases Memory.mem_of_viewOf_replace hi with hmem | ⟨hn, -⟩
  · exact hd _ hmem
  · rw [hl kind] at hn
    cases hn

end FlagDelivery
