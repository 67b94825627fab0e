import FlagDelivery.Store.Memory

/-!
# Memory as a view

`Memory.find?` after a batch in terms of `Memory.find?` before it. An incremental batch offers its items one after the
other, `View.offered`; a full one that lists every kind leaves nothing of what was held.
-/

namespace FlagDelivery

/-- The items held, by kind and key. -/
abbrev View := Kind → String → Option Item

namespace View

/-- The version held under a key; a missing one counts as `-1`. -/
def versionAt (v : View) (kind : Kind) (key : String) : Int := ((v kind key).map Item.version).getD (-1)

/-- An item is taken if it is newer than what is held. -/
def offered (v : View) (kind : Kind) (key : String) (item : Item) : View := fun kind' key' =>
  if (kind = kind' ∧ key = key') ∧ v.versionAt kind key < item.version then some item else v kind' key'

/-- Items are offered one after the other. -/
def offeredAll (v : View) (es : List (Kind × String × Item)) : View :=
  es.foldl (fun v (kind, key, item) => v.offered kind key item) v

theorem offeredAll_cons (v : View) (kind : Kind) (key : String) (item : Item) (es : List (Kind × String × Item)) :
    v.offeredAll ((kind, key, item) :: es) = (v.offered kind key item).offeredAll es := rfl

/-- An item that is not newer changes nothing. -/
theorem offered_of_le {v : View} {kind : Kind} {key : String} {item : Item} (h : item.version ≤ v.versionAt kind key) :
    v.offered kind key item = v := by
  funext kind' key'
  unfold offered
  rw [if_neg]
  omega

/-- A newer item is there under its key, and nothing else changes. -/
theorem offered_of_lt {v : View} {kind : Kind} {key : String} {item : Item} (h : v.versionAt kind key < item.version)
    (kind' : Kind) (key' : String) :
    v.offered kind key item kind' key' = if kind = kind' ∧ key = key' then some item else v kind' key' := by
  simp [offered, h]

/-- What is held after items were offered is one of them or was held before. -/
theorem mem_of_offeredAll {v : View} {es : List (Kind × String × Item)} {kind : Kind} {key : String} {item : Item}
    (h : v.offeredAll es kind key = some item) : (kind, key, item) ∈ es ∨ v kind key = some item := by
  induction es generalizing v with
  | nil => exact .inr h
  | cons e es ih =>
    obtain ⟨kind', key', item'⟩ := e
    rw [offeredAll_cons] at h
    rcases ih h with hmem | hv
    · exact .inl (List.mem_cons_of_mem _ hmem)
    · unfold offered at hv
      split at hv
      · next hc =>
        obtain ⟨⟨rfl, rfl⟩, -⟩ := hc
        obtain rfl := Option.some.inj hv
        exact .inl List.mem_cons_self
      · exact .inr hv

end View

namespace Table

/-- Inserting what is made of each value makes of each value held what would be held. -/
theorem getElem?_insertMany_map {α β : Type} (f : String → α → β) (es : List (String × α)) {t : Std.TreeMap String α}
    {u : Std.TreeMap String β} (h : ∀ key, u[key]? = t[key]?.map (f key)) (key : String) :
    (u.insertMany (es.map fun (key, a) => (key, f key a)))[key]? = (t.insertMany es)[key]?.map (f key) := by
  induction es generalizing t u with
  | nil => exact h key
  | cons e es ih =>
    obtain ⟨k, a⟩ := e
    rw [List.map_cons, Std.TreeMap.insertMany_cons, Std.TreeMap.insertMany_cons]
    refine ih ?_
    intro key'
    rw [Std.TreeMap.getElem?_insert, Std.TreeMap.getElem?_insert, h]
    split
    · next hk =>
      obtain rfl : k = key' := Std.LawfulEqCmp.eq_of_compare hk
      rfl
    · rfl

/-- The texts made of the entries of a table are those made of its items. -/
theorem getElem?_ofList_map {β : Type} (f : String → Item → β) (es : List (String × Item)) (key : String) :
    (Std.TreeMap.ofList (es.map fun (key, i) => (key, f key i)))[key]? = (ofEntries es)[key]?.map (f key) := by
  rw [ofEntries, Std.TreeMap.ofList_eq_insertMany_empty, Std.TreeMap.ofList_eq_insertMany_empty]
  exact getElem?_insertMany_map f es (fun _ => rfl) key

/-- Of values that are inserted under one key the last one counts. -/
theorem getElem?_insertMany {α : Type} (t : Std.TreeMap String α) (es : List (String × α)) (key : String) :
    (t.insertMany es)[key]? = (es.reverse.lookup key).or t[key]? := by
  induction es generalizing t with
  | nil => rfl
  | cons e es ih =>
    obtain ⟨k, a⟩ := e
    rw [Std.TreeMap.insertMany_cons, ih, List.reverse_cons, List.lookup_append, Option.or_assoc, Std.TreeMap.getElem?_insert]
    by_cases h : k = key
    · simp [h]
    · have hne : (key == k) = false := beq_false_of_ne (Ne.symm h)
      simp [h, List.lookup_cons, hne]

/-- A table holds under a key the last of its entries for the key. -/
theorem getElem?_ofEntries {α : Type} (es : List (String × α)) (key : String) :
    (Std.TreeMap.ofList es)[key]? = es.reverse.lookup key := by
  rw [Std.TreeMap.ofList_eq_insertMany_empty, getElem?_insertMany]
  exact Option.or_none

/-- A table holds nothing but its entries. -/
theorem mem_of_getElem?_ofEntries {α : Type} {es : List (String × α)} {key : String} {a : α}
    (h : (Std.TreeMap.ofList es)[key]? = some a) : (key, a) ∈ es := by
  rw [getElem?_ofEntries] at h
  obtain ⟨later, earlier, hes, -⟩ := List.lookup_eq_some_iff.mp h
  rw [← List.mem_reverse, hes]
  exact List.mem_append_right _ List.mem_cons_self

end Table

namespace Memory

/-- The view of tables. -/
def viewOf (tables : PerKind (Option Table)) : View := fun kind key => ((tables.get kind).getD ∅)[key]?

/-- With the table of a kind set the items of this kind are seen in it. -/
theorem viewOf_set (tables : PerKind (Option Table)) (kind : Kind) (t : Table) (kind' : Kind) (key : String) :
    viewOf (tables.set kind (some t)) kind' key = if kind = kind' then t[key]? else viewOf tables kind' key := by
  unfold viewOf
  rw [PerKind.get_set]
  split <;> rfl

/-- Offering an item to a table offers it to the view. -/
theorem viewOf_offer (tables : PerKind (Option Table)) (kind : Kind) (t : Table) (key : String) (item : Item) :
    viewOf (tables.set kind (some (t.offer key item))) = (viewOf (tables.set kind (some t))).offered kind key item := by
  funext kind' key'
  have hv : (viewOf (tables.set kind (some t))).versionAt kind key = t.versionAt key := by
    simp [View.versionAt, viewOf_set, Table.versionAt]
  rw [View.offered, hv, viewOf_set, viewOf_set, Table.getElem?_offer]
  by_cases hk : kind = kind' <;> simp [hk]

/-- Items offered to the table of a kind are offered to its view. -/
theorem viewOf_offerAll (tables : PerKind (Option Table)) (kind : Kind) (t : Table) (es : List (String × Item)) :
    viewOf (tables.set kind (some (t.offerAll es))) =
      (viewOf (tables.set kind (some t))).offeredAll (es.map fun (key, item) => (kind, key, item)) := by
  induction es generalizing t with
  | nil => rfl
  | cons e es ih =>
    have hstep : t.offerAll (e :: es) = (t.offer e.1 e.2).offerAll es := rfl
    rw [hstep, ih, viewOf_offer]
    rfl

/-- A table set to itself, or to an empty one where there was none, shows the same. -/
theorem viewOf_set_self (tables : PerKind (Option Table)) (kind : Kind) :
    viewOf (tables.set kind (some ((tables.get kind).getD ∅))) = viewOf tables := by
  funext kind' key
  rw [viewOf_set]
  split
  · next h => rw [← h]; rfl
  · rfl

/-- Offering groups of items offers the items one by one. -/
theorem viewOf_offer_groups (tables : PerKind (Option Table)) (data : Groups Item) :
    viewOf (offer tables data) = (viewOf tables).offeredAll data.entries := by
  induction data generalizing tables with
  | nil => rfl
  | cons group data ih =>
    obtain ⟨kind, es⟩ := group
    have hstep : offer tables ((kind, es) :: data) =
        offer (tables.set kind (some (((tables.get kind).getD ∅).offerAll es))) data := rfl
    rw [hstep, ih, viewOf_offerAll, viewOf_set_self]
    simp [View.offeredAll, Groups.entries, List.foldl_append]

/-- An incremental batch offers its items one after the other. -/
theorem find?_apply_incremental (m : Memory) {b : Batch} (h : b.extent = .incremental) :
    (m.apply b).find? = View.offeredAll m.find? b.data.entries := by
  rw [apply, h]
  exact viewOf_offer_groups m.tables b.data

/-- A batch without changes leaves the items as they are. -/
theorem find?_apply_none (m : Memory) {b : Batch} (h : b.extent = .none) : (m.apply b).find? = m.find? := by
  rw [apply, h]
  simp only
  split <;> rfl

theorem find?_empty (kind : Kind) (key : String) : empty.find? kind key = none := by cases kind <;> rfl

/-- Where kinds are replaced, a kind that is listed holds its last group, and any other what it held before. -/
theorem viewOf_replace (tables : PerKind (Option Table)) (data : Groups Item) (kind : Kind) (key : String) :
    viewOf (replace tables data) kind key = match data.reverse.lookup kind with
      | some es => es.reverse.lookup key
      | none => viewOf tables kind key := by
  induction data generalizing tables with
  | nil => rfl
  | cons group data ih =>
    obtain ⟨kind', es⟩ := group
    have hstep : replace tables ((kind', es) :: data) = replace (tables.set kind' (some (Table.ofEntries es))) data := rfl
    rw [hstep, ih, viewOf_set, Table.ofEntries, Table.getElem?_ofEntries, List.reverse_cons, List.lookup_append]
    cases data.reverse.lookup kind with
    | some later => rfl
    | none =>
      by_cases h : kind' = kind
      · simp [h]
      · have hne : (kind == kind') = false := beq_false_of_ne (Ne.symm h)
        simp [h, List.lookup_cons, hne]

/-- What is held after all data was replaced is an entry of the data or of a kind that the data does not list. -/
theorem mem_of_viewOf_replace {tables : PerKind (Option Table)} {data : Groups Item} {kind : Kind} {key : String}
    {item : Item} (h : viewOf (replace tables data) kind key = some item) :
    (kind, key, item) ∈ data.entries ∨ data.lists kind = false ∧ viewOf tables kind key = some item := by
  induction data generalizing tables with
  | nil => exact .inr ⟨rfl, h⟩
  | cons group data ih =>
    obtain ⟨kind', es⟩ := group
    have hentries : Groups.entries ((kind', es) :: data) = (es.map fun e => (kind', e.1, e.2)) ++ Groups.entries data := rfl
    have hlists : Groups.lists ((kind', es) :: data) kind = (decide (kind' = kind) || Groups.lists data kind) := rfl
    rw [hentries, hlists]
    rcases ih h with hmem | ⟨hl, hv⟩
    · exact .inl (List.mem_append_right _ hmem)
    · rw [viewOf_set] at hv
      split at hv
      · next hk =>
        subst hk
        exact .inl (List.mem_append_left _ (List.mem_map.mpr ⟨_, Table.mem_of_getElem?_ofEntries hv, rfl⟩))
      · next hk => exact .inr ⟨by simp [hk, hl], hv⟩

/-- What is held after a batch is an item of the batch or was held before. -/
theorem mem_of_find?_apply {m : Memory} {b : Batch} {kind : Kind} {key : String} {item : Item}
    (h : (m.apply b).find? kind key = some item) : (kind, key, item) ∈ b.data.entries ∨ m.find? kind key = some item := by
  cases he : b.extent with
  | full =>
    rw [apply, he] at h
    exact (mem_of_viewOf_replace h).imp_right And.right
  | incremental =>
    rw [find?_apply_incremental m he] at h
    exact View.mem_of_offeredAll h
  | none =>
    rw [find?_apply_none m he] at h
    exact .inr h

/-- The memory after batches, one after the other. -/
def applyAll (m : Memory) (bs : List Batch) : Memory := bs.foldl Memory.apply m

theorem applyAll_append (m : Memory) (bs bs' : List Batch) : m.applyAll (bs ++ bs') = (m.applyAll bs).applyAll bs' :=
  List.foldl_append ..

theorem applyAll_concat (m : Memory) (bs : List Batch) (b : Batch) : m.applyAll (bs ++ [b]) = (m.applyAll bs).apply b := by
  simp [applyAll]

/-- An item of version zero or above that is written is one that the view takes. -/
theorem find?_upsert_eq_offered (m : Memory) (kind : Kind) (key : String) {item : Item} (hv : 0 ≤ item.version)
    (hn : (m.upsert kind key item).1 = true) : (m.upsert kind key item).2.find? = View.offered m.find? kind key item := by
  have hlt : View.versionAt m.find? kind key < item.version := by
    have hnew := (upsert_fst_iff m kind key item).mp hn
    unfold View.versionAt
    cases hf : m.find? kind key with
    | none => simpa using by omega
    | some old => exact hnew old hf
  funext kind' key'
  rw [find?_upsert, View.offered_of_lt hlt]
  simp [hn]

end Memory

end FlagDelivery
