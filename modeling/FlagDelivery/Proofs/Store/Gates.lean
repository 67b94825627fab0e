import FlagDelivery.Proofs.Store.History
import FlagDelivery.Proofs.Store.LocalCopy
import FlagDelivery.Proofs.Store.Outages
import FlagDelivery.Proofs.Store.Usable

/-!
# The gates that a write passes

Whether an item is newer than what is held is decided in three places: where it is written to memory, where a batch is
applied to memory, and where it is written to a backend. `Gates.agree_iff` says for any items that are written to one
key, one after the other, when the three decide alike. A batch and a backend count a missing item as one of version
`-1`, and memory does not; and a backend has to read back what it decides on.
-/

namespace FlagDelivery

/-- An item that a store may be given: a tombstone, or an object that does not say that it is deleted. -/
structure Item.Plain (i : Item) : Prop extends i.WellFormed where
  object : ∀ v, i.content = some v → ∃ fs, v = .obj fs
  live : ∀ v, i.content = some v → Stored.saysDeleted v = false

namespace Slot

variable {s : Slot} {is : List Item}

/-- What is told of what is held: its version, and whether it is a tombstone. -/
def outline (s : Slot) : Option (Int × Bool) := s.map fun i => (i.version, i.isTombstone)

/-- Reading back keeps the outline. -/
theorem outline_readBack (h : ∀ i, s = some i → i.Plain) : outline (s.map Stored.readBack) = s.outline := by
  cases s with
  | none => rfl
  | some i =>
    obtain ⟨version, content⟩ := i
    cases content with
    | none => rfl
    | some v => simp [outline, Stored.readBack, (h _ rfl).live v rfl, Item.isTombstone]

/-- An item is written unless one of the same or a higher version is held. -/
def write (s : Slot) (i : Item) : Slot := if s.any fun old => i.version ≤ old.version then s else some i

/-- Items are written one after the other. -/
def writeAll (s : Slot) (is : List Item) : Slot := is.foldl write s

theorem writeAll_concat (s : Slot) (is : List Item) (i : Item) : s.writeAll (is ++ [i]) = (s.writeAll is).write i := by
  simp [writeAll]

theorem offerAll_concat (s : Slot) (is : List Item) (i : Item) : s.offerAll (is ++ [i]) = (s.offerAll is).offer i := by
  simp [offerAll]

/-- Where an item is held, writing another is offering it. -/
theorem write_some (old i : Item) : write (some old) i = offer (some old) i := by
  by_cases h : old.version < i.version
  · simp [write, offer, version, h, Int.not_le.mpr h]
  · simp [write, offer, version, h, Int.not_lt.mp h]

/-- One of the items is left, and none of them is newer. -/
theorem writeAll_highest (h : is ≠ []) : ∃ i ∈ is, writeAll none is = some i ∧ ∀ j ∈ is, j.version ≤ i.version := by
  induction is using List.reverseRecOn with
  | nil => exact absurd rfl h
  | append_singleton is i ih =>
    rw [writeAll_concat]
    by_cases hnil : is = []
    · subst hnil
      exact ⟨i, by simp, rfl, by simp⟩
    · obtain ⟨old, hold, hleft, hle⟩ := ih hnil
      rw [hleft, write_some]
      by_cases hlt : old.version < i.version
      · refine ⟨i, by simp, if_pos hlt, ?_⟩
        intro j hj
        rcases List.mem_append.mp hj with hj | hj
        · exact Int.le_of_lt (Int.lt_of_le_of_lt (hle j hj) hlt)
        · rw [List.mem_singleton.mp hj]
      · refine ⟨old, by simp [hold], if_neg hlt, ?_⟩
        intro j hj
        rcases List.mem_append.mp hj with hj | hj
        · exact hle j hj
        · rw [List.mem_singleton.mp hj]
          exact Int.not_lt.mp hlt

/-- Items of negative versions are not taken where nothing is held. -/
theorem offerAll_none_of_neg (h : ∀ i ∈ is, i.version < 0) : offerAll none is = none :=
  offerAll_of_le fun i hi => Int.le_of_lt_add_one (h i hi)

/-- From the first item on that is not of a negative version, writing leaves what offering does. -/
theorem writeAll_eq_offerAll (h : ∃ i ∈ is, 0 ≤ i.version) : writeAll none is = offerAll none is := by
  induction is using List.reverseRecOn with
  | nil => simp at h
  | append_singleton is i ih =>
    rw [writeAll_concat, offerAll_concat]
    by_cases hbefore : ∃ j ∈ is, 0 ≤ j.version
    · have hne : is ≠ [] := hbefore.elim fun j hj => List.ne_nil_of_mem hj.1
      obtain ⟨old, -, hleft, -⟩ := writeAll_highest hne
      rw [← ih hbefore, hleft, write_some]
    · have hneg : ∀ j ∈ is, j.version < 0 := fun j hj => Int.not_le.mp fun hj' => hbefore ⟨j, hj, hj'⟩
      have hi : 0 ≤ i.version := by
        obtain ⟨j, hj, hj'⟩ := h
        rcases List.mem_append.mp hj with hj | hj
        · exact absurd hj' (Int.not_le.mpr (hneg j hj))
        · exact List.mem_singleton.mp hj ▸ hj'
      have hoffered : offer none i = some i := if_pos (Int.lt_of_lt_of_le (by decide) hi)
      rw [offerAll_none_of_neg hneg, hoffered]
      by_cases hnil : is = []
      · rw [hnil]
        rfl
      · obtain ⟨old, hold, hleft, -⟩ := writeAll_highest hnil
        have hlt : old.version < i.version := Int.lt_of_lt_of_le (hneg old hold) hi
        rw [hleft, write_some]
        exact if_pos hlt

/-- An item is newer than what offers left exactly if it is newer than each item offered, and of no negative version. -/
theorem version_offerAll_lt_iff (i : Item) :
    (offerAll none is).version < i.version ↔ 0 ≤ i.version ∧ ∀ j ∈ is, j.version < i.version := by
  have hstart : version none = -1 := rfl
  constructor
  · intro h
    have hle := version_le_offerAll none is
    exact ⟨by omega, fun j hj => Int.lt_of_le_of_lt (le_version_offerAll hj none) h⟩
  · rintro ⟨hi, h⟩
    rcases offerAll_cases none is with hnone | ⟨j, hj, hleft, -⟩
    · rw [hnone]
      omega
    · rw [hleft]
      exact h j hj

/-- Of the items offered, none is taken that cannot be read back. -/
def Legible (s : Slot) : List Item → Prop
  | [] => True
  | i :: is => (s.version < i.version → i.Readable) ∧ (s.offer i).Legible is

/-- If no item that is taken is unreadable, so it is with the first ones. -/
theorem Legible.of_append {js : List Item} (h : s.Legible (is ++ js)) : s.Legible is := by
  induction is generalizing s with
  | nil => trivial
  | cons i is ih => exact ⟨h.1, ih h.2⟩

/-- If all items can be read back, so can those that are taken. -/
theorem legible_of_readable (h : ∀ i ∈ is, i.Readable) : s.Legible is := by
  induction is generalizing s with
  | nil => trivial
  | cons i is ih => exact ⟨fun _ => h i List.mem_cons_self, ih fun j hj => h j (List.mem_cons_of_mem _ hj)⟩

end Slot

/-- A batch of one item, which is like another in all else. -/
def Batch.single (b : Batch) (kind : Kind) (key : String) (item : Item) : Batch :=
  { b with extent := .incremental, data := [(kind, [(key, item)])] }

namespace Memory

/-- A write of one item acts on the slot under its key. -/
theorem find?_upsert_self (m : Memory) (kind : Kind) (key : String) (item : Item) :
    (m.upsert kind key item).2.find? kind key = Slot.write (m.find? kind key) item := by
  rw [find?_upsert]
  unfold upsert Slot.write
  split <;> simp

/-- A batch of one item acts on the slot under its key. -/
theorem find?_apply_single (m : Memory) (b : Batch) (kind : Kind) (key : String) (item : Item) :
    (m.apply (b.single kind key item)).find? kind key = Slot.offer (m.find? kind key) item := by
  have hentries : (b.single kind key item).data.entries = [(kind, key, item)] := rfl
  rw [find?_apply_incremental m rfl, hentries, View.offeredAll_apply, Offers.under_cons, if_pos ⟨rfl, rfl⟩]
  rfl

end Memory

namespace Gates

variable (kind : Kind) (key : String) (like : Batch) (retry recovery : Policy)

/-- A memory once items were written to a key one after the other. -/
def written (is : List Item) : Site Memory :=
  Access.runAll (is.map fun i => .write (.upsert kind key i)) ⟨.empty, .initial false⟩

/-- A memory once batches of one item each were applied. -/
def batched (is : List Item) : Site Memory :=
  Access.runAll (is.map fun i => .write (.apply (like.single kind key i))) ⟨.empty, .initial false⟩

/-- A store over a backend of its own, once items were written to a key one after the other. -/
def shared (is : List Item) : Site Remote :=
  Access.runAll (is.map fun i => .write (.upsert kind key i)) ⟨.ofShared (.ofBackend .empty retry) recovery, .initial true⟩

variable {σ : Type} [DataStore σ]

/-- What a store tells of what it holds. -/
def told (site : Site σ) : Except StoreError (Option (Int × Bool)) :=
  ((DataStore.find? kind key : StoreM _ (Option Item)).run site).1.map Slot.outline

/-- What a store answers that an item is written to. -/
def answer (site : Site σ) (item : Item) : Except StoreError Bool :=
  ((DataStore.upsert kind key item : StoreM _ Bool).run site).1

/-! ## Memory -/

/-- What requests of one form leave under a key is a fold over what is held there, if each of them does one step. -/
theorem find?_runAll (write : Item → Request) (step : Slot → Item → Slot)
    (hstep : ∀ (m : Memory) i, (m.take (write i)).find? kind key = step (m.find? kind key) i) (is : List Item)
    (site : Site Memory) :
    (Access.runAll (is.map fun i => .write (write i)) site).store.find? kind key =
      is.foldl step (site.store.find? kind key) := by
  induction is generalizing site with
  | nil => rfl
  | cons i is ih =>
    have hrun : Access.runAll ((i :: is).map fun i => .write (write i)) site =
        Access.runAll (is.map fun i => .write (write i)) (site.mapStore (·.take (write i))) := by
      rw [List.map_cons, Access.runAll, List.foldl_cons, Memory.write_run]
      rfl
    rw [hrun, ih, List.foldl_cons]
    exact congrArg (is.foldl step) (hstep site.store i)

/-- Items written one by one leave what writing them to the slot leaves. -/
theorem find?_written (is : List Item) : (written kind key is).store.find? kind key = Slot.writeAll none is := by
  have hrun := find?_runAll kind key (.upsert kind key) Slot.write (fun m i => Memory.find?_upsert_self m kind key i) is
    ⟨.empty, .initial false⟩
  rwa [Memory.find?_empty] at hrun

/-- Items in batches of their own leave what offering them to the slot leaves. -/
theorem find?_batched (is : List Item) : (batched kind key like is).store.find? kind key = Slot.offerAll none is := by
  have hrun := find?_runAll kind key (fun i => .apply (like.single kind key i)) Slot.offer
    (fun m i => Memory.find?_apply_single m like kind key i) is ⟨.empty, .initial false⟩
  rwa [Memory.find?_empty] at hrun

/-- What is told after the writes is the outline of the slot. -/
theorem told_written (is : List Item) : told kind key (written kind key is) = .ok (Slot.writeAll none is).outline :=
  congrArg (fun s => Except.ok (Slot.outline s)) (find?_written kind key is)

theorem told_batched (is : List Item) : told kind key (batched kind key like is) = .ok (Slot.offerAll none is).outline :=
  congrArg (fun s => Except.ok (Slot.outline s)) (find?_batched kind key like is)

/-- Memory takes an item that is newer than each one written. -/
theorem answer_written (is : List Item) (item : Item) :
    answer kind key (written kind key is) item = .ok (decide (∀ i ∈ is, i.version < item.version)) := by
  have hanswer : answer kind key (written kind key is) item = .ok ((written kind key is).store.upsert kind key item).1 := rfl
  rw [hanswer]
  refine congrArg Except.ok (Bool.eq_iff_iff.mpr ?_)
  rw [Memory.upsert_fst_iff, find?_written, decide_eq_true_iff]
  by_cases hnil : is = []
  · subst hnil
    exact iff_of_true nofun nofun
  · obtain ⟨i, hi, hleft, hle⟩ := Slot.writeAll_highest hnil
    rw [hleft]
    constructor
    · exact fun h j hj => Int.lt_of_le_of_lt (hle j hj) (h i rfl)
    · rintro h _ ⟨⟩
      exact h i hi

/-! ## A backend -/

/-- A backend that can be reached and to which nobody else writes holds under a key the text of an item, or nothing. -/
structure Keeps (site : Site Remote) (s : Slot) : Prop where
  reachable : site.store.shared.backend.reachable = true
  alone : site.store.shared.rival = fun _ b => b
  text : site.store.shared.backend.text? kind.space key = s.map fun i => i.textAt key

variable {kind : Kind} {key : String} {site : Site Remote} {s : Slot}

/-- Over an item that can be read back, or nothing, an item is offered. -/
theorem Keeps.upsert (h : Keeps kind key site s) (hs : ∀ i, s = some i → i.Readable) (item : Item) :
    ∃ site', (DataStore.upsert kind key item : StoreM _ Bool).run site = (.ok (decide (s.version < item.version)), site') ∧
      Keeps kind key site' (s.offer item) := by
  obtain ⟨hr, ha, ht⟩ := h
  have hversion : site.store.shared.backend.versionAt kind.space key = .ok s.version := by
    rw [SharedMemory.versionAt, ht]
    cases s with
    | none => rfl
    | some i =>
      obtain ⟨deleted, hv⟩ := Stored.versionOf_textFor (hs i rfl) key
      simp [Item.textAt, hv, Functor.map, Except.map, Slot.version]
  obtain ⟨log, hrun⟩ := Attached.upsert_run hr ha kind key item
  rw [hversion] at hrun
  refine ⟨_, hrun, ?_⟩
  by_cases hlt : s.version < item.version
  · have htaken : s.offer item = some item := if_pos hlt
    rw [htaken]
    simp only [if_pos hlt]
    exact ⟨hr, ha, by simp [Site.mapStore, SharedMemory.text?_put]⟩
  · have hkept : s.offer item = s := if_neg hlt
    rw [hkept]
    simp only [if_neg hlt]
    exact ⟨hr, ha, ht⟩

/-- Over an item that cannot be read back nothing can be written. -/
theorem Keeps.upsert_error {old : Item} (h : Keeps kind key site (some old)) (hw : old.WellFormed) (hn : ¬old.Readable)
    (item : Item) :
    ∃ e site', (DataStore.upsert kind key item : StoreM _ Bool).run site = (.error e, site') ∧
      Keeps kind key site' (some old) := by
  obtain ⟨hr, ha, ht⟩ := h
  obtain ⟨e, he⟩ := Stored.versionOf_of_not_readable hw hn key
  have hversion : site.store.shared.backend.versionAt kind.space key = .error e := by
    rw [SharedMemory.versionAt, ht]
    simp [Item.textAt, he, Functor.map, Except.map]
  obtain ⟨log, hrun⟩ := Attached.upsert_run hr ha kind key item
  rw [hversion] at hrun
  exact ⟨e, _, hrun, hr, ha, ht⟩

theorem runAll_cons (i : Item) (is : List Item) (site : Site Remote) :
    Access.runAll ((i :: is).map fun i => .write (.upsert kind key i)) site =
      Access.runAll (is.map fun i => .write (.upsert kind key i))
        ((DataStore.upsert kind key i : StoreM _ Bool).run site).2 := by
  rw [List.map_cons, Access.runAll, List.foldl_cons, Access.run, StoreM.discard_run]
  rfl

/-- An item that cannot be read back stays, whatever is written after it. -/
theorem Keeps.runAll_error {old : Item} (h : Keeps kind key site (some old)) (hw : old.WellFormed) (hn : ¬old.Readable)
    (is : List Item) :
    Keeps kind key (Access.runAll (is.map fun i => .write (.upsert kind key i)) site) (some old) := by
  induction is generalizing site with
  | nil => exact h
  | cons i is ih =>
    obtain ⟨e, site', hrun, hkeeps⟩ := h.upsert_error hw hn i
    rw [runAll_cons, hrun]
    exact ih hkeeps

/-- Items that are written leave what offers leave, unless one is taken that cannot be read back, which then stays. -/
theorem Keeps.runAll (h : Keeps kind key site s) (hs : ∀ i, s = some i → i.Readable) {is : List Item}
    (his : ∀ i ∈ is, i.WellFormed) :
    let site' := Access.runAll (is.map fun i => .write (.upsert kind key i)) site
    (s.Legible is → Keeps kind key site' (s.offerAll is) ∧ ∀ i, s.offerAll is = some i → i.Readable) ∧
      (¬s.Legible is → ∃ i, i.WellFormed ∧ ¬i.Readable ∧ Keeps kind key site' (some i)) := by
  induction is generalizing site s with
  | nil => exact ⟨fun _ => ⟨h, hs⟩, fun hn => absurd trivial hn⟩
  | cons i is ih =>
    obtain ⟨site', hrun, hkeeps⟩ := h.upsert hs i
    have hwell : ∀ j ∈ is, j.WellFormed := fun j hj => his j (List.mem_cons_of_mem _ hj)
    rw [runAll_cons, hrun]
    by_cases hread : s.version < i.version → i.Readable
    · have hoffered : ∀ j, s.offer i = some j → j.Readable := by
        intro j hj
        unfold Slot.offer at hj
        split at hj
        · next hlt => exact Option.some.inj hj ▸ hread hlt
        · exact hs j hj
      obtain ⟨hlegible, hnot⟩ := ih hkeeps hoffered hwell
      exact ⟨fun hl => hlegible hl.2, fun hn => hnot fun hl => hn ⟨hread, hl⟩⟩
    · obtain ⟨hlt, hn⟩ := Classical.not_imp.mp hread
      have htaken : s.offer i = some i := if_pos hlt
      rw [htaken] at hkeeps
      have hwell' := his i List.mem_cons_self
      exact ⟨fun hl => absurd hl.1 hread, fun _ => ⟨i, hwell', hn, hkeeps.runAll_error hwell' hn is⟩⟩

section

variable (kind : Kind) (key : String) (like : Batch) (retry recovery : Policy) {is : List Item}

/-- What the items leave in the backend can be read back, and decides on the next item. -/
theorem shared_of_legible (his : ∀ i ∈ is, i.Plain) (hl : Slot.Legible none is) :
    told kind key (shared kind key retry recovery is) = .ok (Slot.offerAll none is).outline ∧
      ∀ item, answer kind key (shared kind key retry recovery is) item =
        .ok (decide ((Slot.offerAll none is).version < item.version)) := by
  have hfirst : Keeps kind key ⟨.ofShared (.ofBackend .empty retry) recovery, .initial true⟩ none := ⟨rfl, rfl, rfl⟩
  obtain ⟨hkeeps, hread⟩ := (hfirst.runAll nofun fun i hi => (his i hi).toWellFormed).1 hl
  have hplain : ∀ i, Slot.offerAll none is = some i → i.Plain := by
    intro i hi
    rcases Slot.offerAll_cases none is with hnone | ⟨j, hj, hleft, -⟩
    · rw [hnone] at hi
      cases hi
    · exact Option.some.inj (hleft.symm.trans hi) ▸ his j hj
  constructor
  · have hanswer : ((DataStore.find? kind key : StoreM _ (Option Item)).run (shared kind key retry recovery is)).1 = _ :=
      Attached.answer_of_readable hkeeps.reachable hkeeps.text hread
    rw [told, hanswer, ← Slot.outline_readBack hplain]
    rfl
  · intro item
    obtain ⟨site', hrun, -⟩ := hkeeps.upsert hread item
    exact congrArg Prod.fst hrun

/-- Once an item was taken that cannot be read back, the backend tells nothing and takes nothing. -/
theorem shared_of_not_legible (his : ∀ i ∈ is, i.WellFormed) (hn : ¬Slot.Legible none is) :
    (∃ e, told kind key (shared kind key retry recovery is) = .error e) ∧
      ∀ item, ∃ e, answer kind key (shared kind key retry recovery is) item = .error e := by
  have hfirst : Keeps kind key ⟨.ofShared (.ofBackend .empty retry) recovery, .initial true⟩ none := ⟨rfl, rfl, rfl⟩
  obtain ⟨i, hw, hread, hkeeps⟩ := (hfirst.runAll nofun his).2 hn
  constructor
  · obtain ⟨e, he⟩ := Attached.answer_of_not_readable hkeeps.reachable hkeeps.text hw hread
    have hanswer :
        ((DataStore.find? kind key : StoreM _ (Option Item)).run (shared kind key retry recovery is)).1 = .error e := he
    exact ⟨e, by rw [told, hanswer]; rfl⟩
  · intro item
    obtain ⟨e, site', hrun, -⟩ := hkeeps.upsert_error hw hread item
    exact ⟨e, congrArg Prod.fst hrun⟩

/-! ## All three -/

/-- Writing to memory leaves what batches leave, once anything was written, exactly if some item was not of a negative
version. -/
theorem told_written_iff (is : List Item) :
    told kind key (written kind key is) = told kind key (batched kind key like is) ↔ is = [] ∨ ∃ i ∈ is, 0 ≤ i.version := by
  rw [told_written, told_batched]
  constructor
  · intro h
    by_contra hnone
    obtain ⟨hnil, hneg⟩ := not_or.mp hnone
    obtain ⟨i, -, hleft, -⟩ := Slot.writeAll_highest hnil
    rw [hleft, Slot.offerAll_none_of_neg fun i hi => Int.not_le.mp fun hi' => hneg ⟨i, hi, hi'⟩] at h
    cases h
  · rintro (rfl | h)
    · rfl
    · rw [Slot.writeAll_eq_offerAll h]

/-- A backend leaves what batches leave exactly if no item was taken that cannot be read back. -/
theorem told_shared_iff (his : ∀ i ∈ is, i.Plain) :
    told kind key (shared kind key retry recovery is) = told kind key (batched kind key like is) ↔ Slot.Legible none is := by
  rw [told_batched]
  constructor
  · intro h
    by_contra hn
    obtain ⟨⟨e, he⟩, -⟩ := shared_of_not_legible kind key retry recovery (fun i hi => (his i hi).toWellFormed) hn
    rw [he] at h
    cases h
  · exact fun hl => (shared_of_legible kind key retry recovery his hl).1

/-- Memory and a backend answer alike exactly if no item was taken that cannot be read back, and the item is not of a
negative version or is no newer than one that was written. -/
theorem answer_iff (his : ∀ i ∈ is, i.Plain) (item : Item) :
    answer kind key (written kind key is) item = answer kind key (shared kind key retry recovery is) item ↔
      Slot.Legible none is ∧ (0 ≤ item.version ∨ ∃ i ∈ is, item.version ≤ i.version) := by
  rw [answer_written]
  by_cases hl : Slot.Legible none is
  · rw [(shared_of_legible kind key retry recovery his hl).2, Except.ok.injEq, decide_eq_decide,
      Slot.version_offerAll_lt_iff, and_iff_right hl]
    constructor
    · intro h
      by_contra hneither
      obtain ⟨hneg, hnewer⟩ := not_or.mp hneither
      exact hneg (h.mp fun i hi => Int.not_le.mp fun hle => hnewer ⟨i, hi, hle⟩).1
    · rintro (h | ⟨i, hi, hle⟩)
      · exact (and_iff_right h).symm
      · exact iff_of_false (fun h => absurd (h i hi) (Int.not_lt.mpr hle)) fun h => absurd (h.2 i hi) (Int.not_lt.mpr hle)
  · obtain ⟨-, hanswer⟩ := shared_of_not_legible kind key retry recovery (fun i hi => (his i hi).toWellFormed) hl
    obtain ⟨e, he⟩ := hanswer item
    rw [he]
    exact iff_of_false nofun fun h => hl h.1

/-- The gates decide alike on an item that is written after others: memory and the backend give the same answer, and
after the write all three stores tell the same. -/
structure Agree (is : List Item) (item : Item) : Prop where
  answers : answer kind key (written kind key is) item = answer kind key (shared kind key retry recovery is) item
  memory : told kind key (written kind key (is ++ [item])) = told kind key (batched kind key like (is ++ [item]))
  backend : told kind key (shared kind key retry recovery (is ++ [item])) =
    told kind key (batched kind key like (is ++ [item]))

/-- **When the gates agree.** Items are written to one key, one after the other: to a memory, to a memory in batches of
one, and to a backend that can be reached and to which nobody else writes. Each is a tombstone, or an object that does
not say that it is deleted.
1. Both memories tell the same version, and of a tombstone or not, exactly if nothing was written or some item was not
   of a negative version.
2. The backend tells the same as the memory with the batches exactly if no item was taken that nests too deeply to be
   read back.
3. Memory and backend answer alike to the next item exactly if no item was taken that nests too deeply, and the next one
   is not of a negative version or no newer than one that was written.
4. So the gates agree all along exactly if the first item is not of a negative version and none is taken that nests too
   deeply. -/
theorem agree_iff (is : List Item) (his : ∀ i ∈ is, i.Plain) :
    (told kind key (written kind key is) = told kind key (batched kind key like is) ↔ is = [] ∨ ∃ i ∈ is, 0 ≤ i.version) ∧
    (told kind key (shared kind key retry recovery is) = told kind key (batched kind key like is) ↔ Slot.Legible none is) ∧
    (∀ item, answer kind key (written kind key is) item = answer kind key (shared kind key retry recovery is) item ↔
      Slot.Legible none is ∧ (0 ≤ item.version ∨ ∃ i ∈ is, item.version ≤ i.version)) ∧
    ((∀ before item after, is = before ++ item :: after → Agree kind key like retry recovery before item) ↔
      (∀ first ∈ is.head?, 0 ≤ first.version) ∧ Slot.Legible none is) := by
  refine ⟨told_written_iff kind key like is, told_shared_iff kind key like retry recovery his,
    answer_iff kind key retry recovery his, ?_, ?_⟩
  · intro hagree
    constructor
    · intro first hfirst
      obtain ⟨after, rfl⟩ := List.head?_eq_some_iff.mp hfirst
      have hmemory := (told_written_iff kind key like _).mp (hagree [] first after rfl).memory
      simpa using hmemory
    · rcases List.eq_nil_or_concat is with rfl | ⟨before, last, rfl⟩
      · trivial
      · rw [List.concat_eq_append] at his hagree ⊢
        exact (told_shared_iff kind key like retry recovery his).mp (hagree before last [] rfl).backend
  · rintro ⟨hfirst, hlegible⟩ before item after rfl
    have hsplit : before ++ item :: after = (before ++ [item]) ++ after := by simp
    rw [hsplit] at his hlegible
    have hplain : ∀ i ∈ before ++ [item], i.Plain := fun i hi => his i (List.mem_append_left _ hi)
    -- The first item of all is among these, whether others came before this one or not.
    obtain ⟨i, hi, hnonneg⟩ : ∃ i ∈ before ++ [item], 0 ≤ i.version := by
      cases before with
      | nil => exact ⟨item, List.mem_singleton_self item, hfirst item rfl⟩
      | cons first before => exact ⟨first, List.mem_cons_self, hfirst first rfl⟩
    refine ⟨?_, (told_written_iff kind key like _).mpr (.inr ⟨i, hi, hnonneg⟩), ?_⟩
    · refine (answer_iff kind key retry recovery (fun j hj => hplain j (List.mem_append_left _ hj)) item).mpr ?_
      refine ⟨hlegible.of_append.of_append, ?_⟩
      rcases List.mem_append.mp hi with hbefore | hitem
      · exact (Int.le_total 0 item.version).imp_right fun hneg => ⟨i, hbefore, Int.le_trans hneg hnonneg⟩
      · exact .inl (List.mem_singleton.mp hitem ▸ hnonneg)
    · exact (told_shared_iff kind key like retry recovery hplain).mpr hlegible.of_append

end

/-! ### A flag that comes and goes, and one of a negative version -/

open Mirror (plainFlag faithful_plainFlag)

/-- A batch that says nothing. -/
def emptyBatch : Batch := ⟨.incremental, .empty, [], none, true⟩

/-- A flag, its deletion, and an older version of the flag. -/
def comesAndGoes : List Item := [plainFlag 0, .tombstone 2, plainFlag 1]

/-- All along the gates agree on it. -/
theorem agree_comesAndGoes : (∀ i ∈ comesAndGoes, i.Plain) ∧ ∀ before item after, comesAndGoes = before ++ item :: after →
    Agree .features "a" emptyBatch .unbounded .unbounded before item := by
  have hflag {version : Int} (h : Json.IsVersion version) (h₀ : 0 ≤ version) :
      (plainFlag version).Plain ∧ (plainFlag version).Readable := by
    have hf := faithful_plainFlag h h₀
    have hcontent := hf.toStorable.content _ rfl
    refine ⟨⟨⟨h, ?_⟩, ?_, hf.live⟩, hf.toStorable.readable⟩
    · rintro _ ⟨⟩
      exact hcontent.elim fun _ hw => hw.2.1
    · rintro _ ⟨⟩
      exact ⟨_, rfl⟩
  have hboth : ∀ i ∈ comesAndGoes, i.Plain ∧ i.Readable := by
    simp only [comesAndGoes, List.forall_mem_cons, List.not_mem_nil, false_implies, implies_true, and_true]
    exact ⟨hflag (by decide) (by decide), ⟨⟨⟨by decide, nofun⟩, nofun, nofun⟩, by decide, nofun⟩,
      hflag (by decide) (by decide)⟩
  have hplain : ∀ i ∈ comesAndGoes, i.Plain := fun i hi => (hboth i hi).1
  obtain ⟨-, -, -, hagree⟩ := agree_iff .features "a" emptyBatch .unbounded .unbounded comesAndGoes hplain
  refine ⟨hplain, hagree.mpr ⟨?_, Slot.legible_of_readable fun i hi => (hboth i hi).2⟩⟩
  rintro _ ⟨⟩
  exact Int.le_refl 0

/-- A flag of version `-1` is written to a memory that holds nothing, and neither a batch nor a backend takes it. -/
theorem disagree_negative :
    answer .features "a" (written .features "a" []) (plainFlag (-1)) = .ok true ∧
      answer .features "a" (shared .features "a" .unbounded .unbounded []) (plainFlag (-1)) = .ok false ∧
      told .features "a" (written .features "a" [plainFlag (-1)]) = .ok (some (-1, false)) ∧
      told .features "a" (batched .features "a" emptyBatch [plainFlag (-1)]) = .ok none :=
  ⟨rfl, rfl, rfl, rfl⟩

end Gates

end FlagDelivery
