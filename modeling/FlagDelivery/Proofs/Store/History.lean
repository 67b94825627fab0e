import FlagDelivery.Proofs.Store.Requests
import FlagDelivery.Proofs.Store.Slots
import Mathlib.Data.List.DropRight

/-!
# What a memory holds after a history of requests

A request replaces what is held of a kind, or offers items to its keys. So what is held under a key follows from a
`History`: the item that the key was given when its kind was last replaced, `History.base?`, and the items offered
since, `History.offersSince`. The highest version of these is held, the first of equals: `Memory.held_of_history`.
-/

namespace FlagDelivery

namespace Request

/-- The entries that a kind is given in place of all that is held of it, if the request replaces the kind. Of two groups
of one kind the later counts. -/
def replaces? (kind : Kind) : Request → Option (List (String × Item))
  | .init d => some ((d.data.reverse.lookup kind).getD [])
  | .apply b => if b.extent = .full then b.data.reverse.lookup kind else none
  | .upsert _ _ _ => none

/-- The items that the request writes only where they are newer. -/
def offers : Request → Offers
  | .init _ => []
  | .apply b => if b.extent = .incremental then b.data.entries else []
  | .upsert kind key item => [(kind, key, item)]

/-- The selector that the request leaves, if it leaves one. -/
def selector? : Request → Option Selector
  | .init _ => some .empty
  | .apply b => if b.extent = .none ∧ b.selector.isEmpty then none else some b.selector
  | .upsert _ _ _ => none

/-- No item of the request has a negative version. -/
def Nonneg : Request → Prop
  | .init d => ∀ e ∈ d.data.entries, 0 ≤ e.2.2.version
  | .apply b => ∀ e ∈ b.data.entries, 0 ≤ e.2.2.version
  | .upsert _ _ item => 0 ≤ item.version

instance : DecidablePred Nonneg
  | .init d => inferInstanceAs (Decidable (∀ e ∈ d.data.entries, 0 ≤ e.2.2.version))
  | .apply b => inferInstanceAs (Decidable (∀ e ∈ b.data.entries, 0 ≤ e.2.2.version))
  | .upsert _ _ item => inferInstanceAs (Decidable (0 ≤ item.version))

/-- The items that a request without negative versions offers have none. -/
theorem Nonneg.offers {r : Request} (h : r.Nonneg) : ∀ e ∈ r.offers, 0 ≤ e.2.2.version := by
  cases r with
  | init d => nofun
  | apply b =>
    intro e he
    simp only [Request.offers] at he
    split at he
    · exact h e he
    · cases he
  | upsert kind key item =>
    intro e he
    obtain rfl := List.mem_singleton.mp he
    exact h

end Request

/-- Requests that a store was given, in order. -/
abbrev History := List Request

namespace History

/-- The item that a key was given when its kind was last replaced. Of two entries for one key the later counts. -/
def base? (past : History) (kind : Kind) (key : String) : Option Item :=
  (past.filterMap (Request.replaces? kind)).getLast?.bind fun es => es.reverse.lookup key

/-- The requests since a kind was last replaced; all of them if it never was. -/
def since (past : History) (kind : Kind) : History := past.rtakeWhile fun r => (r.replaces? kind).isNone

/-- The items that were offered to a key since its kind was last replaced, in order. -/
def offersSince (past : History) (kind : Kind) (key : String) : List Item :=
  (past.since kind).flatMap fun r => Offers.under r.offers kind key

/-- The selector that the last request left that left one. -/
def selector (past : History) : Selector := (past.filterMap Request.selector?).getLast?.getD .empty

variable (past : History) (r : Request) {kind : Kind} (key : String)

/-- A further request that replaces a kind decides what is there under its keys at first. -/
theorem base?_concat : base? (past ++ [r]) kind key = match r.replaces? kind with
    | some es => es.reverse.lookup key
    | none => past.base? kind key := by
  unfold base?
  cases hr : r.replaces? kind <;> simp [hr]

/-- With such a request the offers under a key begin anew; otherwise it adds its own. -/
theorem offersSince_concat : offersSince (past ++ [r]) kind key = match r.replaces? kind with
    | some _ => []
    | none => past.offersSince kind key ++ Offers.under r.offers kind key := by
  unfold offersSince since
  rw [List.rtakeWhile_concat]
  cases hr : r.replaces? kind <;> simp

/-- The last request with a selector decides. -/
theorem selector_concat : selector (past ++ [r]) = r.selector?.getD past.selector := by
  unfold selector
  cases hr : r.selector? <;> simp [hr]

end History

namespace Memory

/-- What a request leaves. -/
def take (m : Memory) : Request → Memory
  | .init d => init d.data
  | .apply b => m.apply b
  | .upsert kind key item => (m.upsert kind key item).2

/-- What requests leave one after the other. -/
def takeAll (m : Memory) (past : History) : Memory := past.foldl take m

/-- The request is made of a store in memory as of any other, and never fails. -/
theorem write_run (r : Request) (site : Site Memory) :
    ((Access.write r).run : StoreM (Site Memory) Unit).run site = (.ok (), site.mapStore (·.take r)) := by
  cases r <;> rfl

theorem takeAll_concat (m : Memory) (past : History) (r : Request) : m.takeAll (past ++ [r]) = (m.takeAll past).take r := by
  simp [takeAll]

/-! ## One request -/

/-- A single write that is not of a negative version offers its item. -/
theorem find?_upsert_eq (m : Memory) (kind : Kind) (key : String) {item : Item} (h : 0 ≤ item.version) :
    (m.upsert kind key item).2.find? = View.offered m.find? kind key item := by
  cases hn : (m.upsert kind key item).1 with
  | true => exact find?_upsert_eq_offered m kind key h hn
  | false =>
    have hsame : (m.upsert kind key item).2.find? = m.find? := by
      funext kind' key'
      simp [find?_upsert, hn]
    obtain ⟨old, hold, hle⟩ : ∃ old, m.find? kind key = some old ∧ item.version ≤ old.version := by
      by_contra hnone
      have hnew := (upsert_fst_iff m kind key item).mpr fun old hold => by
        by_contra hlt
        exact hnone ⟨old, hold, Int.not_lt.mp hlt⟩
      rw [hn] at hnew
      cases hnew
    rw [hsame, View.offered_of_le]
    simpa [View.versionAt, hold] using hle

/-- A request that replaces a kind gives each key its entry and keeps nothing. -/
theorem find?_take_of_some {r : Request} {kind : Kind} {es : List (String × Item)} (h : r.replaces? kind = some es)
    (m : Memory) (key : String) : (m.take r).find? kind key = es.reverse.lookup key := by
  cases r with
  | init d =>
    obtain rfl := Option.some.inj h
    change viewOf (replace (.const none) d.data) kind key = _
    rw [viewOf_replace]
    cases hl : d.data.reverse.lookup kind with
    | some es => rfl
    | none => exact find?_empty kind key
  | apply b =>
    simp only [Request.replaces?] at h
    split at h
    · next hf =>
      change viewOf (m.apply b).tables kind key = _
      simp only [apply, hf, viewOf_replace, h]
    · cases h
  | upsert kind' key' item => cases h

/-- A request that does not replace a kind offers its items to the keys of the kind. -/
theorem find?_take_of_none {r : Request} {kind : Kind} (h : r.replaces? kind = none) (hr : r.Nonneg) (m : Memory)
    (key : String) :
    (m.take r).find? kind key = Slot.offerAll (m.find? kind key) (Offers.under r.offers kind key) := by
  cases r with
  | init d => cases h
  | apply b =>
    cases he : b.extent with
    | full =>
      simp only [Request.replaces?, he, if_true] at h
      change viewOf (m.apply b).tables kind key = _
      simp only [apply, he, viewOf_replace, h, Request.offers]
      rfl
    | incremental =>
      have hoffers : (Request.apply b).offers = b.data.entries := if_pos he
      rw [take, find?_apply_incremental m he, View.offeredAll_apply, hoffers]
    | none =>
      have hoffers : (Request.apply b).offers = [] := if_neg (by rw [he]; decide)
      rw [take, find?_apply_none m he, hoffers]
      rfl
  | upsert kind' key' item =>
    rw [take, find?_upsert_eq m kind' key' hr]
    exact View.offeredAll_apply m.find? [(kind', key', item)] kind key

/-- A memory that takes a request has the request's selector, if it has one. -/
theorem selector_take (m : Memory) (r : Request) : (m.take r).selector = r.selector?.getD m.selector := by
  cases r with
  | init d => rfl
  | apply b =>
    cases he : b.extent with
    | none => cases hs : b.selector.isEmpty <;> simp [take, apply, Request.selector?, he, hs]
    | _ => simp [take, apply, Request.selector?, he]
  | upsert kind key item =>
    simp only [take, upsert, Request.selector?]
    split <;> rfl

/-- A memory is initialized once a request fills it, and stays so. -/
theorem initialized_take (m : Memory) (r : Request) : (m.take r).initialized = true ↔ r.Fills ∨ m.initialized = true := by
  cases r with
  | init d => simp [take, init, Request.Fills]
  | apply b =>
    cases he : b.extent with
    | none => cases hs : b.selector.isEmpty <;> simp [take, apply, Request.Fills, he, hs]
    | _ => simp [take, apply, Request.Fills, he]
  | upsert kind key item =>
    simp only [take, upsert, Request.Fills, false_or]
    split <;> rfl

/-! ## Whole histories -/

variable {past : History}

/-- Under a key is what its offers since the last replacement make of the item that was there then. -/
theorem find?_takeAll (h : ∀ r ∈ past, r.Nonneg) (kind : Kind) (key : String) :
    (empty.takeAll past).find? kind key = Slot.offerAll (past.base? kind key) (past.offersSince kind key) := by
  induction past using List.reverseRecOn with
  | nil => exact find?_empty kind key
  | append_singleton past r ih =>
    have hr : r.Nonneg := h r (by simp)
    have ih := ih fun r hr => h r (by simp [hr])
    rw [takeAll_concat, History.base?_concat, History.offersSince_concat]
    cases hk : r.replaces? kind with
    | some es => exact find?_take_of_some hk _ key
    | none =>
      rw [find?_take_of_none hk hr, ih]
      simp [Slot.offerAll]

theorem nonneg_offersSince (h : ∀ r ∈ past, r.Nonneg) (kind : Kind) (key : String) :
    ∀ i ∈ past.offersSince kind key, 0 ≤ i.version := by
  intro i hi
  obtain ⟨r, hr, hi⟩ := List.mem_flatMap.mp hi
  have hpast : r ∈ past := (List.rtakeWhile_suffix _ past).subset hr
  exact (h r hpast).offers _ (Offers.mem_under.mp hi)

/-- While a kind is not replaced, an item that is held gives way only to newer ones. -/
theorem find?_takeAll_of_some {after : History} (h : ∀ r ∈ after, r.Nonneg) {kind : Kind}
    (hk : ∀ r ∈ after, r.replaces? kind = none) {m : Memory} {key : String} {old : Item}
    (hold : m.find? kind key = some old) :
    ∃ new, (m.takeAll after).find? kind key = some new ∧ (new = old ∨ old.version < new.version) := by
  induction after generalizing m old with
  | nil => exact ⟨old, hold, .inl rfl⟩
  | cons r after ih =>
    have hstep := find?_take_of_none (hk r List.mem_cons_self) (h r List.mem_cons_self) m key
    rw [hold] at hstep
    obtain ⟨next, hnext, hnewer⟩ :
        ∃ next, (m.take r).find? kind key = some next ∧ (next = old ∨ old.version < next.version) := by
      rcases Slot.offerAll_cases (some old) (Offers.under r.offers kind key) with hs | ⟨i, -, hs, hlt⟩
      · exact ⟨old, hstep.trans hs, .inl rfl⟩
      · exact ⟨i, hstep.trans hs, .inr hlt⟩
    have hrest : ∀ r ∈ after, r.Nonneg := fun r hr => h r (List.mem_cons_of_mem _ hr)
    obtain ⟨new, hnew, hlast⟩ := ih hrest (fun r hr => hk r (List.mem_cons_of_mem _ hr)) hnext
    refine ⟨new, hnew, ?_⟩
    rcases hnewer with rfl | hlt
    · exact hlast
    · rcases hlast with rfl | hlt'
      · exact .inr hlt
      · exact .inr (Int.lt_trans hlt hlt')

/-- A memory has the selector of its past. -/
theorem selector_takeAll (past : History) : (empty.takeAll past).selector = past.selector := by
  induction past using List.reverseRecOn with
  | nil => rfl
  | append_singleton past r ih => rw [takeAll_concat, selector_take, ih, History.selector_concat]

/-- A memory is initialized exactly if a request of its past fills it. -/
theorem initialized_takeAll (past : History) : (empty.takeAll past).initialized = true ↔ ∃ r ∈ past, r.Fills := by
  induction past using List.reverseRecOn with
  | nil => simp [takeAll, empty]
  | append_singleton past r ih =>
    rw [takeAll_concat, initialized_take, ih]
    simp only [List.mem_append, List.mem_singleton, or_and_right, exists_or, exists_eq_left]
    exact or_comm

/-- **What a new memory holds after any history** whose items have no negative versions, in four parts.
1. Under each key the highest version is held, and the first of equals, of the item that the key was given when its kind
   was last replaced and of the items that were offered to it since. A key that was given and offered nothing holds
   nothing.
2. While a kind is not replaced, an item held under one of its keys, be it a tombstone or not, is kept or gives way to
   one of a higher version.
3. The selector is the last that was left: the empty one by an `init`, the batch's own by a batch unless it is an empty
   one that comes without changes.
4. The memory is initialized exactly if some request replaced all data. -/
theorem held_of_history (h : ∀ r ∈ past, r.Nonneg) :
    (∀ kind key, (empty.takeAll past).find? kind key =
      ((past.base? kind key).toList ++ past.offersSince kind key).argmax Item.version) ∧
    (∀ before after kind key old, past = before ++ after → (∀ r ∈ after, r.replaces? kind = none) →
      (empty.takeAll before).find? kind key = some old →
      ∃ new, (empty.takeAll past).find? kind key = some new ∧ (new = old ∨ old.version < new.version)) ∧
    (empty.takeAll past).selector = past.selector ∧
    ((empty.takeAll past).initialized = true ↔ ∃ r ∈ past, r.Fills) := by
  refine ⟨?_, ?_, selector_takeAll past, initialized_takeAll past⟩
  · intro kind key
    rw [find?_takeAll h, Slot.offerAll_eq_argmax (nonneg_offersSince h kind key)]
  · rintro before after kind key old rfl hk hold
    have hsplit : empty.takeAll (before ++ after) = (empty.takeAll before).takeAll after := List.foldl_append
    rw [hsplit]
    exact find?_takeAll_of_some (fun r hr => h r (List.mem_append_right _ hr)) hk hold

/-- All data is written, the same flag twice at one version, an old tombstone of it, and then all segments. -/
def mixedHistory : History :=
  [.init ⟨[(.features, [("a", ⟨3, some .null⟩)])], true⟩,
    .apply ⟨.incremental, .point 1 "s",
      [(.features, [("a", ⟨5, some (.bool true)⟩), ("a", ⟨5, some (.bool false)⟩)])], none, true⟩,
    .upsert .features "a" (.tombstone 4),
    .apply ⟨.full, .point 2 "t", [(.segments, [])], none, true⟩]

/-- The first item of the highest version is held, with the last selector. -/
theorem held_of_mixedHistory :
    (empty.takeAll mixedHistory).find? .features "a" = some ⟨5, some (.bool true)⟩ ∧
      (empty.takeAll mixedHistory).selector = .point 2 "t" := by
  have hnonneg : ∀ r ∈ mixedHistory, r.Nonneg := by decide
  obtain ⟨hheld, -, hselector, -⟩ := held_of_history hnonneg
  exact ⟨(hheld .features "a").trans rfl, hselector⟩

end Memory

end FlagDelivery
