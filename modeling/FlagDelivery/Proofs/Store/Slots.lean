import FlagDelivery.Proofs.Store.Memory
import Mathlib.Data.List.MinMax
import Mathlib.Order.ConditionallyCompleteLattice.Basic
import Mathlib.Data.Int.ConditionallyCompleteOrder

/-!
# What is held under one key

A `Slot` is what a store holds under one key. Items that are offered to a view come to the slot of their key,
`Offers.under`, and to no other, so what they leave there is a fold over that one slot: `View.offeredAll_apply`. What
the fold leaves is told in two ways. It is the highest of the versions, the first of equals, if none is negative:
`Slot.offerAll_eq_argmax`. And whatever the versions are, the items leave the same in any order and however often they
come: `Slot.offerAll_congr`.
-/

namespace FlagDelivery

/-- Items that are offered, each with the kind and the key that it goes to. -/
abbrev Offers := List (Kind × String × Item)

namespace Offers

/-- The items that go to one key, in order. -/
def under (es : Offers) (kind : Kind) (key : String) : List Item :=
  es.filterMap fun (kind', key', item) => if kind' = kind ∧ key' = key then some item else none

theorem under_cons (kind : Kind) (key : String) (item : Item) (es : Offers) (kind' : Kind) (key' : String) :
    under ((kind, key, item) :: es) kind' key' =
      if kind = kind' ∧ key = key' then item :: under es kind' key' else under es kind' key' := by
  unfold under
  rw [List.filterMap_cons]
  by_cases h : kind = kind' ∧ key = key'
  · simp only [if_pos h]
  · simp only [if_neg h]

/-- The offers under a key are those that bear it. -/
theorem mem_under {es : Offers} {kind : Kind} {key : String} {item : Item} :
    item ∈ es.under kind key ↔ (kind, key, item) ∈ es := by
  unfold under
  rw [List.mem_filterMap]
  constructor
  · rintro ⟨⟨kind', key', item'⟩, hmem, h⟩
    simp only [Option.ite_none_right_eq_some, Option.some.injEq] at h
    obtain ⟨⟨rfl, rfl⟩, rfl⟩ := h
    exact hmem
  · intro hmem
    exact ⟨_, hmem, by simp⟩

end Offers

/-- What is held under one key. -/
abbrev Slot := Option Item

namespace Slot

variable {s : Slot} {is js : List Item}

/-- The version held; a missing item counts as `-1`. -/
def version (s : Slot) : Int := (s.map Item.version).getD (-1)

/-- An item is taken if it is newer than what is held. -/
def offer (s : Slot) (i : Item) : Slot := if s.version < i.version then some i else s

/-- Items are offered one after the other. -/
def offerAll (s : Slot) (is : List Item) : Slot := is.foldl offer s

theorem offerAll_cons (s : Slot) (i : Item) (is : List Item) : s.offerAll (i :: is) = (s.offer i).offerAll is := rfl

/-- An offer leaves the item or what was held, whichever is newer. -/
theorem version_offer (s : Slot) (i : Item) : (s.offer i).version = max s.version i.version := by
  unfold offer
  split
  · next h => exact (max_eq_right (Int.le_of_lt h)).symm
  · next h => exact (max_eq_left (Int.not_lt.mp h)).symm

/-- Offers do not lower the version. -/
theorem version_le_offerAll (s : Slot) (is : List Item) : s.version ≤ (s.offerAll is).version := by
  induction is generalizing s with
  | nil => exact Int.le_refl _
  | cons i is ih =>
    calc s.version ≤ (s.offer i).version := by rw [version_offer]; exact le_max_left _ _
      _ ≤ ((s.offer i).offerAll is).version := ih _

/-- No item that was offered is newer than what is held. -/
theorem le_version_offerAll {i : Item} (h : i ∈ is) (s : Slot) : i.version ≤ (s.offerAll is).version := by
  induction is generalizing s with
  | nil => cases h
  | cons first is ih =>
    rcases List.mem_cons.mp h with rfl | h
    · calc i.version ≤ (s.offer i).version := by rw [version_offer]; exact le_max_right _ _
        _ ≤ ((s.offer i).offerAll is).version := version_le_offerAll _ _
    · exact ih h _

/-- What is held after some offers is what was held before, or a newer item that was offered. -/
theorem offerAll_cases (s : Slot) (is : List Item) :
    s.offerAll is = s ∨ ∃ i ∈ is, s.offerAll is = some i ∧ s.version < i.version := by
  induction is generalizing s with
  | nil => exact .inl rfl
  | cons first is ih =>
    rw [offerAll_cons]
    by_cases hlt : s.version < first.version
    · have htaken : s.offer first = some first := if_pos hlt
      refine .inr ?_
      rcases ih (s.offer first) with h | ⟨i, hi, h, hnewer⟩
      · exact ⟨first, List.mem_cons_self, h.trans htaken, hlt⟩
      · rw [htaken] at hnewer
        exact ⟨i, List.mem_cons_of_mem _ hi, h, Int.lt_trans hlt hnewer⟩
    · have hkept : s.offer first = s := if_neg hlt
      rw [hkept]
      exact (ih s).imp_right fun ⟨i, hi, h⟩ => ⟨i, List.mem_cons_of_mem _ hi, h⟩

/-- Offers of nothing newer change nothing. -/
theorem offerAll_of_le (h : ∀ i ∈ is, i.version ≤ s.version) : s.offerAll is = s := by
  rcases offerAll_cases s is with hs | ⟨i, hi, -, hlt⟩
  · exact hs
  · exact absurd (h i hi) (Int.not_le.mpr hlt)

/-- The same items leave the same, in whatever order and however often they are offered, if no two of them differ at one
version. -/
theorem offerAll_congr (h : ∀ i, i ∈ is ↔ i ∈ js) (hone : ∀ i ∈ is, ∀ j ∈ is, i.version = j.version → i = j) (s : Slot) :
    s.offerAll is = s.offerAll js := by
  rcases offerAll_cases s is with his | ⟨i, hi, his, hlt⟩
  · -- Nothing was taken, so none of the items is newer than what was held.
    have hle : ∀ j ∈ js, j.version ≤ s.version := fun j hj => his ▸ le_version_offerAll ((h j).mpr hj) s
    rw [his, offerAll_of_le hle]
  · have hle : i.version ≤ (s.offerAll js).version := le_version_offerAll ((h i).mp hi) s
    rcases offerAll_cases s js with hjs | ⟨j, hj, hjs, -⟩
    · rw [hjs] at hle
      exact absurd hle (Int.not_le.mpr hlt)
    · rw [hjs] at hle
      have hge : j.version ≤ (s.offerAll is).version := le_version_offerAll ((h j).mpr hj) s
      rw [his] at hge
      rw [his, hjs, hone i hi j ((h j).mpr hj) (Int.le_antisymm hle hge)]

/-- Of items without negative versions the highest is left, and the first of equals. -/
theorem offerAll_eq_argmax (hs : ∀ i ∈ is, 0 ≤ i.version) (s : Slot) :
    s.offerAll is = (s.toList ++ is).argmax Item.version := by
  induction is using List.reverseRecOn with
  | nil => cases s <;> simp [offerAll]
  | append_singleton is i ih =>
    have hi : 0 ≤ i.version := hs i (by simp)
    have hstep : s.offerAll (is ++ [i]) = (s.offerAll is).offer i := by simp [offerAll]
    rw [hstep, ih fun j hj => hs j (by simp [hj]), ← List.append_assoc, List.argmax_concat]
    cases (s.toList ++ is).argmax Item.version with
    | none => exact if_pos (Int.lt_of_lt_of_le (by decide) hi)
    | some j => rfl

end Slot

namespace View

/-- An offer acts on the slot under its key. -/
theorem offered_apply (v : View) (kind : Kind) (key : String) (item : Item) (kind' : Kind) (key' : String) :
    v.offered kind key item kind' key' =
      if kind = kind' ∧ key = key' then Slot.offer (v kind' key') item else v kind' key' := by
  unfold offered
  by_cases h : kind = kind' ∧ key = key'
  · obtain ⟨rfl, rfl⟩ := h
    simp only [and_self, true_and, if_true]
    rfl
  · rw [if_neg h, if_neg fun hc => h hc.1]

/-- What is held under a key after some offers is what the items that go there leave. -/
theorem offeredAll_apply (v : View) (es : Offers) (kind : Kind) (key : String) :
    v.offeredAll es kind key = Slot.offerAll (v kind key) (es.under kind key) := by
  induction es generalizing v with
  | nil => rfl
  | cons e es ih =>
    obtain ⟨kind', key', item⟩ := e
    rw [offeredAll_cons, ih, offered_apply, Offers.under_cons]
    by_cases h : kind' = kind ∧ key' = key
    · rw [if_pos h, if_pos h, Slot.offerAll_cons]
    · rw [if_neg h, if_neg h]

end View

end FlagDelivery
