import FlagDelivery.Proofs.Store.Slots

/-!
# Deliveries that arrive in any order

Incremental batches come late, twice, in another order or split up otherwise. What a memory holds after them depends on
nothing but the items that they bring, as long as no two of these differ at one version of one key:
`Memory.deliveries_converge`.
-/

namespace FlagDelivery

namespace Offers

/-- The items of batches, in order. -/
def ofBatches (bs : List Batch) : Offers := bs.flatMap fun b => b.data.entries

/-- No two items for one key differ at one version. -/
def Consistent (es : Offers) : Prop :=
  ∀ kind key i j, (kind, key, i) ∈ es → (kind, key, j) ∈ es → i.version = j.version → i = j

/-- Of consistent offers those under a key are consistent. -/
theorem Consistent.under {es : Offers} (h : es.Consistent) (kind : Kind) (key : String) :
    ∀ i ∈ es.under kind key, ∀ j ∈ es.under kind key, i.version = j.version → i = j :=
  fun i hi j hj => h kind key i j (mem_under.mp hi) (mem_under.mp hj)

theorem ofBatches_append (bs cs : List Batch) : ofBatches (bs ++ cs) = ofBatches bs ++ ofBatches cs := List.flatMap_append

end Offers

namespace Memory

/-- Incremental batches offer their items one after the other, however they are grouped. -/
theorem find?_applyAll {bs : List Batch} (h : ∀ b ∈ bs, b.extent = .incremental) (m : Memory) :
    (m.applyAll bs).find? = View.offeredAll m.find? (Offers.ofBatches bs) := by
  induction bs generalizing m with
  | nil => rfl
  | cons b bs ih =>
    have hstep : (m.apply b).find? = View.offeredAll m.find? b.data.entries :=
      find?_apply_incremental m (h b List.mem_cons_self)
    have hrest := ih (fun b hb => h b (List.mem_cons_of_mem _ hb)) (m.apply b)
    change ((m.apply b).applyAll bs).find? = _
    rw [hrest, hstep]
    simp [View.offeredAll, Offers.ofBatches, List.foldl_append]

/-- Items that were all offered before change nothing when they are offered again. -/
theorem offeredAll_again {es again : Offers} (h : again ⊆ es) (v : View) :
    (v.offeredAll es).offeredAll again = v.offeredAll es := by
  funext kind key
  rw [View.offeredAll_apply, View.offeredAll_apply]
  refine Slot.offerAll_of_le fun i hi => ?_
  exact Slot.le_version_offerAll (Offers.mem_under.mpr (h (Offers.mem_under.mp hi))) _

/-- **Deliveries converge**, whatever a memory held before, in two parts.
1. Incremental batches that bring the same items leave the same under every key, in whatever order, however grouped and
   however often they bring each, if no two of the items for one key differ at one version.
2. Incremental batches that are delivered again change nothing. -/
theorem deliveries_converge (m : Memory) {bs : List Batch} (hbs : ∀ b ∈ bs, b.extent = .incremental) :
    (∀ cs : List Batch, (∀ b ∈ cs, b.extent = .incremental) → (∀ e, e ∈ Offers.ofBatches bs ↔ e ∈ Offers.ofBatches cs) →
      (Offers.ofBatches bs).Consistent → ∀ kind key, (m.applyAll bs).find? kind key = (m.applyAll cs).find? kind key) ∧
    ∀ again ⊆ bs, ∀ kind key, (m.applyAll (bs ++ again)).find? kind key = (m.applyAll bs).find? kind key := by
  constructor
  · intro cs hcs hsame hone kind key
    rw [find?_applyAll hbs, find?_applyAll hcs, View.offeredAll_apply, View.offeredAll_apply]
    refine Slot.offerAll_congr (fun i => ?_) (hone.under kind key) _
    rw [Offers.mem_under, Offers.mem_under]
    exact hsame _
  · intro again hagain kind key
    have hextent : ∀ b ∈ bs ++ again, b.extent = .incremental := by
      intro b hb
      rcases List.mem_append.mp hb with hb | hb
      · exact hbs b hb
      · exact hbs b (hagain hb)
    have hitems : Offers.ofBatches again ⊆ Offers.ofBatches bs := by
      intro e he
      obtain ⟨b, hb, he⟩ := List.mem_flatMap.mp he
      exact List.mem_flatMap.mpr ⟨b, hagain hb, he⟩
    have hsplit : View.offeredAll m.find? (Offers.ofBatches (bs ++ again)) =
        (View.offeredAll m.find? (Offers.ofBatches bs)).offeredAll (Offers.ofBatches again) := by
      rw [Offers.ofBatches_append, View.offeredAll, List.foldl_append]
      rfl
    rw [find?_applyAll hextent, find?_applyAll hbs, hsplit, offeredAll_again hitems]

/-- An incremental batch of flags. -/
def flagBatch (es : List (String × Item)) : Batch := ⟨.incremental, .point 1 "s", [(.features, es)], none, true⟩

/-- A flag and its deletion, each in a batch of its own. -/
def putThenDelete : List Batch := [flagBatch [("a", ⟨1, some .null⟩)], flagBatch [("a", .tombstone 2)]]

/-- The same flag and the same deletion in one batch, the deletion first and again at the end. -/
def deleteAroundPut : List Batch := [flagBatch [("a", .tombstone 2), ("a", ⟨1, some .null⟩), ("a", .tombstone 2)]]

/-- Either way the flag stays deleted, also when it is put again. -/
theorem deliveries_converge_tombstone :
    (empty.applyAll putThenDelete).find? .features "a" = (empty.applyAll deleteAroundPut).find? .features "a" ∧
      (empty.applyAll (putThenDelete ++ putThenDelete.take 1)).find? .features "a" = some (.tombstone 2) := by
  have hmem (e : Kind × String × Item) :
      e ∈ Offers.ofBatches putThenDelete ↔ e = (.features, "a", ⟨1, some .null⟩) ∨ e = (.features, "a", .tombstone 2) := by
    simp [Offers.ofBatches, putThenDelete, flagBatch, Groups.entries]
  have hmem' (e : Kind × String × Item) :
      e ∈ Offers.ofBatches deleteAroundPut ↔ e = (.features, "a", ⟨1, some .null⟩) ∨ e = (.features, "a", .tombstone 2) := by
    have hitems : Offers.ofBatches deleteAroundPut =
        [(.features, "a", .tombstone 2), (.features, "a", ⟨1, some .null⟩), (.features, "a", .tombstone 2)] := rfl
    simp only [hitems, List.mem_cons, List.not_mem_nil, or_false]
    tauto
  have hone : (Offers.ofBatches putThenDelete).Consistent := by
    intro kind key i j hi hj hv
    have hitem {e : Kind × String × Item} (he : e ∈ Offers.ofBatches putThenDelete) :
        e.2.2 = ⟨1, some .null⟩ ∨ e.2.2 = .tombstone 2 := by
      rcases (hmem e).mp he with rfl | rfl
      · exact .inl rfl
      · exact .inr rfl
    obtain rfl | rfl := hitem hi
    · obtain rfl | rfl := hitem hj
      · rfl
      · cases hv
    · obtain rfl | rfl := hitem hj
      · cases hv
      · rfl
  have hextent : ∀ b ∈ putThenDelete, b.extent = .incremental := by decide
  obtain ⟨hconverge, hagain⟩ := deliveries_converge empty hextent
  exact ⟨hconverge deleteAroundPut (by decide) (fun e => (hmem e).trans (hmem' e).symm) hone .features "a",
    (hagain _ (List.take_subset _ _) .features "a").trans rfl⟩

end Memory

end FlagDelivery
