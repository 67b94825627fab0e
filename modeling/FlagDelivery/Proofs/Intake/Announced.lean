import FlagDelivery.Proofs.Intake.Observing
import FlagDelivery.Proofs.Store.Memory

/-!
# What is announced

An intake announces changes for a layered store whose reads come from memory. Batches are applied one after the other,
and between them anything may happen to the store beneath: `Happening`. Over a run of these the items that rose in
version, `Intake.Risen`, were announced, but for those that a batch raised which the store did not accept:
`Intake.risen_announced`.
-/

namespace FlagDelivery

namespace Batch

/-- An item of a batch that is newer than what is held is among the changes. -/
theorem mem_changes {b : Batch} {v : Versions} {m : Memory} (hv : v.Of m) {kind : Kind} {key : String} {item : Item}
    (h : (kind, key, item) ∈ b.data.entries) (hnew : ∀ old, m.find? kind key = some old → old.version < item.version) :
    ⟨kind, key⟩ ∈ b.changes v := by
  refine List.mem_append_left _ (List.mem_map.mpr ⟨_, List.mem_filter.mpr ⟨h, ?_⟩, rfl⟩)
  simp only
  cases hf : v.find? kind key with
  | none => rfl
  | some n =>
    obtain ⟨old, hold, rfl⟩ := Option.map_eq_some_iff.mp (hv kind key n hf)
    simpa using hnew old hold

end Batch

namespace Intake

/-! ## What the store shows -/

section

variable {σ : Type} [DataStore σ]

/-- The store gives back an item under a key. -/
def Shows (i : Intake σ) (kind : Kind) (key : String) (item : Item) : Prop :=
  ((DataStore.find? kind key : StoreM (Site σ) (Option Item)).run i.site).1 = .ok (some item)

/-- From one moment to another an item is newly there or of a higher version. -/
def Risen (i j : Intake σ) (kind : Kind) (key : String) : Prop :=
  ∃ item, j.Shows kind key item ∧ ∀ old, i.Shows kind key old → old.version < item.version

variable {i j k : Intake σ} {kind : Kind} {key : String}

/-- What rose over two stretches rose over one of them. -/
theorem Risen.split (h : Risen i k kind key) (j : Intake σ) : Risen i j kind key ∨ Risen j k kind key := by
  obtain ⟨item, hitem, hnew⟩ := h
  by_cases hj : ∀ old, j.Shows kind key old → old.version < item.version
  · exact .inr ⟨item, hitem, hj⟩
  · obtain ⟨old, hold⟩ := Classical.not_forall.mp hj
    obtain ⟨hold, hle⟩ := Classical.not_imp.mp hold
    refine .inl ⟨old, hold, ?_⟩
    intro older holder
    have hlt := hnew older holder
    omega

end

/-! ## Batches and what else happens -/

variable {μ : Type} [DataStore μ] {i : Intake (Layered μ)} {kind : Kind} {key : String} {item : Item}

/-- Once reads come from memory, an intake shows what memory holds. -/
theorem shows_iff (h : i.site.store.source = none) :
    i.Shows kind key item ↔ i.site.store.memory.find? kind key = some item := by
  rw [Shows, Layered.find?_of_none h]
  exact ⟨fun h => Except.ok.inj h, fun h => congrArg Except.ok h⟩

/-- What an intake does with a batch while reads come from memory: the store is given the batch, and the changes to the
versions held are announced if it accepts. -/
theorem apply_of_source_none (hi : i.announcing = .heard) (hs : i.site.store.source = none) (b : Batch) :
    ∃ v : Versions, v.Of i.site.store.memory ∧
      (apply b i).2.announcing = .heard ∧
      (apply b i).2.site = ((DataStore.apply b : StoreM (Site (Layered μ)) Unit).run i.site).2 ∧
      (apply b i).2.announced = i.announced ++ if (apply b i).1 then b.changes v else [] := by
  obtain ⟨v, hv, hnoted⟩ := versionsBefore_run (Layered.readsFrom hs) b
  refine ⟨v, hnoted.of, ?_⟩
  rw [apply_of_versions (by rw [hi]; nofun) hv]
  rcases hr : (DataStore.apply b : StoreM (Site (Layered μ)) Unit).run i.site with ⟨e | u, site⟩
  · have hh : hand b i = (.error e, { i with handed := i.handed ++ [b], site }) := by simp [hand, onSite, hr]
    simp [accept, hh, reportFailure, hi]
  · have hh : hand b i = (.ok (), { i with handed := i.handed ++ [b], site }) := by simp [hand, onSite, hr]
    simp [accept, hh, hi, announced_announce]

/-- Something that happens to a receiver's store: a batch is applied, or something befalls the store beneath, such as a
check of its health, an outage or the end of one. -/
inductive Happening (μ : Type) where
  | apply (b : Batch)
  | beneath (f : Site μ → Site μ)

/-- What happens to an intake. -/
def meet (i : Intake (Layered μ)) : Happening μ → Intake (Layered μ)
  | .apply b => (apply b i).2
  | .beneath f => match i.site.store.beneath with
    | some a => { i with site := (Layered.onBeneath a (modify f) i.site).2 }
    | none => i

/-- What happens to an intake one after the other. -/
def meets (i : Intake (Layered μ)) (hs : List (Happening μ)) : Intake (Layered μ) := hs.foldl meet i

/-- Reads stay with memory, and someone listens on. -/
theorem heard_meet (hi : i.announcing = .heard) (hs : i.site.store.source = none) (h : Happening μ) :
    (i.meet h).announcing = .heard ∧ (i.meet h).site.store.source = none := by
  cases h with
  | apply b =>
    obtain ⟨v, -, ha, hsite, -⟩ := apply_of_source_none hi hs b
    exact ⟨ha, hsite ▸ Layered.source_apply hs b⟩
  | beneath f =>
    cases hb : i.site.store.beneath with
    | none =>
      have hsame : i.meet (.beneath f) = i := by rw [meet, hb]
      exact hsame.symm ▸ ⟨hi, hs⟩
    | some a =>
      have hmet : i.meet (.beneath f) = { i with site := (Layered.onBeneath a (modify f) i.site).2 } := by rw [meet, hb]
      exact hmet.symm ▸ ⟨hi, Layered.source_onBeneath hs hb (modify f)⟩

/-- Where memory stays as it is nothing rises. -/
theorem not_risen {j : Intake (Layered μ)} (hi : i.site.store.source = none) (hj : j.site.store.source = none)
    (h : j.site.store.memory = i.site.store.memory) (kind : Kind) (key : String) : ¬Risen i j kind key := by
  rintro ⟨item, hitem, hnew⟩
  rw [shows_iff hj, h, ← shows_iff hi] at hitem
  exact Int.lt_irrefl _ (hnew item hitem)

/-- An item that a batch raised was announced if the batch was accepted. -/
theorem announced_apply (hi : i.announcing = .heard) (hs : i.site.store.source = none) (b : Batch) :
    ∃ sent, (apply b i).2.announced = i.announced ++ sent ∧
      ∀ kind key, Risen i (apply b i).2 kind key → (apply b i).1 = true → ⟨kind, key⟩ ∈ sent := by
  obtain ⟨v, hv, -, hsite, hsent⟩ := apply_of_source_none hi hs b
  refine ⟨_, hsent, ?_⟩
  rintro kind key ⟨item, hitem, hnew⟩ ht
  rw [if_pos ht]
  have hs' : (apply b i).2.site.store.source = none := hsite ▸ Layered.source_apply hs b
  have hmemory : (apply b i).2.site.store.memory = i.site.store.memory.apply b := by rw [hsite, Layered.memory_apply]
  rw [shows_iff hs', hmemory] at hitem
  rcases Memory.mem_of_find?_apply hitem with hmem | hheld
  · exact Batch.mem_changes hv hmem fun old hold => hnew old ((shows_iff hs).mpr hold)
  · exact absurd (hnew item ((shows_iff hs).mpr hheld)) (Int.lt_irrefl _)

/-- What one happening raised was announced, unless it is a batch that was not accepted. -/
theorem announced_meet (hi : i.announcing = .heard) (hs : i.site.store.source = none) (h : Happening μ) :
    ∃ sent, (i.meet h).announced = i.announced ++ sent ∧
      ∀ kind key, Risen i (i.meet h) kind key → ⟨kind, key⟩ ∈ sent ∨ ∃ b, h = .apply b ∧ (apply b i).1 = false := by
  cases h with
  | apply b =>
    obtain ⟨sent, hsent, hrisen⟩ := announced_apply hi hs b
    refine ⟨sent, hsent, ?_⟩
    intro kind key hr
    cases ht : (apply b i).1 with
    | true => exact .inl (hrisen kind key hr ht)
    | false => exact .inr ⟨b, rfl, ht⟩
  | beneath f =>
    have hs' := (heard_meet hi hs (.beneath f)).2
    have hmemory : (i.meet (.beneath f)).site.store.memory = i.site.store.memory := by
      simp only [meet]
      split <;> rfl
    refine ⟨[], ?_, fun kind key hr => absurd hr (not_risen hs hs' hmemory kind key)⟩
    simp only [meet, List.append_nil]
    split <;> rfl

/-- Over a run in which reads come from memory every item that is newly there or of a higher version at the end was
announced, unless a batch raised it that the store beneath did not accept. -/
theorem risen_announced (hi : i.announcing = .heard) (hs : i.site.store.source = none) (past : List (Happening μ)) :
    ∃ sent, (i.meets past).announced = i.announced ++ sent ∧
      ∀ kind key, Risen i (i.meets past) kind key → ⟨kind, key⟩ ∈ sent ∨
        ∃ before b after, past = before ++ .apply b :: after ∧ (apply b (i.meets before)).1 = false ∧
          Risen (i.meets before) (apply b (i.meets before)).2 kind key := by
  induction past generalizing i with
  | nil => exact ⟨[], (List.append_nil _).symm, fun kind key hr => absurd hr (not_risen hs hs rfl kind key)⟩
  | cons h rest ih =>
    obtain ⟨hi', hsource⟩ := heard_meet hi hs h
    obtain ⟨first, hfirst, hmet⟩ := announced_meet hi hs h
    obtain ⟨later, hlater, hrest⟩ := ih hi' hsource
    refine ⟨first ++ later, ?_, ?_⟩
    · rw [← List.append_assoc, ← hfirst]
      exact hlater
    · intro kind key hr
      rcases Risen.split hr (i.meet h) with hr | hr
      · rcases hmet kind key hr with hsent | ⟨b, rfl, hb⟩
        · exact .inl (List.mem_append_left _ hsent)
        · exact .inr ⟨[], b, rest, rfl, hb, hr⟩
      · rcases hrest kind key hr with hsent | ⟨before, b, after, rfl, hb, hraised⟩
        · exact .inl (List.mem_append_right _ hsent)
        · exact .inr ⟨h :: before, b, after, rfl, hb, hraised⟩

/-! ### A change that an outage hides -/

/-- All data: there is none. -/
def noData : Batch := ⟨.full, .point 1 "state", [(.features, []), (.segments, [])], none, true⟩

/-- An intake that announces, for a store that has read all data and answers from memory. -/
def filled : Intake Backed := (apply noData (heardOver .default .empty)).2

/-- The backend is connected or cut off. -/
def reach (reachable : Bool) : Happening Remote :=
  .beneath (Site.mapStore fun a => { a with shared := { a.shared with backend := a.shared.backend.setReachable reachable } })

/-- A change meets an outage and is delivered again after it. -/
def redelivery : List (Happening Remote) := [reach false, .apply oneFlag, reach true, .apply oneFlag]

theorem risen_redelivery : Risen filled (filled.meets redelivery) .features "a" := by
  refine ⟨⟨1, some (.obj [])⟩, rfl, ?_⟩
  rintro old ⟨⟩

/-- The change of the flag was announced, or the batch that brought it was not accepted. -/
theorem risen_announced_redelivery : ∃ before b after, redelivery = before ++ .apply b :: after ∧
    (apply b (filled.meets before)).1 = false := by
  obtain ⟨sent, hsent, hrisen⟩ := risen_announced (i := filled) rfl rfl redelivery
  obtain rfl : sent = [] := List.append_cancel_left (hsent.symm.trans (List.append_nil _).symm)
  rcases hrisen .features "a" risen_redelivery with h | ⟨before, b, after, hsplit, hb, -⟩
  · cases h
  · exact ⟨before, b, after, hsplit, hb⟩

/-- The batch is accepted once the outage is over, and the flag is newly there; its change was never announced. -/
theorem unannounced_after_outage :
    (apply oneFlag (filled.meets [reach false, .apply oneFlag, reach true])).1 = true ∧
      Risen filled (filled.meets redelivery) .features "a" ∧ (filled.meets redelivery).announced = filled.announced :=
  ⟨rfl, risen_redelivery, rfl⟩

end Intake

end FlagDelivery
