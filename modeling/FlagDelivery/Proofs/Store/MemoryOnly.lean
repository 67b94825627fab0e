import FlagDelivery.Intake.Basic
import FlagDelivery.Proofs.Running
import FlagDelivery.Store.Layered

/-!
# Stores that read from memory

A layered store whose reads come from memory answers them from there and never fails, as a memory by itself does:
`Site.ReadsFrom`. The versions that an intake reads before a batch are then those of the items held, `Versions.Noted`. A
layered store with nothing beneath it is its memory: a batch changes the memory and is always accepted, by the store and
by an intake for it.
-/

namespace FlagDelivery

namespace Layered

variable {μ α : Type} {site : Site (Layered μ)}

/-- With nothing beneath it there is no store that reads come from. -/
theorem source_of_none (h : site.store.beneath = none) : site.store.source = none := by simp [source, h]

/-- What is read from is the store beneath. -/
theorem beneath_of_source {s : Layered μ} {a : μ} (h : s.source = some a) : s.beneath = some a := by
  unfold source at h
  split at h
  · cases h
  · exact h

/-- Reads answer from memory and change nothing, unless they come from the store beneath. -/
theorem read_of_none (h : site.store.source = none) (fromMemory : Memory → α) (op : StoreM (Site μ) α) :
    (read fromMemory op).run site = (.ok (fromMemory site.store.memory), site) := by
  simp [read, h]

/-- What happens to the store beneath, if there is one, leaves the memory and where reads come from as they are. -/
theorem source_onBeneath {α : Type} (h : site.store.source = none) {a : μ} (hb : site.store.beneath = some a)
    (op : StateM (Site μ) α) : (onBeneath a op site).2.store.source = none := by
  have hreads : site.store.readsFromMemory = true := by
    unfold source at h
    rw [hb] at h
    split at h
    · next hr => exact hr
    · cases h
  simp [onBeneath, Site.zoom, source, hreads]

/-- The end of a need of a refresh shows on the board alone. -/
theorem store_refreshed (site : Site (Layered μ)) : (refreshed site).2.store = site.store := by
  simp only [refreshed, StoreM.bind_apply, StoreM.get_apply, StoreM.ite_apply]
  split <;> rfl

variable [DataStore μ]

/-- While nothing beneath is read from, an item is looked up in memory. -/
theorem find?_of_none (h : site.store.source = none) (kind : Kind) (key : String) :
    (DataStore.find? kind key : StoreM (Site (Layered μ)) (Option Item)).run site =
      (.ok (site.store.memory.find? kind key), site) :=
  read_of_none h _ _

/-- While nothing beneath is read from, all items of a kind are those in memory. -/
theorem items_of_none (h : site.store.source = none) (kind : Kind) :
    (DataStore.items kind : StoreM (Site (Layered μ)) (List (String × Item))).run site =
      (.ok (site.store.memory.items kind), site) :=
  read_of_none h _ _

/-- The site with a batch applied to memory; a full one turns reads to memory. -/
def appliedToMemory (b : Batch) (site : Site (Layered μ)) : Site (Layered μ) := site.mapStore fun s =>
  { s with memory := s.memory.apply b, readsFromMemory := if b.extent = .full then true else s.readsFromMemory }

/-- A batch is applied to memory, and then to the store beneath if it may be written to. -/
theorem apply_run (b : Batch) (site : Site (Layered μ)) :
    (DataStore.apply b : StoreM (Site (Layered μ)) Unit).run site =
      match (appliedToMemory b site).store.writable b.persist with
      | some a => onBeneath a (DataStore.apply b : StoreM (Site μ) Unit).run (appliedToMemory b site)
      | none => (.ok (), if b.extent = .full then (refreshed (appliedToMemory b site)).2 else appliedToMemory b site) := by
  change (apply b).run site = _
  by_cases hf : b.extent = .full
  · have hsite : appliedToMemory b site = (switchReads (applyMemory b site).2).2 := by
      simp [appliedToMemory, switchReads, applyMemory, hf, Site.mapStore]
    cases hw : (switchReads (applyMemory b site).2).2.store.writable b.persist with
    | some a => simp [apply, hf, hsite, hw]
    | none => simp [apply, hf, hsite, hw]
  · have hsite : appliedToMemory b site = (applyMemory b site).2 := by
      simp [appliedToMemory, applyMemory, hf, Site.mapStore]
    cases hw : (applyMemory b site).2.store.writable b.persist with
    | some a => simp [apply, hf, hsite, hw]
    | none => simp [apply, hf, hsite, hw]

/-- With nothing beneath a batch is applied to memory, and on the board nothing happens. -/
theorem apply_of_none (h : site.store.beneath = none) (b : Batch) :
    (DataStore.apply b : StoreM (Site (Layered μ)) Unit).run site = (.ok (), appliedToMemory b site) := by
  have hb : (appliedToMemory b site).store.beneath = none := h
  have hw : (appliedToMemory b site).store.writable b.persist = none := by simp [writable, hb]
  rw [apply_run, hw]
  simp [refreshed, hb]

/-- A batch is applied to the memory, whether the store accepts it or not. -/
theorem memory_apply (b : Batch) (site : Site (Layered μ)) :
    ((DataStore.apply b : StoreM (Site (Layered μ)) Unit).run site).2.store.memory = site.store.memory.apply b := by
  rw [apply_run]
  cases (appliedToMemory b site).store.writable b.persist with
  | some a => rfl
  | none =>
    simp only
    split
    · rw [store_refreshed]
      rfl
    · rfl

/-- A batch never turns reads away from memory. -/
theorem source_apply (h : site.store.source = none) (b : Batch) :
    ((DataStore.apply b : StoreM (Site (Layered μ)) Unit).run site).2.store.source = none := by
  have hsource : (appliedToMemory b site).store.source = none := by
    unfold source at h ⊢
    simp only [appliedToMemory, Site.mapStore]
    by_cases hr : site.store.readsFromMemory = true
    · simp [hr]
    · rw [if_neg hr] at h
      simp [h]
  rw [apply_run]
  cases hw : (appliedToMemory b site).store.writable b.persist with
  | some a =>
    have hb : (appliedToMemory b site).store.beneath = some a := by
      unfold writable at hw
      split at hw
      · exact hw
      · cases hw
    exact source_onBeneath hsource hb _
  | none =>
    simp only
    split
    · rw [store_refreshed]
      exact hsource
    · exact hsource

end Layered

namespace Memory

/-- The items of a kind are those that are found. -/
theorem mem_items {m : Memory} {kind : Kind} {e : String × Item} : e ∈ m.items kind ↔ m.find? kind e.1 = some e.2 :=
  Std.TreeMap.mem_toList_iff_getElem?_eq_some

end Memory

/-- The store answers reads from a memory, and nothing is changed by them. -/
structure Site.ReadsFrom {σ : Type} [DataStore σ] (site : Site σ) (m : Memory) : Prop where
  find? : ∀ kind key, (DataStore.find? kind key : StoreM (Site σ) (Option Item)).run site = (.ok (m.find? kind key), site)
  items : ∀ kind, (DataStore.items kind : StoreM (Site σ) (List (String × Item))).run site = (.ok (m.items kind), site)

/-- A memory answers reads from itself. -/
theorem Memory.readsFrom (site : Site Memory) : site.ReadsFrom site.store := ⟨fun _ _ => rfl, fun _ => rfl⟩

/-- A layered store answers reads from its memory, while nothing beneath is read from. -/
theorem Layered.readsFrom {μ : Type} [DataStore μ] {site : Site (Layered μ)} (h : site.store.source = none) :
    site.ReadsFrom site.store.memory :=
  ⟨find?_of_none h, items_of_none h⟩

/-- The version held under a key is read before the batch, if changes are announced. -/
def Batch.Consults (b : Batch) (kind : Kind) (key : String) : Prop :=
  match b.extent with
  | .full => ∃ es, (kind, es) ∈ b.data
  | .incremental => ∃ item, (kind, key, item) ∈ b.data.entries
  | .none => False

namespace Versions

/-- A version that is noted is found under its key, and nothing else changes. -/
theorem find?_note (v : Versions) (kind : Kind) (key : String) (version : Int) (kind' : Kind) (key' : String) :
    (v.note kind key version).find? kind' key' = if kind = kind' ∧ key = key' then some version else v.find? kind' key' := by
  by_cases hk : kind = kind'
  · simp [find?, note, hk, Std.TreeMap.getElem?_insert]
  · simp [find?, note, hk]

/-- Every version noted is that of an item held. -/
def Of (v : Versions) (m : Memory) : Prop :=
  ∀ kind key n, v.find? kind key = some n → (m.find? kind key).map Item.version = some n

/-- The versions noted are those of the items held under the keys that were consulted. -/
def Noted (v : Versions) (m : Memory) (consulted : Kind → String → Prop) : Prop :=
  ∀ kind key n, v.find? kind key = some n ↔ consulted kind key ∧ (m.find? kind key).map Item.version = some n

variable {v : Versions} {m : Memory} {p q : Kind → String → Prop} {kind : Kind}

theorem Noted.of (h : v.Noted m p) : v.Of m := fun kind key n hn => ((h kind key n).mp hn).2

theorem noted_none (m : Memory) : Versions.none.Noted m fun _ _ => False := by
  intro kind key n
  simp [find?, none]

/-- Keys under which nothing is held do not matter. -/
theorem Noted.congr (h : v.Noted m p) (hpq : ∀ kind key item, m.find? kind key = some item → (p kind key ↔ q kind key)) :
    v.Noted m q := by
  intro kind key n
  rw [h kind key n]
  refine and_congr_left fun hn => ?_
  obtain ⟨item, hitem, -⟩ := Option.map_eq_some_iff.mp hn
  exact hpq kind key item hitem

/-- Noting the version of an item held adds its key. -/
theorem Noted.note (h : v.Noted m p) {key : String} {item : Item} (hi : m.find? kind key = some item) :
    (v.note kind key item.version).Noted m fun kind' key' => p kind' key' ∨ kind = kind' ∧ key = key' := by
  intro kind' key' n
  rw [find?_note]
  by_cases hk : kind = kind' ∧ key = key'
  · obtain ⟨rfl, rfl⟩ := hk
    simp [hi]
  · rw [if_neg hk, h kind' key' n]
    exact and_congr_left fun _ => (or_iff_left hk).symm

/-- Noting the versions of items held adds their keys. -/
theorem Noted.noteAll (h : v.Noted m p) {es : List (String × Item)} (hes : ∀ e ∈ es, m.find? kind e.1 = some e.2) :
    (es.foldl (fun v (key, item) => v.note kind key item.version) v).Noted m
      fun kind' key' => p kind' key' ∨ kind = kind' ∧ ∃ item, (key', item) ∈ es := by
  induction es generalizing v p with
  | nil => exact h.congr fun kind' key' item _ => by simp
  | cons e es ih =>
    obtain ⟨key, item⟩ := e
    refine (ih (h.note (hes _ List.mem_cons_self)) fun e he => hes e (List.mem_cons_of_mem _ he)).congr ?_
    intro kind' key' held _
    simp only [List.mem_cons, Prod.mk.injEq, exists_or, or_assoc, ← and_or_left]
    refine or_congr_right (and_congr_right fun _ => or_congr_left ?_)
    exact ⟨fun hk => ⟨item, hk.symm, rfl⟩, fun ⟨_, hk, _⟩ => hk.symm⟩

end Versions

namespace Intake

variable {σ μ : Type}

/-- A report does not touch the store. -/
@[simp] theorem site_report (reported : SourceState) (error : Option ErrorReport) (i : Intake σ) :
    (report reported error i).2.site = i.site := by
  simp only [report, StoreM.modify_apply]
  split <;> rfl

@[simp] theorem handed_report (reported : SourceState) (error : Option ErrorReport) (i : Intake σ) :
    (report reported error i).2.handed = i.handed := by
  simp only [report, StoreM.modify_apply]
  split <;> rfl

@[simp] theorem announcing_report (reported : SourceState) (error : Option ErrorReport) (i : Intake σ) :
    (report reported error i).2.announcing = i.announcing := by
  simp only [report, StoreM.modify_apply]
  split <;> rfl

@[simp] theorem announced_report (reported : SourceState) (error : Option ErrorReport) (i : Intake σ) :
    (report reported error i).2.announced = i.announced := by
  simp only [report, StoreM.modify_apply]
  split <;> rfl

/-- Announcements do not touch the store. -/
@[simp] theorem site_announce (cs : List ItemChange) (i : Intake σ) : (announce cs i).2.site = i.site := by
  simp only [announce, StoreM.modify_apply]
  split <;> rfl

@[simp] theorem handed_announce (cs : List ItemChange) (i : Intake σ) : (announce cs i).2.handed = i.handed := by
  simp only [announce, StoreM.modify_apply]
  split <;> rfl

@[simp] theorem announcing_announce (cs : List ItemChange) (i : Intake σ) : (announce cs i).2.announcing = i.announcing := by
  simp only [announce, StoreM.modify_apply]
  split <;> rfl

/-- If somebody listens, changes are announced after those before them. -/
theorem announced_announce (cs : List ItemChange) {i : Intake σ} (h : i.announcing = .heard) :
    (announce cs i).2.announced = i.announced ++ cs := by
  simp [announce, h]

section

variable [DataStore σ] {site : Site σ} {m : Memory} {v : Versions} {p : Kind → String → Prop}

/-- Reading the versions of whole kinds from a memory notes all that it holds of them. -/
theorem versionsOf_run (h : site.ReadsFrom m) (kinds : List Kind) (hv : v.Noted m p) :
    ∃ v', (versionsOf kinds v).run site = (.ok v', site) ∧ v'.Noted m fun kind key => p kind key ∨ kind ∈ kinds := by
  induction kinds generalizing v p with
  | nil => exact ⟨v, rfl, hv.congr fun kind key item _ => by simp⟩
  | cons kind kinds ih =>
    rw [versionsOf, StoreM.bind_run_ok (h.items kind)]
    obtain ⟨v', hrun, hnoted⟩ := ih (hv.noteAll fun e he => Memory.mem_items.mp he)
    refine ⟨v', hrun, hnoted.congr ?_⟩
    intro kind' key item hitem
    have hlisted : ∃ item, (key, item) ∈ m.items kind' := ⟨item, Memory.mem_items.mpr hitem⟩
    rw [List.mem_cons, or_assoc]
    refine or_congr_right (or_congr_left ⟨fun ⟨hk, _⟩ => hk.symm, ?_⟩)
    rintro rfl
    exact ⟨rfl, hlisted⟩

/-- Reading the versions of listed items from a memory notes those that it holds. -/
theorem versionsAt_run (h : site.ReadsFrom m) (es : List (Kind × String × Item)) (hv : v.Noted m p) :
    ∃ v', (versionsAt es v).run site = (.ok v', site) ∧
      v'.Noted m fun kind key => p kind key ∨ ∃ item, (kind, key, item) ∈ es := by
  induction es generalizing v p with
  | nil => exact ⟨v, rfl, hv.congr fun kind key item _ => by simp⟩
  | cons e es ih =>
    obtain ⟨kind, key, item⟩ := e
    have hcons (q : Kind → String → Prop) (kind' : Kind) (key' : String) :
        ((q kind' key' ∨ kind = kind' ∧ key = key') ∨ ∃ item, (kind', key', item) ∈ es) ↔
          q kind' key' ∨ ∃ item', (kind', key', item') ∈ (kind, key, item) :: es := by
      simp only [List.mem_cons, Prod.mk.injEq, exists_or, or_assoc]
      refine or_congr_right (or_congr_left ⟨fun ⟨hk, hkey⟩ => ⟨item, hk.symm, hkey.symm, rfl⟩, ?_⟩)
      rintro ⟨_, hk, hkey, -⟩
      exact ⟨hk.symm, hkey.symm⟩
    rw [versionsAt, StoreM.bind_run_ok (h.find? kind key)]
    cases hf : m.find? kind key with
    | none =>
      have hskip : v.Noted m fun kind' key' => p kind' key' ∨ kind = kind' ∧ key = key' := by
        refine hv.congr ?_
        intro kind' key' held hheld
        refine (or_iff_left ?_).symm
        rintro ⟨rfl, rfl⟩
        exact nomatch hf.symm.trans hheld
      obtain ⟨v', hrun, hnoted⟩ := ih hskip
      exact ⟨v', hrun, hnoted.congr fun kind' key' _ _ => hcons p kind' key'⟩
    | some old =>
      obtain ⟨v', hrun, hnoted⟩ := ih (hv.note hf)
      exact ⟨v', hrun, hnoted.congr fun kind' key' _ _ => hcons p kind' key'⟩

/-- Reading the versions before a batch from a memory succeeds, changes nothing, and tells all that are consulted. -/
theorem versionsBefore_run (h : site.ReadsFrom m) (b : Batch) :
    ∃ v, (versionsBefore b).run site = (.ok v, site) ∧ v.Noted m b.Consults := by
  unfold versionsBefore Batch.Consults
  cases b.extent with
  | full =>
    obtain ⟨v, hrun, hv⟩ := versionsOf_run h (List.map Prod.fst b.data) (Versions.noted_none m)
    exact ⟨v, hrun, hv.congr fun kind key item _ => by simp⟩
  | incremental =>
    obtain ⟨v, hrun, hv⟩ := versionsAt_run h b.data.entries (Versions.noted_none m)
    exact ⟨v, hrun, hv.congr fun kind key item _ => by simp⟩
  | none => exact ⟨_, rfl, Versions.noted_none m⟩

end

/-- An intake for a store with nothing beneath hands a batch to it once and accepts it. -/
theorem apply_of_none [DataStore μ] {i : Intake (Layered μ)} (h : i.site.store.beneath = none) (b : Batch) :
    (apply b i).1 = true ∧ (apply b i).2.site = Layered.appliedToMemory b i.site ∧
      (apply b i).2.handed = i.handed ++ [b] := by
  have hh : hand b i = (.ok (), { i with handed := i.handed ++ [b], site := Layered.appliedToMemory b i.site }) := by
    simp [hand, onSite, Layered.apply_of_none h b]
  by_cases hn : i.announcing = .off
  · simp [apply, hn, hh]
  · obtain ⟨v, hv, -⟩ := versionsBefore_run (Layered.readsFrom (Layered.source_of_none h)) b
    simp [apply, hn, onSite, hv, hh]

end Intake

end FlagDelivery
