import FlagDelivery.Proofs.Store.Attached
import FlagDelivery.Proofs.Store.History
import FlagDelivery.Proofs.Store.MemoryOnly

/-!
# What a failure leaves to be done

A shared store, whatever it is and whenever it fails, is used through an attached store and through a layered one above
it, and is checked in between: `Incident`. What a call does to the board follows from what the shared store answers,
`Attached.outcome_asked`, if the call is passed on to it at all, `Layered.outcome_passed`; `Tiers.posted` is all that
any incident can do. So once the shared store has failed a call, the board shows good health again only after all data
was accepted: `Tiers.not_good_until_completed`.
-/

namespace FlagDelivery

namespace Board

/-- The board after the shared store has answered a call. A failure is posted; data that replaced all data ends the need
of a refresh. -/
def told {α : Type} (fills : Bool) (b : Board) : Except StoreError α → Board
  | .error _ => b.marked
  | .ok _ => if fills then (refreshed b).2 else b

/-- What is told of an answer does not hinge on its value. -/
theorem told_map {α β : Type} (fills : Bool) (b : Board) (f : α → β) (r : Except StoreError α) :
    b.told fills (r.map f) = b.told fills r := by
  cases r <;> rfl

end Board

namespace Attached

variable {π : Type} [SharedStore π]

/-- Items are written to the shared store one after the other until one fails. -/
def askAll : List (Kind × String × Item) → StoreM π Unit
  | [] => pure ()
  | (kind, key, item) :: es => do
    discard (SharedStore.upsert kind key (.ofItem item))
    askAll es

/-- What a call of an attached store asks of the shared store. -/
def asked : Access → StoreM π Unit
  | .write (.init d) => SharedStore.init (stored d)
  | .write (.apply b) => match b.extent with
    | .full => SharedStore.init (stored ⟨b.data, b.persist⟩)
    | .incremental => askAll b.data.entries
    | .none => pure ()
  | .write (.upsert kind key item) => discard (SharedStore.upsert kind key (.ofItem item))
  | .find? kind key => discard (SharedStore.find? kind key)
  | .items kind => discard (SharedStore.items kind)
  | .isInitialized => pure ()

/-- The shared store fails a call. -/
def Fails (p : π) (c : Access) : Prop := ∃ e, ((asked c).run p).1 = .error e

/-- Items are written as if all of them were one operation of the shared store. -/
theorem upsertAll_run (es : List (Kind × String × Item)) (site : Site (Attached π)) :
    (upsertAll es).run site = (observe (askAll es)).run site := by
  induction es generalizing site with
  | nil =>
    rw [observe_run]
    rfl
  | cons e es ih =>
    obtain ⟨kind, key, item⟩ := e
    rw [upsertAll, observe_run, askAll, StoreM.bind_run, StoreM.bind_run, StoreM.discard_run, StoreM.discard_run,
      upsert, observe_run]
    rcases (SharedStore.upsert kind key (.ofItem item) : StoreM π Bool).run site.store.shared with ⟨e | written, p⟩
    · rfl
    · exact (ih _).trans (observe_run _ _ _)

omit [SharedStore π] in
/-- What the shared store answers is answered, and told on the board. -/
theorem outcome_observe {α : Type} (op : StoreM π α) (site : Site (Attached π)) :
    let answer := (op.run site.store.shared).1
    ((observe op).run site).1 = answer ∧ ((observe op).run site).2.board = site.board.told false answer := by
  rw [observe_run]
  rcases op.run site.store.shared with ⟨e | x, p⟩ <;> exact ⟨rfl, rfl⟩

/-- Filling an attached store tells what filling the shared one answered. -/
theorem outcome_fill (d : DataSet Stored) (site : Site (Attached π)) :
    let answer := ((SharedStore.init d : StoreM π Unit).run site.store.shared).1
    ((fill d).run site).1 = answer ∧ ((fill d).run site).2.board = site.board.told true answer := by
  rw [fill_run]
  rcases (SharedStore.init d : StoreM π Unit).run site.store.shared with ⟨e | x, p⟩ <;> exact ⟨rfl, rfl⟩

omit [SharedStore π] in
/-- A read makes something of what the shared store answers, unless that is an error. -/
theorem outcome_read {α β : Type} (op : StoreM π α) {make : α → StoreM (Site (Attached π)) β}
    (hmake : ∀ x s, ((make x).run s).2 = s) (site : Site (Attached π)) :
    let answer := ((discard op : StoreM π PUnit).run site.store.shared).1
    let done := (discard (observe op >>= make) : StoreM (Site (Attached π)) PUnit).run site
    (∀ e, answer = .error e → done.1 = .error e) ∧ done.2.board = site.board.told false answer := by
  obtain ⟨hanswer, hboard⟩ := outcome_observe op site
  simp only [StoreM.discard_run, Board.told_map, StoreM.bind_run_snd hmake]
  refine ⟨?_, hboard⟩
  intro e he
  cases hr : (op.run site.store.shared).1 with
  | error e' =>
    rw [hr] at he hanswer
    rw [StoreM.bind_run, hanswer]
    exact he
  | ok x =>
    rw [hr] at he
    cases he

/-- A write answers as the shared store does. -/
theorem outcome_write (r : Request) (site : Site (Attached π)) :
    let answer := ((asked (.write r)).run site.store.shared).1
    (Access.write r).outcome site = (answer, site.board.told r.Fills answer) := by
  cases r with
  | init d =>
    obtain ⟨hanswer, hboard⟩ := outcome_fill (stored d) site
    exact Prod.ext hanswer hboard
  | apply b =>
    have hrun := apply_run b site
    have hfills : decide (Request.apply b).Fills = decide (b.extent = .full) := rfl
    rw [hfills, asked]
    cases he : b.extent with
    | full =>
      rw [he] at hrun
      obtain ⟨hanswer, hboard⟩ := outcome_fill (stored ⟨b.data, b.persist⟩) site
      exact Prod.ext ((congrArg (·.1) hrun).trans hanswer) ((congrArg (·.2.board) hrun).trans hboard)
    | incremental =>
      rw [he, upsertAll_run] at hrun
      obtain ⟨hanswer, hboard⟩ := outcome_observe (askAll b.data.entries) site
      exact Prod.ext ((congrArg (·.1) hrun).trans hanswer) ((congrArg (·.2.board) hrun).trans hboard)
    | none =>
      rw [he] at hrun
      exact Prod.ext (congrArg (·.1) hrun) (congrArg (·.2.board) hrun)
  | upsert kind key item =>
    obtain ⟨hanswer, hboard⟩ := outcome_observe (SharedStore.upsert kind key (.ofItem item)) site
    simp only [Access.outcome, Access.run, asked, StoreM.discard_run, Board.told_map]
    exact Prod.ext (congrArg (Except.map fun _ => ()) hanswer) hboard

/-- An error of the shared store is what a call answers, and the board tells what the shared store answered. -/
theorem outcome_asked (c : Access) (site : Site (Attached π)) :
    let answer := ((asked c).run site.store.shared).1
    (∀ e, answer = .error e → (c.outcome site).1 = .error e) ∧ (c.outcome site).2 = site.board.told c.Fills answer := by
  cases c with
  | write r =>
    rw [outcome_write]
    exact ⟨fun _ => id, rfl⟩
  | find? kind key =>
    refine outcome_read (SharedStore.find? kind key) (fun found s => ?_) site
    cases found with
    | none => rfl
    | some stored =>
      rw [StoreM.map_run]
      rfl
  | items kind => exact outcome_read (SharedStore.items kind) (fun found s => rfl) site
  | isInitialized =>
    refine ⟨nofun, ?_⟩
    change (isInitialized site).2.board = site.board
    simp only [isInitialized, StoreM.bind_apply, StoreM.get_apply, StoreM.ite_apply]
    split
    · rfl
    · split <;> rfl

/-- A call does to the shared store what it asks of it. -/
theorem shared_call (site : Site (Attached π)) {c : Access} (hc : c ≠ .isInitialized) :
    ((c.run : StoreM (Site (Attached π)) Unit).run site).2.store.shared = ((asked c).run site.store.shared).2 := by
  cases c with
  | write r =>
    cases r with
    | init d => exact shared_fill site (stored d)
    | apply b =>
      refine (congrArg (·.2.store.shared) (apply_run b site)).trans ?_
      rw [asked]
      cases b.extent with
      | full => exact shared_fill site (stored ⟨b.data, b.persist⟩)
      | incremental =>
        simp only [upsertAll_run]
        exact shared_observe _ site
      | none => rfl
    | upsert kind key item =>
      rw [Access.run, asked, StoreM.discard_run, StoreM.discard_run]
      exact shared_observe _ site
  | find? kind key =>
    rw [Access.run, asked, StoreM.discard_run, StoreM.discard_run]
    refine (congrArg (·.store.shared) (StoreM.bind_run_snd (fun found s => ?_) _ site)).trans (shared_observe _ site)
    cases found with
    | none => rfl
    | some stored => rw [StoreM.map_run, StoreM.ofExcept_run]
  | items kind =>
    rw [Access.run, asked, StoreM.discard_run, StoreM.discard_run]
    refine (congrArg (·.store.shared) (StoreM.bind_run_snd (fun found s => ?_) _ site)).trans (shared_observe _ site)
    rw [StoreM.ofExcept_run]
  | isInitialized => exact absurd rfl hc

/-- A check leaves the board as it is or posts the end of an outage. -/
theorem board_recover (site : Site (Attached π)) :
    (recover site).2.board = site.board ∨ (recover site).2.board = site.board.answered := by
  obtain ⟨a, b⟩ := site
  rw [recover_apply]
  rcases (SharedStore.answers : StateM π Bool) a.shared with ⟨_ | _, p⟩
  · exact .inl rfl
  · exact .inr rfl

/-- A check marks an outage or its end. -/
theorem board_check (site : Site (Attached π)) :
    (check site).2.board = site.board.marked ∨ (check site).2.board = site.board.answered := by
  obtain ⟨a, b⟩ := site
  rw [check_apply]
  rcases (SharedStore.answers : StateM π Bool) a.shared with ⟨_ | _, p⟩
  · exact .inl rfl
  · exact .inr rfl

/-- What is left of a round of checks marks the end of the outage, or nothing. -/
theorem board_settle (site : Site (Attached π)) :
    (settle site).2.board = site.board ∨ (settle site).2.board = site.board.answered := by
  simp only [settle, StoreM.bind_apply, StoreM.get_apply, StoreM.ite_apply]
  split
  · split
    · split
      · exact board_recover site
      · exact board_recover site
    · exact .inl rfl
  · exact .inl rfl

end Attached

namespace Layered

variable {μ : Type}

/-- The store beneath, if a call is passed on to it. -/
def passes (s : Layered μ) : Access → Option μ
  | .write (.init d) => s.writable d.persist
  | .write (.apply b) => s.writable b.persist
  | .write (.upsert kind key item) => if (s.memory.upsert kind key item).1 then s.writable true else none
  | _ => s.source

/-- What is written through to is the store beneath, in a mode that allows it, for data that is to be persisted. -/
theorem beneath_of_writable {s : Layered μ} {a : μ} {persist : Bool} (h : s.writable persist = some a) :
    s.beneath = some a ∧ s.mode = .readWrite ∧ persist = true := by
  obtain ⟨hwrites, hb⟩ := Option.ite_none_right_eq_some.mp h
  exact ⟨hb, hwrites⟩

/-- A write is passed on only if the mode allows it and the data is to be written through. -/
theorem beneath_of_passes_write {s : Layered μ} {a : μ} {r : Request} (h : s.passes (.write r) = some a) :
    s.beneath = some a ∧ s.mode = .readWrite ∧ r.Persisted := by
  cases r with
  | init d => exact beneath_of_writable h
  | apply b => exact beneath_of_writable h
  | upsert kind key item =>
    obtain ⟨hb, hmode, -⟩ := beneath_of_writable (Option.ite_none_right_eq_some.mp h).2
    exact ⟨hb, hmode, trivial⟩

/-- A call is passed on to nothing but the store beneath. -/
theorem beneath_of_passes {s : Layered μ} {a : μ} {c : Access} (h : s.passes c = some a) : s.beneath = some a := by
  cases c with
  | write r => exact (beneath_of_passes_write h).1
  | _ => exact beneath_of_source h

/-- The store once it has taken a call for its own part: memory takes what is written, and reads turn to memory once all
data was replaced. -/
def kept (s : Layered μ) : Access → Layered μ
  | .write r => { s with memory := s.memory.take r, readsFromMemory := s.readsFromMemory || decide r.Fills }
  | _ => s

/-- A need of a refresh is ended only where there is a store beneath. -/
theorem board_refreshed (s : Site (Layered μ)) :
    (refreshed s).2.board = if s.store.beneath.isSome then (Board.refreshed s.board).2 else s.board := by
  simp only [refreshed, StoreM.bind_apply, StoreM.get_apply, StoreM.ite_apply]
  split <;> rfl

/-- A read goes to the store beneath while there is one to be read from, and to memory otherwise. -/
theorem read_run {α : Type} (fromMemory : Memory → α) (op : StoreM (Site μ) α) (s : Site (Layered μ)) :
    (discard (read fromMemory op) : StoreM (Site (Layered μ)) PUnit).run s = match s.store.source with
      | some a =>
        let beneath := (discard op : StoreM (Site μ) PUnit).run ⟨a, s.board⟩
        (beneath.1, ⟨{ s.store with beneath := some beneath.2.store }, beneath.2.board⟩)
      | none => (.ok (), s) := by
  simp only [StoreM.discard_run, read, StoreM.mk_run, StoreM.bind_apply, StoreM.get_apply]
  cases s.store.source <;> rfl

variable [DataStore μ]

/-- A call that is passed on comes out as it does at the store beneath. One that is not is accepted, and if it replaces
all data it ends the need of a refresh. Either way the store takes it for its own part. -/
theorem call_run (c : Access) (s : Site (Layered μ)) :
    (c.run : StoreM (Site (Layered μ)) Unit).run s = match s.store.passes c with
    | some a =>
      let beneath := (c.run : StoreM (Site μ) Unit).run ⟨a, s.board⟩
      (beneath.1, ⟨{ s.store.kept c with beneath := some beneath.2.store }, beneath.2.board⟩)
    | none =>
      (.ok (), ⟨s.store.kept c, if c.Fills ∧ s.store.beneath.isSome then (Board.refreshed s.board).2 else s.board⟩) := by
  -- A write goes to memory first, and what memory makes of it decides whether it is passed on. A read is passed on
  -- while reads come from beneath.
  cases c with
  | write r =>
    cases r with
    | init d =>
      have hpasses : s.store.passes (.write (.init d)) = s.store.writable d.persist := rfl
      have hwritable : (switchReads (fillMemory d.data s).2).2.store.writable d.persist = s.store.writable d.persist := rfl
      have hkept : s.store.kept (.write (.init d)) = (switchReads (fillMemory d.data s).2).2.store := by
        have hreads : decide (Request.init d).Fills = true := rfl
        simp [kept, hreads, Memory.take, switchReads, fillMemory, Site.mapStore]
      rw [Access.run, hpasses, hkept]
      simp only [DataStore.init, init, StoreM.mk_run, StoreM.bind_apply, StoreM.get_apply, hwritable]
      cases s.store.writable d.persist with
      | some a => rfl
      | none =>
        have hfills : (Access.write (.init d)).Fills := trivial
        simp only [hfills, true_and]
        exact Prod.ext rfl (congrArg₂ Site.mk (store_refreshed _) (board_refreshed _))
    | apply b =>
      have hrun : ((Access.write (.apply b)).run : StoreM (Site (Layered μ)) Unit) = DataStore.apply b := rfl
      have hpasses : s.store.passes (.write (.apply b)) = (appliedToMemory b s).store.writable b.persist := rfl
      have hfills : (Access.write (.apply b)).Fills ↔ b.extent = .full := Iff.rfl
      have hkept : s.store.kept (.write (.apply b)) = (appliedToMemory b s).store := by
        by_cases h : b.extent = .full <;> simp [kept, appliedToMemory, Site.mapStore, Memory.take, Request.Fills, h]
      rw [hrun, apply_run, hpasses, hkept]
      cases (appliedToMemory b s).store.writable b.persist with
      | some a => rfl
      | none =>
        by_cases hf : b.extent = .full
        · simp only [hf, hfills, true_and, if_true]
          exact Prod.ext rfl (congrArg₂ Site.mk (store_refreshed _) (board_refreshed (appliedToMemory b s)))
        · simp only [hf, hfills, false_and, if_false]
          rfl
    | upsert kind key item =>
      have hpasses : s.store.passes (.write (.upsert kind key item)) =
          if (s.store.memory.upsert kind key item).1 then s.store.writable true else none := rfl
      have hwritable : (upsertMemory kind key item s).2.store.writable true = s.store.writable true := rfl
      have hwritten : (upsertMemory kind key item s).1 = (s.store.memory.upsert kind key item).1 := rfl
      have hkept : s.store.kept (.write (.upsert kind key item)) = (upsertMemory kind key item s).2.store := by
        have hreads : decide (Request.upsert kind key item).Fills = false := rfl
        simp [kept, hreads, Memory.take, upsertMemory, Site.mapStore]
      simp only [Access.run, StoreM.discard_run, hpasses, hkept, DataStore.upsert, upsert, StoreM.mk_run,
        StoreM.bind_apply, StoreM.get_apply, hwritable, hwritten]
      cases s.store.writable true <;> cases (s.store.memory.upsert kind key item).1 <;> rfl
  | find? kind key =>
    have hpasses : s.store.passes (.find? kind key) = s.store.source := rfl
    refine (read_run (·.find? kind key) (DataStore.find? kind key) s).trans ?_
    rw [hpasses]
    cases s.store.source <;> rfl
  | items kind =>
    have hpasses : s.store.passes (.items kind) = s.store.source := rfl
    refine (read_run (·.items kind) (DataStore.items kind) s).trans ?_
    rw [hpasses]
    cases s.store.source <;> rfl
  | isInitialized =>
    have hpasses : s.store.passes .isInitialized = s.store.source := rfl
    have hrun : (Access.isInitialized.run : StoreM (Site (Layered μ)) Unit).run s = (.ok (), (isInitialized s).2) := rfl
    rw [hrun, hpasses]
    simp only [isInitialized, StoreM.bind_apply, StoreM.get_apply]
    cases s.store.source <;> rfl

/-- What a call tells is what the store beneath tells of it, if it is passed on to it; otherwise it ends a need of a
refresh at most. -/
theorem outcome_passed (c : Access) (s : Site (Layered μ)) : c.outcome s = match s.store.passes c with
    | some a => c.outcome (⟨a, s.board⟩ : Site μ)
    | none => (.ok (), if c.Fills ∧ s.store.beneath.isSome then (Board.refreshed s.board).2 else s.board) := by
  rw [Access.outcome, call_run]
  cases s.store.passes c <;> rfl

end Layered

/-! ## Runs -/

/-- A layered store over an attached one. -/
abbrev Tiers (π : Type) := Site (Layered (Attached π))

/-- What happens to them: a call of either, a check of the shared store, or whatever befalls that store. -/
inductive Incident (π : Type) where
  | layered (c : Access)
  | attached (c : Access)
  | recover
  | check
  | settle
  | shared (f : π → π)

/-- The shared store is checked. -/
def Incident.Checks {π : Type} : Incident π → Prop
  | .recover | .check | .settle => True
  | _ => False

namespace Tiers

variable {π : Type}

/-- Does something with the attached store. -/
def under {α : Type} (op : StateM (Site (Attached π)) α) (s : Tiers π) : Tiers π :=
  match s.store.beneath with
  | some a => (Layered.onBeneath a op s).2
  | none => s

variable [SharedStore π]

/-- One incident. -/
def step (s : Tiers π) : Incident π → Tiers π
  | .layered c => ((c.run : StoreM (Tiers π) Unit).run s).2
  | .attached c => s.under c.run.run
  | .recover => s.under Attached.recover
  | .check => s.under Attached.check
  | .settle => s.under Attached.settle
  | .shared f => s.under (Attached.onShared (modify f))

/-- Incidents one after the other. -/
def run (s : Tiers π) (is : List (Incident π)) : Tiers π := is.foldl step s

/-- A call reaches the shared store, directly or through the layered store, which then fails it. -/
def Fails (s : Tiers π) : Incident π → Prop
  | .layered c => ∃ a, s.store.passes c = some a ∧ Attached.Fails a.shared c
  | .attached c => ∃ a, s.store.beneath = some a ∧ Attached.Fails a.shared c
  | _ => False

/-- All data is accepted: the shared store takes it, or memory does and it is not to be written through. -/
def Completes (s : Tiers π) : Incident π → Prop
  | .layered c => c.Fills ∧ ∀ a, s.store.passes c = some a → ¬Attached.Fails a.shared c
  | .attached c => c.Fills ∧ ∃ a, s.store.beneath = some a ∧ ¬Attached.Fails a.shared c
  | _ => False

/-- All data is accepted in the course of a run. -/
def Completed (s : Tiers π) : List (Incident π) → Prop
  | [] => False
  | i :: is => s.Completes i ∨ (s.step i).Completed is

/-- All that an incident can do to the board. -/
inductive Posted (s : Tiers π) (i : Incident π) : Board → Prop where
  | failed : s.Fails i → Posted s i s.board.marked
  | completed : s.Completes i → Posted s i (Board.refreshed s.board).2
  | answered : i.Checks → Posted s i s.board.answered
  | unanswered : i.Checks → Posted s i s.board.marked
  | unchanged : ¬s.Fails i → Posted s i s.board

variable {s : Tiers π} {i : Incident π}

/-- What completes does not fail. -/
theorem not_fails_of_completes (h : s.Completes i) : ¬s.Fails i := by
  cases i with
  | layered c =>
    rintro ⟨a, ha, hf⟩
    exact h.2 a ha hf
  | attached c =>
    rintro ⟨a, ha, hf⟩
    obtain ⟨-, a', ha', hok⟩ := h
    cases ha.symm.trans ha'
    exact hok hf
  | _ => exact h.elim

/-- A check does not fail. -/
theorem not_fails_of_checks (h : i.Checks) : ¬s.Fails i := by
  cases i with
  | layered c => exact h.elim
  | attached c => exact h.elim
  | _ => exact id

/-- The answer of the shared store to a call that reaches it is told. -/
theorem posted_told {c : Access} {a : Attached π} (hfails : s.Fails i ↔ Attached.Fails a.shared c)
    (hcompletes : c.Fills → ¬Attached.Fails a.shared c → s.Completes i) :
    Posted s i (s.board.told c.Fills ((Attached.asked c).run a.shared).1) := by
  cases hr : ((Attached.asked c).run a.shared).1 with
  | error e => exact .failed (hfails.mpr ⟨e, hr⟩)
  | ok x =>
    have hok : ¬Attached.Fails a.shared c := fun ⟨e, he⟩ => nomatch hr.symm.trans he
    by_cases hc : c.Fills
    · simp only [Board.told, hc, decide_true, if_true]
      exact .completed (hcompletes hc hok)
    · simp only [Board.told, hc, decide_false, Bool.false_eq_true, if_false]
      exact .unchanged (hok ∘ hfails.mp)

/-- With nothing beneath, nothing happens to the attached store. -/
theorem posted_under {α : Type} {op : StateM (Site (Attached π)) α} (hnone : s.store.beneath = none → ¬s.Fails i)
    (hsome : ∀ a, s.store.beneath = some a → Posted s i (op ⟨a, s.board⟩).2.board) : Posted s i (s.under op).board := by
  unfold under
  cases hb : s.store.beneath with
  | some a => exact hsome a hb
  | none => exact .unchanged (hnone hb)

/-- Whatever is done to the stores posts what is listed and nothing else. -/
theorem posted (s : Tiers π) (i : Incident π) : Posted s i (s.step i).board := by
  cases i with
  | layered c =>
    have hboard : (s.step (.layered c)).board = (c.outcome s).2 := rfl
    rw [hboard, Layered.outcome_passed]
    cases hp : s.store.passes c with
    | some a =>
      have hfails : s.Fails (.layered c) ↔ Attached.Fails a.shared c := by simp [Fails, hp]
      have hcompletes : c.Fills → ¬Attached.Fails a.shared c → s.Completes (.layered c) := by
        intro hc hok
        exact ⟨hc, fun a' ha' => (Option.some.inj (hp.symm.trans ha')) ▸ hok⟩
      simp only [(Attached.outcome_asked c ⟨a, s.board⟩).2]
      exact posted_told hfails hcompletes
    | none =>
      have hok : ¬s.Fails (.layered c) := by simp [Fails, hp]
      simp only
      split
      · next h => exact .completed ⟨h.1, fun a ha => nomatch hp.symm.trans ha⟩
      · exact .unchanged hok
  | attached c =>
    refine posted_under (fun hb => by simp [Fails, hb]) fun a hb => ?_
    have hfails : s.Fails (.attached c) ↔ Attached.Fails a.shared c := by simp [Fails, hb]
    have htold : (c.run.run ⟨a, s.board⟩).2.board = _ := (Attached.outcome_asked c ⟨a, s.board⟩).2
    exact htold.symm ▸ posted_told hfails fun hc hok => ⟨hc, a, hb, hok⟩
  | recover =>
    refine posted_under (fun _ => id) fun a _ => ?_
    obtain h | h := Attached.board_recover (⟨a, s.board⟩ : Site (Attached π)) <;> rw [h]
    · exact .unchanged id
    · exact .answered trivial
  | check =>
    refine posted_under (fun _ => id) fun a _ => ?_
    obtain h | h := Attached.board_check (⟨a, s.board⟩ : Site (Attached π)) <;> rw [h]
    · exact .unanswered trivial
    · exact .answered trivial
  | settle =>
    refine posted_under (fun _ => id) fun a _ => ?_
    obtain h | h := Attached.board_settle (⟨a, s.board⟩ : Site (Attached π)) <;> rw [h]
    · exact .unchanged id
    · exact .answered trivial
  | shared f => exact posted_under (fun _ => id) fun a _ => .unchanged id

/-- A call that fails answers with an error. -/
theorem answer_of_fails {c : Access} (h : s.Fails (.layered c)) : ∃ e, (c.outcome s).1 = .error e := by
  obtain ⟨a, ha, e, he⟩ := h
  rw [Layered.outcome_passed, ha]
  exact ⟨e, (Attached.outcome_asked c ⟨a, s.board⟩).1 e he⟩

/-- A write that answers with an error is one that fails. -/
theorem fails_of_answer {r : Request} {e : StoreError} (h : ((Access.write r).outcome s).1 = .error e) :
    s.Fails (.layered (.write r)) := by
  rw [Layered.outcome_passed] at h
  cases hp : s.store.passes (.write r) with
  | some a =>
    rw [hp] at h
    simp only [Attached.outcome_write] at h
    exact ⟨a, hp, e, h⟩
  | none =>
    rw [hp] at h
    cases h

/-! ### What a run keeps -/

/-- A failure is on the board. -/
theorem not_good_of_fails (h : s.Fails i) : (s.step i).board.health ≠ .good := by
  have hp := posted s i
  generalize (s.step i).board = b at hp ⊢
  cases hp with
  | failed _ => exact s.board.marked_ne_good
  | completed hc => exact absurd h (not_fails_of_completes hc)
  | answered hc => exact absurd h (not_fails_of_checks hc)
  | unanswered hc => exact absurd h (not_fails_of_checks hc)
  | unchanged hn => exact absurd h hn

/-- Health is made good by nothing but the acceptance of all data. -/
theorem not_good_step (h : s.board.health ≠ .good) (hc : ¬s.Completes i) : (s.step i).board.health ≠ .good := by
  have hp := posted s i
  generalize (s.step i).board = b at hp ⊢
  cases hp with
  | failed _ => exact s.board.marked_ne_good
  | completed hc' => exact absurd hc' hc
  | answered _ => exact h ∘ Board.good_of_answered
  | unanswered _ => exact s.board.marked_ne_good
  | unchanged _ => exact h

/-- Health that is not good stays so through a run in which all data is never accepted. -/
theorem not_good_run {is : List (Incident π)} (h : s.board.health ≠ .good) (hc : ¬s.Completed is) :
    (s.run is).board.health ≠ .good := by
  induction is generalizing s with
  | nil => exact h
  | cons i is ih => exact ih (not_good_step h fun hi => hc (.inl hi)) fun his => hc (.inr his)

/-- The need of a refresh arises at the end of an outage. -/
theorem checks_of_refreshNeeded (h : s.board.health.refreshNeeded = false)
    (h' : (s.step i).board.health.refreshNeeded = true) :
    i.Checks ∧ s.board.health.available = false ∧ (s.step i).board.health.available = true := by
  have hp := posted s i
  generalize (s.step i).board = b at hp h' ⊢
  cases hp with
  | failed _ =>
    rw [Board.health_marked] at h'
    exact absurd (h.symm.trans h') Bool.false_ne_true
  | completed _ =>
    rw [Board.health_refreshed] at h'
    cases h'
  | answered hc =>
    rw [Board.health_answered] at h' ⊢
    split at h'
    · exact absurd (h.symm.trans h') Bool.false_ne_true
    · next ha =>
      rw [if_neg ha]
      exact ⟨hc, eq_false_of_ne_true ha, rfl⟩
  | unanswered _ =>
    rw [Board.health_marked] at h'
    exact absurd (h.symm.trans h') Bool.false_ne_true
  | unchanged _ => exact absurd (h.symm.trans h') Bool.false_ne_true

/-- **A missed write is not forgotten**, whatever the shared store is and whenever it fails, in three parts.
1. A write through the layered store answers with an error exactly if it reaches the shared store and that fails it.
2. Once the shared store has failed a call, the board does not show good health again before all data was accepted.
3. The need of a refresh arises only when a check finds that an outage has ended. -/
theorem not_good_until_completed (s : Tiers π) :
    (∀ r, (∃ e, ((Access.write r).outcome s).1 = .error e) ↔ s.Fails (.layered (.write r))) ∧
    (∀ i later, s.Fails i → ¬(s.step i).Completed later → ((s.step i).run later).board.health ≠ .good) ∧
    ∀ i, s.board.health.refreshNeeded = false → (s.step i).board.health.refreshNeeded = true →
      i.Checks ∧ s.board.health.available = false ∧ (s.step i).board.health.available = true :=
  ⟨fun _ => ⟨fun ⟨_, h⟩ => fails_of_answer h, answer_of_fails⟩, fun _ _ hf hc => not_good_run (not_good_of_fails hf) hc,
    fun _ => checks_of_refreshNeeded⟩

/-- A layered store over a backend that cannot be reached. -/
def cutOff : Tiers (Guarded SharedMemory) :=
  ⟨.above (.ofShared (.ofBackend (SharedMemory.empty.setReachable false) .unbounded) .unbounded) .readWrite, .initial true⟩

/-- A flag that is to be deleted in the backend. -/
def lostDeletion : Incident (Guarded SharedMemory) := .layered (.write (.upsert .features "a" (.tombstone 1)))

/-- The backend is back, which a check finds, and the flag is read and deleted once more. -/
def comeback : List (Incident (Guarded SharedMemory)) :=
  [.shared fun p => { p with backend := p.backend.setReachable true }, .check, .layered (.find? .features "a"),
    .layered (.write (.upsert .features "a" (.tombstone 2)))]

/-- The deletion that was lost leaves the need of a refresh, which arises at the check, and no later call of these ends
it. -/
theorem not_good_until_completed_comeback :
    let lost := cutOff.step lostDeletion
    (lost.run comeback).board.health ≠ .good ∧ (lost.run comeback).board.health = .recovered ∧
      (lost.run (comeback.take 1)).board.health.available = false := by
  intro lost
  have hfails : cutOff.Fails lostDeletion := ((not_good_until_completed cutOff).1 _).mp ⟨_, rfl⟩
  have hopen : ¬lost.Completed comeback := by
    rintro (h | h | h | h | h)
    · exact h
    · exact h
    · exact h.1
    · exact h.1
    · exact h
  have harises := (not_good_until_completed (lost.run (comeback.take 1))).2.2 .check rfl rfl
  exact ⟨(not_good_until_completed cutOff).2.1 lostDeletion comeback hfails hopen, rfl, harises.2.1⟩

end Tiers

end FlagDelivery
