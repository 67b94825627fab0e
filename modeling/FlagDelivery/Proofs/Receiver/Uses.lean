import FlagDelivery.Proofs.Receiver.Recovery
import FlagDelivery.Proofs.Store.Spared

/-!
# What may not be written

A stack is used by direct calls and checks, by batches and notices that are handed to an intake, and by the steps of
receivers: `Stack.Use`. All of these come of calls and checks of the stack, `Stack.touched_of_use`. So in read-only mode
the stack writes nothing to its backend, however long it is used and in whatever ways, and in no mode does it write what
is not to be persisted: `Stack.unwritten`.
-/

namespace FlagDelivery

namespace Intake

/-- Of the calls that are made for a batch only the last can be persisted. -/
theorem Serves.persist {b : Batch} {c : Access} (h : Serves b c) (hc : c.Persisted) : b.persist = true := by
  cases h with
  | find? kind key => exact hc.elim
  | items kind => exact hc.elim
  | apply => exact hc

/-- What is left of an intake once it was told what a feed makes of messages. -/
def fed {σ : Type} [DataStore σ] (environment : Option String) (persist : Bool) (feed : Feed) (msgs : List Message)
    (i : Intake σ) :
    Intake σ :=
  (feed.receiveAll msgs).1.foldl (fun i n => (takeNotice environment persist n i).2) i

end Intake

namespace Session

variable {σ ς ω : Type}

/-- The site of the receiver's store. -/
abbrev site (s : Session σ ς ω) : Site σ := s.receiver.intake.site

variable [DataStore σ] [Source ς]

/-- Of what happens during a step, others do what they do before it. -/
theorem step_eq_alone (env : Environment σ ω) (stage : Stage) (s : Session σ ς ω) :
    step env stage s = step alone stage (stage.call?.elim s fun call => (onWorld (env call) s).2) := by
  cases stage <;> rfl

/-- A step leaves the store to itself, or hands a batch to the intake. -/
theorem site_step (stage : Stage) (s : Session σ ς ω) : (step alone stage s).2.site = s.site ∨
    ∃ c, (step alone stage s).2.site = (Intake.apply (s.receiver.settings.batch c) s.receiver.intake).2.site := by
  have of_core {r : Receiver σ} (h : r.core = s.receiver.core) : r.intake.site = s.site := congrArg Receiver.Core.site h
  cases stage with
  | opening =>
    rw [step_opening]
    rcases Receiver.dial_cases s.receiver with ⟨-, hcore⟩ | ⟨_, -, hcore⟩
    · exact .inl (of_core hcore)
    · exact .inl (congrArg Receiver.Core.site hcore)
  | connecting resume => exact .inl (of_core (Receiver.connected_cases _ s.receiver).2)
  | listening applied =>
    rw [step_listening, Receiver.listen_apply]
    left
    split
    · rfl
    · split
      · rfl
      · split <;> rfl
  | reading applied => exact (Receiver.site_received applied (Source.next s.source).1 s.receiver).2
  | closing again applied => exact .inl (of_core (Receiver.closed_cases again applied s.receiver).2)
  | stopped => exact .inl rfl

end Session

namespace Stack

variable {β : Type} [Backend β] {persisting : Bool} {s s' : Stack β}

/-- Something that is done with a stack, of which data is to be written through only if `persisting`. -/
inductive Use (persisting : Bool) : Stack β → Stack β → Prop where
  /-- A call of the layered store. -/
  | call (c : Access) (h : c.Persisted → persisting = true) (s : Stack β) : Use persisting s (c.run.run s).2
  /-- A check of the shared store. -/
  | check (i : Incident (Guarded β)) (h : i.Checks) (s : Stack β) : Use persisting s (Tiers.step s i)
  /-- A batch that an intake applies. -/
  | batch (b : Batch) (h : b.persist = true → persisting = true) (i : Intake (Layered (Attached (Guarded β)))) :
    Use persisting i.site (Intake.apply b i).2.site
  /-- What a feed tells an intake. -/
  | notice (environment : Option String) (persist : Bool) (h : persist = true → persisting = true) (n : Notice)
    (i : Intake (Layered (Attached (Guarded β)))) : Use persisting i.site (Intake.takeNotice environment persist n i).2.site
  /-- A step of a receiver with whatever source. -/
  | step {ς ω : Type} [Source ς] (stage : Stage) (s : Session (Layered (Attached (Guarded β))) ς ω)
    (h : s.receiver.settings.persist = true → persisting = true) :
    Use persisting s.site (Session.step Session.alone stage s).2.site

/-- Uses, one after the other. -/
def UsedTo (persisting : Bool) (s s' : Stack β) : Prop := Relation.ReflTransGen (Use persisting) s s'

/-- A call or a check. -/
def Touch (persisting : Bool) (s s' : Stack β) : Prop :=
  Access.Called (fun c => c.Persisted → persisting = true) s s' ∨ ∃ i : Incident (Guarded β), i.Checks ∧ s' = Tiers.step s i

/-- Applying a batch does nothing to a stack but calls, which write through only if the batch is to be persisted. -/
theorem touched_apply (b : Batch) (h : b.persist = true → persisting = true) (i : Intake (Layered (Attached (Guarded β)))) :
    Relation.ReflTransGen (Touch persisting) i.site (Intake.apply b i).2.site := by
  refine Relation.ReflTransGen.mono ?_ _ _ (Intake.called_apply b i)
  rintro _ _ ⟨c, hc, rfl⟩
  exact .inl ⟨c, h ∘ hc.persist, rfl⟩

/-- Whatever is done with a stack is done by calls and checks. -/
theorem touched_of_use (h : Use persisting s s') : Relation.ReflTransGen (Touch persisting) s s' := by
  cases h with
  | call c h s => exact .single (.inl ⟨c, h, rfl⟩)
  | check i h s => exact .single (.inr ⟨i, h, rfl⟩)
  | batch b h i => exact touched_apply b h i
  | notice environment persist h n i =>
    cases n with
    | payload p => exact touched_apply _ h i
    | error complaint message => exact (Intake.site_report _ _ i).symm ▸ .refl
  | step stage s h =>
    obtain hsite | ⟨c, hsite⟩ := Session.site_step stage s <;> rw [hsite]
    exact touched_apply _ h s.receiver.intake

/-- Uses, one after the other, are done by calls and checks. -/
theorem touched_of_usedTo (h : UsedTo persisting s s') : Relation.ReflTransGen (Touch persisting) s s' :=
  Relation.reflTransGen_closed (fun _ _ => touched_of_use) _ _ h

/-! ## Over a backend in memory -/

variable {s s' : Stack (Disturbed SharedMemory)} {b : SharedMemory} {reachable : Nat → Bool}

/-- However a stack is used, nothing but outages befalls its backend. -/
theorem Steady.of_usedTo (h : s.Steady reachable) (hused : s.UsedTo persisting s') : s'.Steady reachable := by
  have htouched := touched_of_usedTo hused
  clear hused
  induction htouched with
  | refl => exact h
  | tail _ hlast ih =>
    obtain ⟨c, -, rfl⟩ | ⟨i, hi, rfl⟩ := hlast
    · exact steady_call ih c
    · exact steady_check ih hi

/-- Uses spare the backend if the mode is read-only or they persist nothing. -/
theorem spares_of_usedTo (hused : s.UsedTo persisting s') (h : s.store.mode = .readOnly ∨ persisting = false) :
    s.Spares s' := by
  have htouched := touched_of_usedTo hused
  clear hused
  induction htouched with
  | refl => exact .refl (fun _ => .refl) s
  | tail _ hlast ih =>
    refine ih.trans .trans ?_
    obtain ⟨c, hc, rfl⟩ | ⟨i, hi, rfl⟩ := hlast
    · refine spares_call (h.imp ih.mode.trans ?_)
      rintro rfl hpersisted
      exact Bool.false_ne_true (hc hpersisted)
    · exact spares_check hi

/-- If the stack may not write, or nothing is to be persisted, its backend holds what it held. -/
theorem Holds.of_usedTo (h : s.Holds b) (hsteady : s.Steady reachable) (hused : s.UsedTo persisting s')
    (hspared : s.store.mode = .readOnly ∨ persisting = false) : s'.Holds b :=
  h.of_spares hsteady (spares_of_usedTo hused hspared)

/-- A run is made of uses, if what others do in its course is. -/
theorem usedTo_run {ς ω : Type} [Source ς] {env : Environment (Layered (Attached (Guarded β))) ω}
    (henv : ∀ call w r, UsedTo true r.intake.site (env call (w, r)).2.2.intake.site)
    (fuel : Nat) (s : Session (Layered (Attached (Guarded β))) ς ω) :
    UsedTo true s.site (Session.run env fuel s).2.site := by
  refine Session.runFrom_preserves (P := fun _ s' => UsedTo true s.site s'.site) (fun stage s' h => ?_) fuel .refl
  rw [Session.step_eq_alone]
  refine Relation.ReflTransGen.tail ?_ (.step stage _ fun _ => rfl)
  cases stage.call? with
  | none => exact h
  | some call => exact h.trans (henv call s'.world s'.receiver)

/-- What a feed reports is taken by uses. -/
theorem usedTo_fed (environment : Option String) {persist : Bool} (h : persist = true → persisting = true) (feed : Feed)
    (msgs : List Message) (i : Intake (Layered (Attached (Guarded β)))) :
    UsedTo persisting i.site (i.fed environment persist feed msgs).site := by
  unfold Intake.fed
  induction (feed.receiveAll msgs).1 generalizing i with
  | nil => exact .refl
  | cons n ns ih => exact .head (.notice environment persist h n i) (ih _)

/-- **What may not be written is not written**, whenever the backend can be reached and whenever not, in four parts.
1. In read-only mode the backend keeps what it held at first, however the stores that settings call for are used.
2. So it does in the course of a run of a receiver, whatever its source is, and whatever uses others make of the stores
   meanwhile,
3. and where the messages of a feed are taken.
4. In any mode, and after whatever uses, the backend keeps what it then holds as long as nothing is done that is to be
   persisted. -/
theorem unwritten (settings : Settings) (b : SharedMemory) (reachable : Nat → Bool) :
    let first : Stack (Disturbed SharedMemory) := settings.stores (some (.withOutages b reachable))
    (settings.mode = .readOnly → ∀ s, first.UsedTo true s → s.Holds b) ∧
      (settings.mode = .readOnly → ∀ {ς ω : Type} [Source ς] (env : Environment (Layered (Attached Exposed)) ω)
        (s : Session (Layered (Attached Exposed)) ς ω), first.UsedTo true s.site →
          (∀ call w r, UsedTo true r.intake.site (env call (w, r)).2.2.intake.site) →
            ∀ fuel, Holds b (Session.run env fuel s).2.site) ∧
      (settings.mode = .readOnly → ∀ (i : Intake (Layered (Attached Exposed))), first.UsedTo true i.site →
        ∀ environment persist feed msgs, Holds b (i.fed environment persist feed msgs).site) ∧
      ∀ s, first.UsedTo true s → ∃ held, s.Holds held ∧ ∀ s', s.UsedTo false s' → s'.Holds held := by
  intro first
  have hsteady : first.Steady reachable := ⟨_, rfl, rfl, rfl⟩
  have hfirst : first.Holds b := ⟨_, rfl, b.reachable, rfl⟩
  refine ⟨?_, ?_, ?_, ?_⟩
  · intro hmode s hused
    exact hfirst.of_usedTo hsteady hused (.inl hmode)
  · intro hmode ς ω _ env s hused henv fuel
    exact hfirst.of_usedTo hsteady (hused.trans (usedTo_run henv fuel s)) (.inl hmode)
  · intro hmode i hused environment persist feed msgs
    exact hfirst.of_usedTo hsteady (hused.trans (usedTo_fed environment (fun _ => rfl) feed msgs i)) (.inl hmode)
  · intro s hused
    have hs := hsteady.of_usedTo hused
    have hheld : ∃ held, s.Holds held := by
      obtain ⟨a, ha, -⟩ := hs
      exact ⟨_, a, ha, a.shared.backend.backend.reachable, rfl⟩
    obtain ⟨held, hheld⟩ := hheld
    exact ⟨_, hheld, fun s' hused' => hheld.of_usedTo hs hused' (.inr rfl)⟩

/-- A backend that another process has filled with one flag. -/
def filledElsewhere : SharedMemory := SharedMemory.empty.replacing [("features", [("a", (Mirror.plainFlag 1).textAt "a")])]

/-- The stores over it, in a mode; it cannot be reached at first. -/
def overFilled (mode : Mode) : Stack (Disturbed SharedMemory) :=
  Settings.stores { Settings.default with mode } (some (.withOutages filledElsewhere (· ≠ 0)))

/-- Someone deletes the flag. -/
def deletion : Access := .write (.upsert .features "a" (.tombstone 9))

/-- All data is replaced by none. -/
def clearing (persist : Bool) : Access := .write (.init ⟨[(.features, [])], persist⟩)

/-- The stores after a call. -/
def after (c : Access) (s : Stack (Disturbed SharedMemory)) : Stack (Disturbed SharedMemory) := (c.run.run s).2

theorem usedTo_after {c : Access} (h : c.Persisted → persisting = true) (s : Stack (Disturbed SharedMemory)) :
    s.UsedTo persisting (s.after c) :=
  .single (.call c h s)

/-- The flag is read, which finds the backend cut off, and then it is found to be back. -/
def foundBack : Stack (Disturbed SharedMemory) := Tiers.step ((overFilled .readOnly).after (.find? .features "a")) .check

/-- A receiver gets all data from a connection. -/
def filling : Session (Layered (Attached Exposed)) Script Unit :=
  ⟨.ofIntake .default (.ofSite foundBack .off), .ofConnections Session.dataThenSign, ()⟩

/-- Someone deletes the flag before each call of a receiver. -/
def deleting : Environment (Layered (Attached Exposed)) Unit := fun _ => modify fun (w, r) =>
  (w, { r with intake := (Intake.onSite deletion.run.run r.intake).2 })

/-- Neither the receiver's data nor the deletions reach the backend that may only be read. Where writing is allowed,
data that is to be persisted replaces what the backend holds, and data that is not leaves that as it is. -/
theorem unwritten_overFilled :
    let replaced := (overFilled .readWrite).after (.find? .features "a") |>.after (clearing true)
    (foundBack.board.health = .recovered ∧ foundBack.Holds filledElsewhere) ∧
      ((Session.run deleting 40 filling).1 = .stopped ∧
        (Session.run deleting 40 filling).2.site.store.memory.initialized = true ∧
        Holds filledElsewhere (Session.run deleting 40 filling).2.site) ∧
      Holds filledElsewhere ((Intake.ofSite foundBack .heard).fed none true .initial (Message.noData 1 "s")).site ∧
      ¬replaced.Holds filledElsewhere ∧ ∃ held, replaced.Holds held ∧ (replaced.after (clearing false)).Holds held := by
  intro replaced
  obtain ⟨hcalls, hruns, hfeeds, -⟩ := unwritten { Settings.default with mode := .readOnly } filledElsewhere (· ≠ 0)
  obtain ⟨-, -, -, hunpersisted⟩ := unwritten { Settings.default with mode := .readWrite } filledElsewhere (· ≠ 0)
  have hfound : (overFilled .readOnly).UsedTo true foundBack :=
    (usedTo_after (fun _ => rfl) _).tail (.check .check trivial _)
  have hothers (call : Call) (w : Unit) (r : Receiver (Layered (Attached Exposed))) :
      UsedTo true r.intake.site (deleting call (w, r)).2.2.intake.site := .single (.call deletion (fun _ => rfl) _)
  have hreplaced : (overFilled .readWrite).UsedTo true replaced :=
    (usedTo_after (fun _ => rfl) _).trans (usedTo_after (fun _ => rfl) _)
  obtain ⟨held, hheld, hkept⟩ := hunpersisted replaced hreplaced
  have hchanged : ¬replaced.Holds filledElsewhere := by
    rintro ⟨a, ha, hsame⟩
    have hafter : replaced.store.beneath.map (fun a => (a.shared.backend.backend.space "features").revision) = some 2 := by
      decide +kernel
    have hbefore : (filledElsewhere.space "features").revision = 1 := by decide +kernel
    rw [ha, Option.map_some, hsame.space, hbefore] at hafter
    exact absurd hafter (by decide)
  exact ⟨⟨by decide +kernel, hcalls rfl foundBack hfound⟩,
    ⟨by decide +kernel, by decide +kernel, hruns rfl deleting filling hfound hothers 40⟩,
    hfeeds rfl (.ofSite foundBack .heard) hfound none true .initial (Message.noData 1 "s"), hchanged, held, hheld,
    hkept _ (usedTo_after id replaced)⟩

end Stack

end FlagDelivery
