import FlagDelivery.Proofs.Intake.Applying
import FlagDelivery.Proofs.Receiver.Connections
import FlagDelivery.Proofs.Receiver.Course

/-!
# How a data source stands in the course of a run

Each action of a receiver makes at most one report, `Receiver.Reported`: of data that was accepted, of a failure that
may pass, or of the end of the run. So between two steps the state of the data source stays or moves once along
`SourceState.next`, and what is claimed of the state follows from what was done before: `Session.standing_course`.
-/

namespace FlagDelivery

/-- The states that a data source may move to from a state. -/
def SourceState.next : SourceState → List SourceState
  | .initializing | .interrupted => [.valid, .off]
  | .valid => [.interrupted, .off]
  | .off => []

/-- Nothing more is asked of the source than to close its connection. -/
def Stage.IsFinal : Stage → Prop
  | .stopped | .closing false _ => True
  | _ => False

/-- One standing comes after another without a report in between, or with one that is allowed for. -/
def Standing.Moves (s s' : Standing) : Prop :=
  (s'.state = s.state ∧ s'.moves = s.moves) ∨ (s'.state ∈ s.state.next ∧ s'.moves = s.moves + 1)

namespace Standing

variable {s : Standing}

theorem Moves.refl (s : Standing) : s.Moves s := .inl ⟨rfl, rfl⟩

/-- A data source that is not off moves as it may, whatever is reported of it but that it starts. -/
theorem moves_of_told {reported : SourceState} (error : Option ErrorReport) (hs : s.state ≠ .off)
    (hr : reported ≠ .initializing) : s.Moves (s.told reported error) := by
  have hmoves := s.moves_told reported error
  rw [state_told] at hmoves
  by_cases h : Intake.nextState s.state reported = s.state
  · exact .inl ⟨(state_told ..).trans h, by rw [hmoves, if_pos h]⟩
  · refine .inr ⟨?_, by rw [hmoves, if_neg h]⟩
    rw [state_told]
    revert h hs hr
    cases s.state <;> cases reported <;> decide

/-- Nothing leads back to the start. -/
theorem Moves.state_ne_initializing {s' : Standing} (h : s.Moves s') (hs : s.state ≠ .initializing) :
    s'.state ≠ .initializing := by
  rcases h with ⟨hstate, -⟩ | ⟨hstate, -⟩
  · exact hstate ▸ hs
  · revert hstate
    cases s.state <;> cases s'.state <;> decide

end Standing

/-! ## What is reported -/

/-- What a receiver has brought about: how its data source stands, and how many change sets were applied. -/
structure Progress where
  standing : Standing
  applied : Nat

/-- All that an action of a receiver can report, if it leads to a stage. -/
inductive Progress.Reported (p : Progress) (stage : Stage) : Progress → Prop where
  | nothing : Reported p stage p
  | accepted : Reported p stage ⟨p.standing.told .valid none, p.applied + 1⟩
  | failed (e : ErrorReport) : Reported p stage ⟨p.standing.told .interrupted (some e), p.applied⟩
  | ended (e : Option ErrorReport) (final : stage.IsFinal) : Reported p stage ⟨p.standing.told .off e, p.applied⟩

namespace Receiver

variable {σ : Type}

/-- What the receiver has brought about. -/
def progress (r : Receiver σ) : Progress := ⟨r.intake.standing, r.tally.applied⟩

/-- A report tells the standing and brings nothing else about. -/
theorem progress_report (reported : SourceState) (error : Option ErrorReport) (r : Receiver σ) :
    (onIntake (Intake.report reported error) r).2.progress =
      ⟨r.progress.standing.told reported error, r.progress.applied⟩ := by
  simp [progress, onIntake]

/-- A failure that does not pass ends the run. -/
theorem reported_fail (e : DeliveryError) (r : Receiver σ) {stage : Stage} (h : (fail e r).1 = false → stage.IsFinal) :
    r.progress.Reported stage (fail e r).2.progress := by
  by_cases hc : e = .cancelled
  · have hfail : fail e r = (false, r) := by simp [fail, hc]
    rw [hfail]
    exact .nothing
  · have hfail : fail e r = (e.isRetryable, (onIntake (Intake.report (if e.isRetryable then .interrupted else .off)
        (some (.ofError e))) (record e.message r).2).2) := by simp [fail, hc]
    rw [hfail] at h ⊢
    simp only [progress_report]
    cases hr : e.isRetryable with
    | true => exact .failed (.ofError e)
    | false => exact .ended (some (.ofError e)) (h hr)

/-- An attempt to connect reports its failure, if it fails. -/
theorem reported_connected (answer : Except DeliveryError Unit) (r : Receiver σ) :
    r.progress.Reported (connected answer r).1 (connected answer r).2.progress := by
  cases answer with
  | ok u => exact .nothing
  | error e =>
    cases hr : (fail e r).1 with
    | true =>
      have hfail : r.progress.Reported .opening (fail e r).2.progress := reported_fail e r fun h => nomatch hr.symm.trans h
      simp only [connected, StoreM.bind_apply, hr, StoreM.ite_apply, if_true, StoreM.modify_apply, StoreM.pure_apply]
      exact hfail
    | false =>
      have hfail : r.progress.Reported .stopped (fail e r).2.progress := reported_fail e r fun _ => trivial
      simp only [connected, StoreM.bind_apply, hr, StoreM.ite_apply, StoreM.pure_apply]
      exact hfail

/-- Deciding on the next message reports nothing. -/
theorem reported_listen (applied : Bool) (r : Receiver σ) :
    r.progress.Reported (listen applied r).1 (listen applied r).2.progress := by
  rw [listen_apply]
  split
  · exact .nothing
  · split
    · exact .nothing
    · split <;> exact .nothing

theorem reported_closed (again applied : Bool) (r : Receiver σ) :
    r.progress.Reported (closed again applied r).1 (closed again applied r).2.progress := by
  cases again <;> exact .nothing

variable [DataStore σ]

/-- Attempts are given up with a report; nothing else is reported while a connection is decided on. -/
theorem reported_dial (r : Receiver σ) : r.progress.Reported (dial r).1 (dial r).2.progress := by
  rw [dial_apply]
  split
  · exact .nothing
  · split
    · exact .nothing
    · split
      · exact .nothing
      · simp only [progress_report]
        exact .ended none trivial

/-- A change set that was accepted is counted as applied. -/
theorem reported_deliver (c : ChangeSet) (r : Receiver σ) (stage : Stage) :
    r.progress.Reported stage (deliver c r).2.progress := by
  obtain ⟨ha, hs⟩ | ⟨e, ha, hs⟩ := Intake.told_apply (r.settings.batch c) r.intake
  · have hp : (deliver c r).2.progress = ⟨r.progress.standing.told .valid none, r.progress.applied + 1⟩ := by
      simp only [Settings.batch] at ha hs
      simp [deliver, onIntake, count, progress, ha, hs]
    rw [hp]
    exact .accepted
  · have hp : (deliver c r).2.progress = ⟨r.progress.standing.told .interrupted (some e), r.progress.applied⟩ := by
      simp only [Settings.batch] at ha hs
      simp [deliver, onIntake, count, progress, ha, hs]
    rw [hp]
    exact .failed e

/-- What the machine answers is reported once: data that is accepted, or a failure. -/
theorem reported_act (applied : Bool) (action : Action) (r : Receiver σ) :
    r.progress.Reported (act applied action r).1 (act applied action r).2.progress := by
  cases action with
  | deliver c => exact reported_deliver c r _
  | refuse e =>
    have hact : (act applied (.refuse e) r).2.progress =
        ⟨r.progress.standing.told .interrupted
          (some (.described (Intake.complaintKind e.complaint) "Internal error during FDv2 event processing")),
          r.progress.applied⟩ := progress_report _ _ _
    rw [hact]
    exact .failed _
  | _ => exact .nothing

/-- An answer to a wait is reported once at most. -/
theorem reported_received (applied : Bool) (answer : Except DeliveryError (Option Message)) (r : Receiver σ) :
    r.progress.Reported (received applied answer r).1 (received applied answer r).2.progress := by
  rcases answer with e | _ | msg
  · refine reported_fail e r ?_
    intro h
    simp [received, h, Stage.IsFinal]
  · have hover :
        (received applied (.ok none) r).2.progress = ⟨r.progress.standing.told .interrupted (some (.described .network
        "stream closed by the server")), r.progress.applied⟩ := progress_report _ _ _
    rw [hover]
    exact .failed _
  · exact reported_act applied (r.machine.receive msg).1 (r.afterMessage msg)

end Receiver

/-! ## What holds between two steps -/

/-- The data source was filled before it is said to be valid or interrupted, has an error to show for an interruption,
and is off only where nothing more is asked of the source. -/
structure Progress.Sound (stage : Stage) (p : Progress) : Prop where
  applied : p.standing.state = .valid ∨ p.standing.state = .interrupted → 0 < p.applied
  error : p.standing.state = .interrupted → p.standing.lastError.isSome
  final : p.standing.state = .off → stage.IsFinal

namespace Progress

variable {p p' : Progress} {stage stage' : Stage}

theorem sound_initial (applied : Nat) : Sound .opening ⟨.initial, applied⟩ where
  applied h := by rcases h with h | h <;> cases h
  error h := nomatch h
  final h := nomatch h

/-- A report keeps this, as long as the data source is not off. -/
theorem Sound.reported (h : p.Sound stage) (hoff : p.standing.state ≠ .off) (hr : p.Reported stage' p') :
    p'.Sound stage' := by
  cases hr with
  | nothing => exact ⟨h.applied, h.error, fun hs => absurd hs hoff⟩
  | accepted =>
    have hstate : (p.standing.told .valid none).state = .valid := Standing.state_told ..
    refine ⟨fun _ => Nat.succ_pos _, ?_, ?_⟩
    · intro hs
      exact nomatch hstate.symm.trans hs
    · intro hs
      exact nomatch hstate.symm.trans hs
  | failed e =>
    have herror : (p.standing.told .interrupted (some e)).lastError.isSome := by simp [Standing.lastError_told]
    have hstate := p.standing.state_told .interrupted (some e)
    -- Only a data source that was filled is interrupted; one that is initializing goes on with that.
    by_cases hfilled : p.standing.state = .valid ∨ p.standing.state = .interrupted
    · refine ⟨fun _ => h.applied hfilled, fun _ => herror, ?_⟩
      intro hs
      rcases hfilled with hf | hf <;> rw [hf] at hstate <;> exact nomatch hstate.symm.trans hs
    · have hinit : p.standing.state = .initializing := by
        revert hfilled hoff
        cases p.standing.state <;> decide
      have hsame : (p.standing.told .interrupted (some e)).state = .initializing := hstate.trans (by rw [hinit]; rfl)
      refine ⟨?_, fun _ => herror, ?_⟩
      · rintro (hs | hs) <;> exact nomatch hsame.symm.trans hs
      · intro hs
        exact nomatch hsame.symm.trans hs
  | ended e final =>
    have hstate : (p.standing.told .off e).state = .off := Standing.state_told ..
    refine ⟨?_, ?_, fun _ => final⟩
    · rintro (hs | hs) <;> exact nomatch hstate.symm.trans hs
    · intro hs
      exact nomatch hstate.symm.trans hs

/-- A report, before the data source is off, moves the standing as is allowed. -/
theorem Reported.moves (hoff : p.standing.state ≠ .off) (hr : p.Reported stage' p') : p.standing.Moves p'.standing := by
  cases hr with
  | nothing => exact .refl _
  | accepted => exact Standing.moves_of_told none hoff nofun
  | failed e => exact Standing.moves_of_told (some e) hoff nofun
  | ended e final => exact Standing.moves_of_told e hoff nofun

/-- An error that was recorded gives way to nothing but another one. -/
theorem Reported.lastError (hr : p.Reported stage' p') (h : p.standing.lastError.isSome) : p'.standing.lastError.isSome := by
  cases hr with
  | nothing => exact h
  | _ => simp [Standing.lastError_told, h]

end Progress

namespace Session

variable {σ ς ω : Type} [DataStore σ] [Source ς]

/-- A step reports what its action does. -/
theorem reported_step (stage : Stage) (s : Session σ ς ω) :
    s.receiver.progress.Reported (step alone stage s).1 (step alone stage s).2.receiver.progress := by
  cases stage with
  | opening => exact Receiver.reported_dial s.receiver
  | connecting resume => exact Receiver.reported_connected _ s.receiver
  | listening applied => exact Receiver.reported_listen applied s.receiver
  | reading applied => exact Receiver.reported_received applied _ s.receiver
  | closing again applied => exact Receiver.reported_closed again applied s.receiver
  | stopped => exact .nothing

/-- From a final stage on the receiver does nothing. -/
theorem step_final {stage : Stage} (h : stage.IsFinal) (s : Session σ ς ω) :
    (step alone stage s).1 = .stopped ∧ (step alone stage s).2.receiver = s.receiver := by
  cases stage with
  | closing again applied =>
    cases again with
    | true => exact h.elim
    | false => exact ⟨rfl, rfl⟩
  | stopped => exact ⟨rfl, rfl⟩
  | _ => exact h.elim

/-- A step keeps the data source sound and moves its standing as is allowed. -/
theorem sound_step {stage : Stage} {s : Session σ ς ω} (h : s.receiver.progress.Sound stage) :
    (step alone stage s).2.receiver.progress.Sound (step alone stage s).1 ∧
      s.receiver.progress.standing.Moves (step alone stage s).2.receiver.progress.standing := by
  by_cases hoff : s.receiver.progress.standing.state = .off
  · obtain ⟨hstage, hr⟩ := step_final (h.final hoff) s
    rw [hstage, hr]
    exact ⟨⟨h.applied, h.error, fun _ => trivial⟩, .refl _⟩
  · have hr := reported_step stage s
    exact ⟨h.reported hoff hr, hr.moves hoff⟩

variable {others : Others σ ω} {s : Session σ ς ω}

/-- The data source is sound all along a course. -/
theorem sound_course (h : s.receiver.progress.standing = .initial) (n : Nat) :
    (course others s n).2.receiver.progress.Sound (course others s n).1 := by
  refine course_preserves (P := fun stage s => s.receiver.progress.Sound stage) ?_ (fun _ _ _ => id)
    (fun _ _ h => (sound_step h).1) n
  have hstart : ((onReceiver Receiver.start s).2 : Session σ ς ω).receiver.progress = ⟨.initial, s.receiver.tally.applied⟩ :=
    congrArg (Progress.mk · s.receiver.tally.applied) h
  rw [hstart]
  exact Progress.sound_initial _

/-- **How the data source stands**, for a receiver with a fresh intake, whatever its source, its store and others do, in
seven parts.
1. It starts out initializing, without an error.
2. Between two steps its state stays or moves once as `SourceState.next` allows.
3. Once it has left it, it is not initializing again.
4. It is valid or interrupted only if a change set was applied before.
5. It is interrupted only with an error on record.
6. There is an error on record ever after one was recorded.
7. Once it is off, the receiver opens no connection and reads from none, hands no batch to its store, counts nothing and
   reports nothing any more. -/
theorem standing_course (settings : Settings) (site : Site σ) (announcing : Announcing) (source : ς) (world : ω)
    (others : Others σ ω) :
    let start : Session σ ς ω := ⟨.ofIntake settings (.ofSite site announcing), source, world⟩
    let stage n := (course others start n).1
    let receiver n := (course others start n).2.receiver
    let standing n := (receiver n).intake.standing
    standing 0 = .initial ∧
      (∀ n, (standing n).Moves (standing (n + 1))) ∧
      (∀ n k, n ≤ k → (standing n).state ≠ .initializing → (standing k).state ≠ .initializing) ∧
      (∀ n, (standing n).state = .valid ∨ (standing n).state = .interrupted → 0 < (receiver n).tally.applied) ∧
      (∀ n, (standing n).state = .interrupted → (standing n).lastError.isSome) ∧
      (∀ n k, n ≤ k → (standing n).lastError.isSome → (standing k).lastError.isSome) ∧
      ∀ n k, n ≤ k → (standing n).state = .off → (stage k).IsFinal ∧ standing k = standing n ∧
        (receiver k).intake.handed = (receiver n).intake.handed ∧ (receiver k).tally = (receiver n).tally := by
  intro start stage receiver standing
  have hsound (n : Nat) : (receiver n).progress.Sound (stage n) := sound_course rfl n
  have hmoves (n : Nat) : (standing n).Moves (standing (n + 1)) := (sound_step (s := found others start n) (hsound n)).2
  refine ⟨rfl, hmoves, ?_, fun n => (hsound n).applied, fun n => (hsound n).error, ?_, ?_⟩
  · intro n k hk hn
    induction hk with
    | refl => exact hn
    | step _ ih => exact (hmoves _).state_ne_initializing ih
  · intro n k hk hn
    induction hk with
    | refl => exact hn
    | step _ ih => exact (reported_step (stage _) (found others start _)).lastError ih
  · intro n k hk hoff
    induction hk with
    | refl => exact ⟨(hsound n).final hoff, rfl, rfl, rfl⟩
    | @step k _ ih =>
      obtain ⟨hfinal, hstanding, hhanded, htally⟩ := ih
      obtain ⟨hstage, hreceiver⟩ := step_final hfinal (found others start k)
      have hstop : stage (k + 1) = .stopped := hstage
      exact ⟨hstop ▸ trivial, (congrArg (·.intake.standing) hreceiver).trans hstanding,
        (congrArg (·.intake.handed) hreceiver).trans hhanded, (congrArg Receiver.tally hreceiver).trans htally⟩

/-- A connection that brings all data and is closed by the server, and an attempt to open another one that is refused
for good. -/
def closedThenRefused : List ScriptConnection := [.accept ((Message.noData 1 "s").map .message), .refuse (.status 401)]

/-- The course of a run over it that nobody disturbs. -/
def refusedCourse : Nat → Stage × Session (Layered (Attached (Guarded SharedMemory))) Script Unit :=
  course (fun _ _ => .idle)
    ⟨.ofIntake .default (.ofSite (Settings.default.stores none) .off), .ofConnections closedThenRefused, ()⟩

/-- The data source is valid after the data was applied, interrupted after the connection was closed, and off after the
refusal; the error of the interruption is followed by that of the refusal, which stays. -/
theorem standing_course_closedThenRefused :
    let stage n := (refusedCourse n).1
    let receiver n := (refusedCourse n).2.receiver
    let standing n := (receiver n).intake.standing
    ((standing 6).state = .valid ∧ 0 < (receiver 6).tally.applied ∧ (standing 20).state ≠ .initializing) ∧
      ((standing 8).state = .interrupted ∧ 0 < (receiver 8).tally.applied ∧ (standing 8).lastError.isSome ∧
        (standing 20).lastError.isSome) ∧
      (standing 11).state = .off ∧ (stage 20).IsFinal ∧ standing 20 = standing 11 ∧
        (receiver 20).tally = (receiver 11).tally := by
  intro stage receiver standing
  obtain ⟨-, -, hleft, happlied, herror, hkept, hoff⟩ :=
    standing_course .default (Settings.default.stores none) .off (Script.ofConnections closedThenRefused) ()
      fun _ _ => (.idle : Interference (Layered (Attached (Guarded SharedMemory))) Unit)
  have hvalid : (standing 6).state = .valid := rfl
  have hinterrupted : (standing 8).state = .interrupted := rfl
  have hover : (standing 11).state = .off := rfl
  obtain ⟨hfinal, hstanding, -, htally⟩ := hoff 11 20 (by decide) hover
  have hlater : (standing 20).state ≠ .initializing := hleft 6 20 (by decide) fun h => nomatch hvalid.symm.trans h
  have hshown : (standing 8).lastError.isSome := herror 8 hinterrupted
  exact ⟨⟨hvalid, happlied 6 (.inl hvalid), hlater⟩,
    ⟨hinterrupted, happlied 8 (.inr hinterrupted), hshown, hkept 8 20 (by decide) hshown⟩, hover, hfinal, hstanding, htally⟩

end Session

end FlagDelivery
