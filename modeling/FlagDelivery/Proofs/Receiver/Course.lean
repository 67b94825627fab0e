import FlagDelivery.Proofs.Receiver.Runs
import FlagDelivery.Proofs.Store.Postings

/-!
# The course of a run

A run goes on in the presence of others, who use its store, post on the board and cancel the receiver: `Interference`.
The course of a run is where it stands after each number of steps, when others act before every step and may do
something else each time, `Session.course`. The environment of a run acts before its calls only, so each run is a course
of its own, `Session.run_eq_course`; in a course others may also act between a decision of the receiver and the call
that follows from it.
-/

namespace FlagDelivery

/-- What others do before a step of a receiver: they change its store, post on the board and may cancel the receiver.
They know all of it, and keep a world of their own. -/
structure Interference (σ ω : Type) where
  act : ω → Receiver σ → ω × Site σ × Bool
  later : ∀ w (r : Receiver σ), r.intake.site.board.Later (act w r).2.1.board

namespace Interference

variable {σ ω : Type}

/-- What others do as an operation on the world and the receiver. -/
def op (i : Interference σ ω) : StateM (ω × Receiver σ) Unit := modify fun (w, r) =>
  let (w, site, cancelled) := i.act w r
  (w, { r with intake := { r.intake with site }, cancelled })

/-- Others do nothing. -/
def idle : Interference σ ω := ⟨fun w r => (w, r.intake.site, r.cancelled), fun _ r => .refl r.intake.site.board⟩

/-- Others do nothing to the store, but may cancel the receiver. -/
def cancelling (cancel : Bool) : Interference σ ω :=
  ⟨fun w r => (w, r.intake.site, r.cancelled || cancel), fun _ r => .refl r.intake.site.board⟩

/-- Others post a health on the board. -/
def posting (h : Health) : Interference σ ω where
  act w r := (w, { r.intake.site with board := (Board.post h r.intake.site.board).2 }, r.cancelled)
  later _ r := Board.later_post h r.intake.site.board

end Interference

/-- What others do before each step, which may depend on the stage. -/
abbrev Others (σ ω : Type) := Nat → Stage → Interference σ ω

/-- The call that is made next in a stage. -/
def Stage.call? : Stage → Option Call
  | .connecting resume => some (.connect resume)
  | .reading _ => some .next
  | .closing _ _ => some .close
  | _ => none

/-- Others who act before calls only. -/
def Others.ofCalls {σ ω : Type} (env : Call → Interference σ ω) : Others σ ω := fun _ stage => stage.call?.elim .idle env

/-- A complete set of data without any item, as it is sent: its declaration, and its end, which names a point. -/
def Message.noData (version : Int) (state : String) : List Message :=
  [⟨"server-intent",
    .obj [("payloads", .arr [.obj [("id", .str "p"), ("intentCode", .str "xfer-full"), ("target", .int version)]])]⟩,
    ⟨"payload-transferred", .obj [("state", .str state), ("version", .int version)]⟩]

/-! ## What a receiver decides on -/

namespace Receiver

variable {σ : Type}

/-- The receiver once it has taken note of its board. -/
def upToBoard (r : Receiver σ) : Receiver σ := { r with seen := r.intake.site.board.posts }

/-- A receiver leaves a connection that is cancelled, and one with the end of an outage unseen on the board; otherwise
it waits for a message. -/
theorem listen_apply (applied : Bool) (r : Receiver σ) : listen applied r =
    if r.cancelled then (.closing false applied, r)
    else if r.intake.site.board.posts = r.seen then (.reading applied, r)
    else if r.intake.site.board.health = .recovered then (.closing true applied, r.upToBoard)
    else (.reading applied, r.upToBoard) := by
  by_cases hc : r.cancelled
  · simp [listen, hc]
  by_cases hp : r.intake.site.board.posts = r.seen
  · simp [listen, hc, hp]
  by_cases hl : r.intake.site.board.health = .recovered
  · simp [listen, hc, hp, hl, lookAtBoard, upToBoard]
  · simp [listen, hc, hp, hl, lookAtBoard, upToBoard]

/-- The answer to an attempt to connect leads to a message, to another attempt or to the end. -/
theorem connected_cases (answer : Except DeliveryError Unit) (r : Receiver σ) :
    ((connected answer r).1 = .listening false ∨ (connected answer r).1 = .opening ∨ (connected answer r).1 = .stopped) ∧
      (connected answer r).2.core = r.core := by
  cases answer with
  | ok u => exact ⟨.inl (connected_ok r).1, (connected_ok r).2⟩
  | error e => exact ⟨.inr (connected_error e r).1, (connected_error e r).2⟩

variable [DataStore σ]

/-- The answer to a wait for a message leads to the next message or to the end of the connection. -/
theorem received_cases (applied : Bool) (answer : Except DeliveryError (Option Message)) (r : Receiver σ) :
    (∃ applied', (received applied answer r).1 = .listening applied') ∨
      ∃ again, (received applied answer r).1 = .closing again applied := by
  rcases answer with e | _ | msg
  · exact .inr ⟨_, (received_error applied e r).1⟩
  · exact .inr ⟨_, (received_none applied r).1⟩
  · exact (received_some_fst applied msg r).imp_right fun h => ⟨true, h⟩

/-- The selector that the receiver would connect with. -/
def resumption (r : Receiver σ) : Selector :=
  if r.intake.site.board.health.refreshNeeded then .empty else r.intake.selector

/-- A connection is based on what the receiver resumes from, with the board seen. -/
theorem basis_apply (r : Receiver σ) : basis r = (r.resumption, r.upToBoard) := by
  have hlook : lookAtBoard r = (r.intake.site.board.health, r.upToBoard) := rfl
  by_cases h : r.intake.site.board.health.refreshNeeded
  · simp [basis, resumption, hlook, h]
  · simp [basis, resumption, hlook, h]
    rfl

/-- The receiver once it has decided to connect. -/
def dialled (r : Receiver σ) : Receiver σ := { r.upToBoard with machine := .initial }

/-- The receiver once an attempt to connect again was counted. -/
def retrying (r : Receiver σ) : Receiver σ := { r with tally := { r.tally with reconnects := r.tally.reconnects + 1 } }

/-- A receiver that was cancelled stops. Otherwise it connects, if its policy allows another attempt, and gives up with
its data source off if not. -/
theorem dial_apply (r : Receiver σ) : dial r =
    if r.cancelled then (.stopped, r)
    else if r.failures = 0 then (.connecting r.resumption, r.dialled)
    else if r.settings.reconnect.allows r.failures then (.connecting r.resumption, r.retrying.dialled)
    else (.stopped, (onIntake (Intake.report .off none) r).2) := by
  by_cases hc : r.cancelled
  · simp [dial, hc]
  by_cases hf : r.failures = 0
  · simp [dial, hc, hf, basis_apply, dialled]
  · cases ha : r.settings.reconnect.allows r.failures with
    | true =>
      simp [dial, hc, hf, Nat.pos_of_ne_zero hf, ha, basis_apply, dialled, count, retrying]
      rfl
    | false => simp [dial, hc, hf, Nat.pos_of_ne_zero hf, ha]

end Receiver

/-! ## What others do -/

namespace Session

variable {σ ς ω : Type}

/-- The board of the receiver's store. -/
abbrev board (s : Session σ ς ω) : Board := s.receiver.intake.site.board

/-- The environment of a session in which nothing happens during a step. -/
def alone : Environment σ ω := fun _ => pure ()

/-- The session once others have acted. -/
def met (i : Interference σ ω) (s : Session σ ς ω) : Session σ ς ω := (onWorld i.op s).2

/-- Others only post on the board. -/
theorem later_met (i : Interference σ ω) (s : Session σ ς ω) : s.board.Later (s.met i).board := i.later s.world s.receiver

variable [DataStore σ] [Source ς]

/-- Where a run stands after so many steps. -/
def course (others : Others σ ω) (s : Session σ ς ω) : Nat → Stage × Session σ ς ω
  | 0 => (.opening, (onReceiver Receiver.start s).2)
  | n + 1 =>
    let (stage, s) := course others s n
    step alone stage (s.met (others n stage))

/-- What the step after so many finds once others have acted. -/
def found (others : Others σ ω) (s : Session σ ς ω) (n : Nat) : Session σ ς ω :=
  (course others s n).2.met (others n (course others s n).1)

/-- Only a decision leads to an attempt to connect, with the selector that the receiver resumes from. -/
theorem resume_of_step {stage : Stage} {resume : Selector} {s : Session σ ς ω}
    (h : (step alone stage s).1 = .connecting resume) :
    stage = .opening ∧ resume = s.receiver.resumption := by
  cases stage with
  | opening =>
    refine ⟨rfl, ?_⟩
    rw [step_opening, Receiver.dial_apply] at h
    split at h
    · cases h
    · split at h
      · exact (Stage.connecting.inj h).symm
      · split at h
        · exact (Stage.connecting.inj h).symm
        · cases h
  | connecting resume' =>
    obtain ⟨hs | hs | hs, -⟩ := Receiver.connected_cases (Source.connect resume' s.source).1 s.receiver <;>
      exact nomatch hs.symm.trans h
  | listening applied =>
    obtain hs | ⟨again, hs⟩ := Receiver.listen_fst applied s.receiver <;> exact nomatch hs.symm.trans h
  | reading applied =>
    obtain ⟨applied', hs⟩ | ⟨again, hs⟩ := Receiver.received_cases applied (Source.next s.source).1 s.receiver <;>
      exact nomatch hs.symm.trans h
  | closing again applied => cases again <;> cases h
  | stopped => cases h

variable {others : Others σ ω} {s : Session σ ς ω}

/-- A step of a course is one of the receiver, from what others left. -/
theorem course_succ (n : Nat) : course others s (n + 1) = step alone (course others s n).1 (found others s n) := rfl

/-- What the actions of others keep and each step keeps holds in the whole course. -/
theorem course_preserves {P : Stage → Session σ ς ω → Prop} (hstart : P .opening (onReceiver Receiver.start s).2)
    (hmet : ∀ i stage s, P stage s → P stage (s.met i))
    (hstep : ∀ stage s, P stage s → P (step alone stage s).1 (step alone stage s).2)
    (n : Nat) : P (course others s n).1 (course others s n).2 := by
  induction n with
  | zero => exact hstart
  | succ n ih => exact hstep _ _ (hmet _ _ _ ih)

/-! ## Runs are courses -/

variable {env : Environment σ ω}

/-- A stopped receiver takes no more steps, so the last step of a run may be taken apart. -/
theorem runFrom_concat (fuel : Nat) (stage : Stage) (s : Session σ ς ω) :
    runFrom env (fuel + 1) stage s = step env (runFrom env fuel stage s).1 (runFrom env fuel stage s).2 := by
  induction fuel generalizing stage s with
  | zero =>
    by_cases hs : stage = .stopped
    · subst hs
      rfl
    · rw [runFrom_succ 0 hs]
      rfl
  | succ fuel ih =>
    by_cases hs : stage = .stopped
    · subst hs
      rw [runFrom_stopped, runFrom_stopped]
      rfl
    · rw [runFrom_succ (fuel + 1) hs, runFrom_succ fuel hs]
      exact ih _ _

/-- A step in whose calls others act is a step that follows their action. -/
theorem step_ofCalls (env : Call → Interference σ ω) (n : Nat) (stage : Stage) (s : Session σ ς ω) :
    step (fun call => (env call).op) stage s = step alone stage (s.met (Others.ofCalls env n stage)) := by
  cases stage <;> rfl

/-- A run in an environment that only interferes goes as the course in which others act before its calls. -/
theorem run_eq_course (env : Call → Interference σ ω) (fuel : Nat) (s : Session σ ς ω) :
    run (fun call => (env call).op) fuel s = course (.ofCalls env) s fuel := by
  induction fuel with
  | zero => rfl
  | succ fuel ih =>
    have hlast : run (fun call => (env call).op) (fuel + 1) s =
        step (fun call => (env call).op) (run (fun call => (env call).op) fuel s).1
          (run (fun call => (env call).op) fuel s).2 :=
      runFrom_concat fuel .opening _
    rw [hlast, ih, step_ofCalls env fuel]
    rfl

end Session

end FlagDelivery
