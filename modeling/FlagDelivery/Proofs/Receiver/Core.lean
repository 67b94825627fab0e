import FlagDelivery.Proofs.Running
import FlagDelivery.Proofs.Transfer.Deliveries
import FlagDelivery.Receiver.Run

/-!
# What the actions of a receiver do

`Receiver.Core` is a receiver without what it reports and counts. For each action there are lemmas on the stage that it
leads to and on the core that it leaves; nothing else of an action matters for the data that a run leaves in the store.
-/

namespace FlagDelivery

namespace Receiver

variable {σ : Type}

/-- What a receiver acts on: all of it but the state of the data source, announcements and counts. -/
structure Core (σ : Type) where
  settings : Settings
  site : Site σ
  handed : List Batch
  machine : Machine
  seen : Nat
  cancelled : Bool

/-- The core of a receiver. -/
def core (r : Receiver σ) : Core σ :=
  ⟨r.settings, r.intake.site, r.intake.handed, r.machine, r.seen, r.cancelled⟩

/-- Counting does not touch the core. -/
@[simp] theorem core_count (f : Tally → Tally) (r : Receiver σ) : (count f r).2.core = r.core := rfl

@[simp] theorem core_record (message : String) (r : Receiver σ) : (record message r).2.core = r.core := rfl

/-- A report of the data source's state leaves the core as it is. -/
@[simp] theorem core_report (reported : SourceState) (error : Option ErrorReport) (r : Receiver σ) :
    (onIntake (Intake.report reported error) r).2.core = r.core := by
  simp only [onIntake, StoreM.focus_apply, Intake.report, StoreM.modify_apply, core]
  split <;> rfl

@[simp] theorem core_fail (e : DeliveryError) (r : Receiver σ) : (fail e r).2.core = r.core := by
  by_cases h : e = .cancelled <;> simp [fail, h]

/-- A connection that was opened is listened to. -/
theorem connected_ok (r : Receiver σ) :
    (connected (.ok ()) r).1 = .listening false ∧ (connected (.ok ()) r).2.core = r.core :=
  ⟨rfl, rfl⟩

/-- After an attempt to connect that failed, another connection is decided on or the receiver has stopped. -/
theorem connected_error (e : DeliveryError) (r : Receiver σ) :
    ((connected (.error e) r).1 = .opening ∨ (connected (.error e) r).1 = .stopped) ∧
      (connected (.error e) r).2.core = r.core := by
  cases ha : (fail e r).1 with
  | true =>
    refine ⟨.inl (by simp [connected, ha]), ?_⟩
    simp only [connected, StoreM.bind_apply, ha, StoreM.ite_apply, if_true]
    exact core_fail e r
  | false => simp [connected, ha]

/-- A source that was closed by its owner ends the run. -/
theorem connected_cancelled (r : Receiver σ) : (connected (.error .cancelled) r).1 = .stopped := by
  simp [connected, fail]

/-- Deciding on the next message leads to a wait for it or to the end of the connection. -/
theorem listen_fst (applied : Bool) (r : Receiver σ) :
    (listen applied r).1 = .reading applied ∨ ∃ again, (listen applied r).1 = .closing again applied := by
  by_cases hc : r.cancelled
  · simp [listen, hc]
  by_cases hp : r.intake.site.board.posts = r.seen
  · simp [listen, hc, hp]
  by_cases hl : (lookAtBoard r).1 = .recovered
  · simp [listen, hc, hp, hl]
  · simp [listen, hc, hp, hl]

/-- With nothing new on the board a receiver that was not cancelled reads on. -/
theorem listen_eq (applied : Bool) {r : Receiver σ} (hc : r.cancelled = false) (hs : r.seen = r.intake.site.board.posts) :
    listen applied r = (.reading applied, r) := by
  simp [listen, hc, hs]

/-- The end of a connection leads to the next one, or the receiver has stopped. -/
theorem closed_cases (again applied : Bool) (r : Receiver σ) :
    ((closed again applied r).1 = .opening ∨ (closed again applied r).1 = .stopped) ∧
      (closed again applied r).2.core = r.core := by
  cases again with
  | true => exact ⟨.inl rfl, rfl⟩
  | false => exact ⟨.inr rfl, rfl⟩

/-- The receiver once a message was counted and followed, before it does what the machine answers. -/
def afterMessage (msg : Message) (r : Receiver σ) : Receiver σ :=
  { (count (fun t => { t with events := t.events + 1 }) r).2 with machine := (r.machine.receive msg).2 }

variable [DataStore σ]

/-- Choosing a selector takes note of the board. -/
theorem core_basis (r : Receiver σ) : (basis r).2.core = { r.core with seen := r.core.site.board.posts } := by
  unfold basis
  simp only [StoreM.bind_apply, StoreM.ite_apply, StoreM.pure_apply, StoreM.get_apply]
  split <;> rfl

/-- A receiver that decides on a connection stops, or it connects with a fresh machine and has taken note of the board. -/
theorem dial_cases (r : Receiver σ) :
    ((dial r).1 = .stopped ∧ (dial r).2.core = r.core) ∨
      ∃ resume, (dial r).1 = .connecting resume ∧
        (dial r).2.core = { r.core with machine := .initial, seen := r.core.site.board.posts } := by
  have hbasis (r : Receiver σ) : ({ (basis r).2 with machine := .initial } : Receiver σ).core =
      { r.core with machine := .initial, seen := r.core.site.board.posts } :=
    congrArg (fun c : Core σ => { c with machine := .initial }) (core_basis r)
  by_cases hc : r.cancelled
  · simp [dial, hc]
  by_cases hf : 0 < r.failures
  · cases ha : r.settings.reconnect.allows r.failures with
    | true =>
      refine .inr ⟨_, by simp [dial, hc, hf, ha]; rfl, ?_⟩
      simp [dial, hc, hf, ha, hbasis]
    | false => simp [dial, hc, hf, ha]
  · refine .inr ⟨_, by simp [dial, hc, hf]; rfl, ?_⟩
    simp [dial, hc, hf, hbasis]

/-- A connection that the server closed is left. -/
theorem received_none (applied : Bool) (r : Receiver σ) :
    (received applied (.ok none) r).1 = .closing true applied ∧ (received applied (.ok none) r).2.core = r.core := by
  simp [received]

/-- A connection that failed is left. -/
theorem received_error (applied : Bool) (e : DeliveryError) (r : Receiver σ) :
    (received applied (.error e) r).1 = .closing (fail e r).1 applied ∧ (received applied (.error e) r).2.core = r.core := by
  simp [received]

/-- A message is followed by the machine, whose answer decides what is done. -/
theorem received_some (applied : Bool) (msg : Message) (r : Receiver σ) :
    received applied (.ok (some msg)) r = act applied (r.machine.receive msg).1 (r.afterMessage msg) := rfl

/-- A farewell and a refusal lead to the end of the connection, every other answer to the next message. -/
theorem act_fst (applied : Bool) (action : Action) (r : Receiver σ) :
    if action.ends then (act applied action r).1 = .closing true applied
    else ∃ applied', (act applied action r).1 = .listening applied' := by
  cases action with
  | proceed => exact ⟨applied, rfl⟩
  | deliver c => exact ⟨(deliver c r).1 || applied, by simp [act]⟩
  | fault f => exact ⟨applied, rfl⟩
  | goodbye g => rfl
  | refuse e => simp [Action.ends, act]

/-- After a message the next one is decided on, or the connection is closed. -/
theorem received_some_fst (applied : Bool) (msg : Message) (r : Receiver σ) :
    (∃ applied', (received applied (.ok (some msg)) r).1 = .listening applied') ∨
      (received applied (.ok (some msg)) r).1 = .closing true applied := by
  rw [received_some]
  have h := act_fst applied (r.machine.receive msg).1 (r.afterMessage msg)
  split at h
  · exact .inr h
  · exact .inl h

/-- An answer that brings no message leads to the end of the connection. -/
theorem received_over (applied : Bool) {answer : Except DeliveryError (Option Message)}
    (h : answer = .ok none ∨ ∃ e, answer = .error e) (r : Receiver σ) :
    ∃ again, (received applied answer r).1 = .closing again applied ∧ (received applied answer r).2.core = r.core := by
  obtain rfl | ⟨e, rfl⟩ := h
  · exact ⟨true, received_none applied r⟩
  · exact ⟨_, received_error applied e r⟩

/-- Of what the machine answers only a change set changes the core. -/
theorem core_act (applied : Bool) (action : Action) (r : Receiver σ) :
    (act applied action r).2.core = match action.delivered? with
      | some c => (deliver c r).2.core
      | none => r.core := by
  cases action <;> simp [act, Action.delivered?]

end Receiver

end FlagDelivery
