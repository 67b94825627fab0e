import FlagDelivery.Intake.Basic
import FlagDelivery.Settings

/-!
# The receiver

A `Receiver` reads one connection after the other and hands what it completes to an intake. It acts between
the calls that it makes to its source: `dial` and `listen` decide on the next call, and `connected`, `received`
and `closed` take the answer to one; each gives the stage that the receiver has then reached. Each connection
starts with a fresh machine, so that a payload left incomplete on an old connection is never given out; a
connection that ends is opened again while the policy allows it.
-/

namespace FlagDelivery

/-- What a receiver has done so far. -/
structure Tally where
  connections : Nat
  events : Nat
  applied : Nat
  failed : Nat
  reconnects : Nat
  lastError : Option String
  deriving DecidableEq, Inhabited

/-- A receiver with the intake that it feeds. -/
structure Receiver (σ : Type) where
  settings : Settings
  intake : Intake σ
  machine : Machine
  /-- The posts on the store's board that were taken note of. -/
  seen : Nat
  /-- The attempts to connect since the last one that brought data. -/
  failures : Nat
  tally : Tally
  cancelled : Bool

/-- A call that a receiver makes to its source. -/
inductive Call where
  | connect (resume : Selector)
  | next
  | close
  deriving DecidableEq, Inhabited

/-- Where a receiver stands between two actions. -/
inductive Stage where
  /-- About to decide on a connection. -/
  | opening
  /-- Waiting for an attempt to connect. -/
  | connecting (resume : Selector)
  /-- About to decide on the next message; `applied` says whether the connection brought data. -/
  | listening (applied : Bool)
  /-- Waiting for a message. -/
  | reading (applied : Bool)
  /-- Waiting for the connection to be closed, to open another one or to stop. -/
  | closing (again applied : Bool)
  /-- Stopped for good. -/
  | stopped
  deriving DecidableEq, Inhabited

namespace Receiver

variable {σ α : Type}

/-- A receiver that has done nothing yet. -/
def ofIntake (settings : Settings) (intake : Intake σ) : Receiver σ :=
  ⟨settings, intake, .initial, 0, 0, default, false⟩

/-- Runs an operation of the intake. -/
def onIntake (op : StateM (Intake σ) α) : StateM (Receiver σ) α :=
  StoreM.focus Receiver.intake (fun intake r => { r with intake }) op

/-- Changes the tally. -/
def count (f : Tally → Tally) : StateM (Receiver σ) Unit := modify fun r => { r with tally := f r.tally }

/-- Records an error in the tally. -/
def record (message : String) : StateM (Receiver σ) Unit := count fun t => { t with lastError := some message }

/-- Takes note of what is posted on the store's board. -/
def lookAtBoard : StateM (Receiver σ) Health := fun r =>
  (r.intake.site.board.health, { r with seen := r.intake.site.board.posts })

/-- Begins a run: what was posted before it is no news. -/
def start : StateM (Receiver σ) Unit := modify fun r =>
  { r with machine := .initial, seen := r.intake.site.board.posts, failures := 0 }

/-- Takes an error of the source, which may stop the receiver: answers whether to connect again. -/
def fail (e : DeliveryError) : StateM (Receiver σ) Bool := do
  if e = .cancelled then return false
  record e.message
  onIntake (Intake.report (if e.isRetryable then .interrupted else .off) (some (.ofError e)))
  return e.isRetryable

variable [DataStore σ]

/-- The selector to resume from: after an outage of the store, in which changes may have been missed,
everything is asked for. -/
def basis : StateM (Receiver σ) Selector := do
  if (← lookAtBoard).refreshNeeded then return .empty
  return (← get).intake.selector

/-- Decides on a connection. Once the policy allows no more attempts, the data source is off. -/
def dial : StateM (Receiver σ) Stage := do
  let r ← get
  if r.cancelled then return .stopped
  if r.failures > 0 then
    if !r.settings.reconnect.allows r.failures then
      onIntake (Intake.report .off none)
      return .stopped
    count fun t => { t with reconnects := t.reconnects + 1 }
  let resume ← basis
  modify fun r => { r with machine := .initial }
  return .connecting resume

/-- Takes the answer to an attempt to connect. -/
def connected : Except DeliveryError Unit → StateM (Receiver σ) Stage
  | .ok () => do
    count fun t => { t with connections := t.connections + 1 }
    return .listening false
  | .error e => do
    if ← fail e then
      modify fun r => { r with failures := r.failures + 1 }
      return .opening
    return .stopped

/-- Decides whether to read on. A store that has come back from an outage calls for a new connection. -/
def listen (applied : Bool) : StateM (Receiver σ) Stage := do
  let r ← get
  if r.cancelled then return .closing false applied
  if r.intake.site.board.posts ≠ r.seen then
    if (← lookAtBoard) = .recovered then return .closing true applied
  return .reading applied

/-- Hands a change set to the intake and counts the outcome. -/
def deliver (c : ChangeSet) : StateM (Receiver σ) Bool := do
  let s := (← get).settings
  let accepted ← onIntake (Intake.apply (.ofChangeSet c s.environment s.persist))
  count fun t => if accepted then { t with applied := t.applied + 1 } else { t with failed := t.failed + 1 }
  return accepted

/-- Does what the machine answers to a message. -/
def act (applied : Bool) : Action → StateM (Receiver σ) Stage
  | .proceed => return .listening applied
  | .deliver c => do return .listening ((← deliver c) || applied)
  | .fault f => do
    record f.reason
    return .listening applied
  | .goodbye _ => return .closing true applied
  | .refuse r => do
    record r.message
    onIntake (Intake.report .interrupted
      (some (.described (Intake.complaintKind r.complaint) "Internal error during FDv2 event processing")))
    return .closing true applied

/-- Takes the answer to a wait for a message. -/
def received (applied : Bool) : Except DeliveryError (Option Message) → StateM (Receiver σ) Stage
  | .ok (some msg) => do
    count fun t => { t with events := t.events + 1 }
    let (action, machine) := (← get).machine.receive msg
    modify fun r => { r with machine }
    act applied action
  | .ok none => do
    record "stream closed by the server"
    onIntake (Intake.report .interrupted (some (.described .network "stream closed by the server")))
    return .closing true applied
  | .error e => do return .closing (← fail e) applied

/-- Goes on after a connection was closed. One that brought data starts the count of attempts anew. -/
def closed (again applied : Bool) : StateM (Receiver σ) Stage := do
  if again then
    modify fun r => { r with failures := if applied then 1 else r.failures + 1 }
    return .opening
  return .stopped

end Receiver

end FlagDelivery
