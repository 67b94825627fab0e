import FlagDelivery.Change
import FlagDelivery.Event.Body

/-!
# The transfer machine

`Machine` follows the messages of one connection. It holds the changes of the payload in progress back until
the payload is complete, so a change set is only ever given out whole. `Machine.handle` answers an event with
what the reader is to do. A machine is reset with each connection; otherwise changes of two connections could
end up in one change set.
-/

namespace FlagDelivery

/-- How far a connection has come. -/
inductive Phase where
  /-- Nothing was declared yet. -/
  | inactive
  /-- Changes to what is held are being sent. -/
  | changes
  /-- A complete set of data is being sent. -/
  | full
  deriving DecidableEq, Inhabited

/-- Something was declared on the connection. -/
def Phase.isActive (p : Phase) : Bool := p ≠ .inactive

/-- Why a message could not be followed. -/
inductive Refusal where
  /-- The message is not understood. -/
  | unreadable (error : DecodeError) (event : String)
  /-- The name of the message is outside the protocol. -/
  | unknownEvent (name : String)
  /-- A declaration without a payload. -/
  | nothingDeclared
  /-- A declaration with a code of no meaning. -/
  | unknownIntent (code : String)
  /-- The end of a payload before any declaration. -/
  | notDeclared
  deriving DecidableEq

namespace Refusal

/-- The refusal is due to what the server sent, not to how it was followed. -/
def isInvalidData : Refusal → Bool
  | .unreadable _ _ | .nothingDeclared => true
  | .unknownEvent _ | .unknownIntent _ | .notDeclared => false

/-- The wording of a refusal. -/
def message : Refusal → String
  | .unreadable error event => "Failed to deserialize " ++ event ++ " event: " ++ error.message
  | .unknownEvent name => "Received an unknown event of type " ++ name
  | .nothingDeclared => "No payload present in server-intent"
  | .unknownIntent code => "Unhandled intent code: " ++ code
  | .notDeclared => "A payload transferred has been received without an intent having been established."

end Refusal

/-- What the reader of a connection is to do after an event. -/
inductive Action where
  /-- Nothing. -/
  | proceed
  /-- Apply a complete change set. -/
  | deliver (changes : ChangeSet)
  /-- Note an error of the server; the payload in progress is void. -/
  | fault (fault : Fault)
  /-- Expect the server to disconnect. -/
  | goodbye (farewell : Farewell)
  /-- Note that the event could not be followed. -/
  | refuse (refusal : Refusal)
  deriving DecidableEq

/-- The state of a connection: its phase and the changes held back. -/
structure Machine where
  phase : Phase
  buffer : List Change
  deriving DecidableEq, Inhabited

namespace Machine

/-- The machine of a new connection. -/
def initial : Machine := ⟨.inactive, []⟩

/-- The change that a put is. -/
def ofPut (p : Put) : Change := ⟨.put, p.kind, p.key, p.version, some p.object⟩

/-- The change that a deletion is. -/
def ofDelete (d : Delete) : Change := ⟨.delete, d.kind, d.key, d.version, none⟩

/-- Holds a change back until its payload is complete. -/
def hold (c : Change) (m : Machine) : Machine := { m with buffer := m.buffer ++ [c] }

/-- Follows a declaration; of several payloads the first one counts. A code with no meaning changes nothing. -/
def declare (m : Machine) : List Declaration → Action × Machine
  | [] => (.refuse .nothingDeclared, m)
  | d :: _ =>
    match d.intent with
    | .upToDate => (.deliver .upToDate, ⟨.changes, []⟩)
    | .full => (.proceed, ⟨.full, []⟩)
    | .changes => (.proceed, ⟨.changes, []⟩)
    | .other code => (.refuse (.unknownIntent code), m)

/-- Completes the payload in progress; what follows on the connection are changes to it. -/
def complete (m : Machine) (t : Transferred) : Action × Machine :=
  match m.phase with
  | .inactive => (.refuse .notDeclared, m)
  | .changes => (.deliver ⟨.incremental, m.buffer, .point t.version t.state⟩, ⟨.changes, []⟩)
  | .full => (.deliver ⟨.full, m.buffer, .point t.version t.state⟩, ⟨.changes, []⟩)

/-- Follows one event. -/
def handle (m : Machine) : Event → Action × Machine
  | .declare ds => m.declare ds
  | .put p => (.proceed, m.hold (ofPut p))
  | .delete d => (.proceed, m.hold (ofDelete d))
  | .transferred t => m.complete t
  | .fault f => (.fault f, { m with buffer := [] })
  | .goodbye g => (.goodbye g, m)
  | .heartbeat => (.proceed, m)
  | .unknown name => (.refuse (.unknownEvent name), m)

/-- Follows one message; one that is not understood changes nothing. -/
def receive (m : Machine) (msg : Message) : Action × Machine :=
  match Event.decode msg with
  | .ok event => m.handle event
  | .error e => (.refuse (.unreadable e msg.event), m)

/-- Follows messages in order. -/
def receiveAll (m : Machine) : List Message → List Action × Machine
  | [] => ([], m)
  | msg :: msgs =>
    let (action, m) := m.receive msg
    let (actions, m) := m.receiveAll msgs
    (action :: actions, m)

/-- Messages followed together are followed one part after the other. -/
theorem receiveAll_append (m : Machine) (msgs msgs' : List Message) :
    m.receiveAll (msgs ++ msgs') =
      ((m.receiveAll msgs).1 ++ ((m.receiveAll msgs).2.receiveAll msgs').1,
        ((m.receiveAll msgs).2.receiveAll msgs').2) := by
  induction msgs generalizing m with
  | nil => rfl
  | cons msg msgs ih =>
    simp only [List.cons_append, receiveAll]
    rw [ih]

end Machine

end FlagDelivery
