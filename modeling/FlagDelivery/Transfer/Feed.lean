import FlagDelivery.Transfer.Machine

/-!
# Feeds

A `Feed` takes messages in batches and reports whole payloads and errors to its listeners. It follows the
same machine as a connection, and differs in what it passes on: an intent of `none` is a payload without
updates, items that arrive before any declaration are dropped, a message that is not understood is reported
and the next one taken.
-/

namespace FlagDelivery

/-- One item's update in a payload. -/
structure Update where
  kind : String
  key : String
  version : Int
  object : Option Json
  deleted : Bool
  deriving DecidableEq, Inhabited

/-- The update that a change is reported as. -/
def Update.ofChange (c : Change) : Update := ⟨c.kind, c.key, c.version, c.object, c.operation = .delete⟩

/-- A complete payload. The state is absent when the server said that there is nothing to send. -/
structure Payload where
  id : String
  version : Int
  state : Option String
  basis : Bool
  updates : List Update
  deriving DecidableEq, Inhabited

/-- The kind of error reported to listeners. -/
inductive Complaint where
  /-- What the server sent could not be used. -/
  | invalidData
  /-- Any other error. -/
  | unknown
  deriving DecidableEq, Inhabited

/-- The kind of error that a refusal is. -/
def Refusal.complaint (r : Refusal) : Complaint := if r.isInvalidData then .invalidData else .unknown

/-- What listeners are told. -/
inductive Notice where
  | payload (payload : Payload)
  | error (complaint : Complaint) (message : String)
  deriving DecidableEq, Inhabited

/-- The payload that a server has declared. -/
structure Declared where
  id : String
  target : Int
  deriving DecidableEq, Inhabited

/-- What a feed remembers of a declaration. -/
def Declared.ofDeclaration (d : Declaration) : Declared := ⟨d.id, d.target⟩

/-- The state of a feed: the machine and the payload declared. -/
structure Feed where
  machine : Machine
  declared : Option Declared
  deriving DecidableEq, Inhabited

namespace Feed

/-- A feed before its first message, and after a reset. -/
def initial : Feed := ⟨.initial, none⟩

/-- The payload reported for a change set that completes the declared one. -/
def payloadOf (d : Declared) (c : ChangeSet) : Payload :=
  ⟨d.id, c.selector.version, some c.selector.state, c.extent = .full, c.changes.map .ofChange⟩

/-- Passes a change set on. One that says there is nothing to send is reported, and its payload counts as
declared, only if the payload has an id and a target. -/
def deliver (feed : Feed) (pending : Option Declared) (c : ChangeSet) : Option Notice × Feed :=
  if c.extent = .none then
    match pending with
    | none => (none, feed)
    | some d =>
      if d.id = "" ∨ d.target = 0 then (none, feed)
      else (some (.payload ⟨d.id, d.target, none, false, []⟩), { feed with declared := some d })
  else (feed.declared.map fun d => .payload (payloadOf d c), feed)

/-- What a payload's fault is reported as. -/
def faultMessage (f : Fault) : String :=
  "An error was encountered receiving updates for payload " ++ f.id.getD "<unknown>" ++ " with reason: " ++
    f.reason ++ "."

/-- Follows an event with the machine; `pending` is the payload that the event declares. -/
def follow (feed : Feed) (pending : Option Declared) (event : Event) : Option Notice × Feed :=
  let (action, machine) := feed.machine.handle event
  let feed := { feed with machine }
  match action with
  | .proceed => (none, match pending with
    | some d => { feed with declared := some d }
    | none => feed)
  | .deliver c => feed.deliver pending c
  | .fault f => (some (.error .unknown (faultMessage f)), feed)
  | .goodbye _ => (none, initial)
  | .refuse r => (some (.error r.complaint r.message), feed)

/-- Takes one event. -/
def take (feed : Feed) : Event → Option Notice × Feed
  | .unknown _ => (none, feed)
  | .declare ds => follow { feed with declared := none } (ds.head?.map .ofDeclaration) (.declare ds)
  | .put p => if feed.declared.isNone then (none, feed) else feed.follow none (.put p)
  | .delete d => if feed.declared.isNone then (none, feed) else feed.follow none (.delete d)
  | .transferred t => if feed.declared.isNone then (none, initial) else feed.follow none (.transferred t)
  | event => feed.follow none event

/-- Takes one message. One that is not understood is reported; if it was to end a payload, the payload has
ended either way. -/
def receive (feed : Feed) (msg : Message) : Option Notice × Feed :=
  match Event.decode msg with
  | .ok event => feed.take event
  | .error e =>
    (some (.error .invalidData ("Failed to parse " ++ msg.event ++ ": " ++ e.message)),
      if msg.event = "payload-transferred" then initial else feed)

/-- Takes the messages of a batch in order. -/
def receiveAll (feed : Feed) : List Message → List Notice × Feed
  | [] => ([], feed)
  | msg :: msgs =>
    let (notice, feed) := feed.receive msg
    let (notices, feed) := feed.receiveAll msgs
    (notice.toList ++ notices, feed)

/-- What is reported of messages taken together is what is reported of them one after the other. -/
theorem receiveAll_append (feed : Feed) (msgs msgs' : List Message) :
    feed.receiveAll (msgs ++ msgs') =
      ((feed.receiveAll msgs).1 ++ ((feed.receiveAll msgs).2.receiveAll msgs').1,
        ((feed.receiveAll msgs).2.receiveAll msgs').2) := by
  induction msgs generalizing feed with
  | nil => rfl
  | cons msg msgs ih =>
    simp only [List.cons_append, receiveAll]
    rw [ih]
    simp

end Feed

end FlagDelivery
