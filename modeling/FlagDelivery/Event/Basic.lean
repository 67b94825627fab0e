import FlagDelivery.Json.Value

/-!
# Events of the delivery protocol

A server sends messages, each a name and a JSON body. An `Event` is a message understood: the declaration of
what the server is about to send, one item put or deleted, the end of a payload, an error, a farewell, a sign
of life, or a name outside the protocol.
-/

namespace FlagDelivery

/-- A message as it comes from a connection. -/
structure Message where
  event : String
  data : Json
  deriving DecidableEq, Inhabited

/-- What a server declares it will send. -/
inductive Intent where
  /-- Nothing: the receiver is up to date. -/
  | upToDate
  /-- A complete set of data. -/
  | full
  /-- Changes to what the receiver holds. -/
  | changes
  /-- A code with no meaning here. -/
  | other (code : String)
  deriving DecidableEq, Inhabited

namespace Intent

/-- The code of an intent in a message. -/
def code : Intent → String
  | .upToDate => "none"
  | .full => "xfer-full"
  | .changes => "xfer-changes"
  | .other code => code

/-- The intent that a code stands for. -/
def ofCode (code : String) : Intent :=
  if code = "none" then .upToDate
  else if code = "xfer-full" then .full
  else if code = "xfer-changes" then .changes
  else .other code

/-- An intent keeps the code that it was read from. -/
theorem code_ofCode (code : String) : (ofCode code).code = code := by
  unfold ofCode
  split
  · simp_all [Intent.code]
  · split
    · simp_all [Intent.code]
    · split <;> simp_all [Intent.code]

end Intent

/-- One payload that a server declares. -/
structure Declaration where
  id : String
  target : Int
  intent : Intent
  reason : Option String
  deriving DecidableEq, Inhabited

/-- An item's new content. -/
structure Put where
  kind : String
  key : String
  version : Int
  object : Json
  deriving DecidableEq, Inhabited

/-- An item's deletion. -/
structure Delete where
  kind : String
  key : String
  version : Int
  deriving DecidableEq, Inhabited

/-- The end of a payload: the point of the data that the receiver has then reached. -/
structure Transferred where
  state : String
  version : Int
  deriving DecidableEq, Inhabited

/-- An error that the server reports. -/
structure Fault where
  id : Option String
  reason : String
  deriving DecidableEq, Inhabited

/-- The server's announcement that it will disconnect. -/
structure Farewell where
  reason : Option String
  deriving DecidableEq, Inhabited

/-- A message understood. -/
inductive Event where
  | declare (payloads : List Declaration)
  | put (put : Put)
  | delete (delete : Delete)
  | transferred (point : Transferred)
  | fault (fault : Fault)
  | goodbye (farewell : Farewell)
  | heartbeat
  | unknown (name : String)
  deriving DecidableEq, Inhabited

namespace Event

/-- The name of the message that an event comes in. -/
def name : Event → String
  | .declare _ => "server-intent"
  | .put _ => "put-object"
  | .delete _ => "delete-object"
  | .transferred _ => "payload-transferred"
  | .fault _ => "error"
  | .goodbye _ => "goodbye"
  | .heartbeat => "heartbeat"
  | .unknown name => name

/-- The names of the events with a meaning of their own. -/
def names : List String :=
  ["server-intent", "delete-object", "put-object", "error", "goodbye", "payload-transferred", "heartbeat"]

end Event

end FlagDelivery
