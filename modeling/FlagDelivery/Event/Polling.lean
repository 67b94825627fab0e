import FlagDelivery.Event.Basic
import FlagDelivery.Json.Text

/-!
# Polling responses

A polling response is the text of an object whose `events` are an array of messages. `Polling.parse` accepts
it as a whole or not at all: a malformed element is named by its place. Bodies are not read here, but null
is no body. `Polling.write` is the response that carries given messages.
-/

namespace FlagDelivery.Polling

/-- What is wrong with one element of the events. -/
inductive Flaw where
  | null
  | notAnObject
  | missing (property : String)
  deriving DecidableEq

/-- Why a polling response is refused. -/
inductive ResponseError where
  /-- The text is not JSON. -/
  | unreadable
  /-- There is no `events` property. -/
  | noEvents
  /-- The `events` property is not an array. -/
  | notAnArray
  /-- The element at an index is malformed. -/
  | element (index : Nat) (flaw : Flaw)
  deriving DecidableEq

/-- The wording of a refusal. -/
def ResponseError.message (e : ResponseError) : String :=
  "malformed polling response: " ++ match e with
    | .unreadable => "<json syntax error>"
    | .noEvents => "missing 'events' property"
    | .notAnArray => "'events' is not an array"
    | .element i .null => "null event at index " ++ toString i
    | .element i .notAnObject => "event at index " ++ toString i ++ " is not an object"
    | .element i (.missing property) =>
      "event at index " ++ toString i ++ " missing required property '" ++ property ++ "'"

/-- The message that an element of the events is. -/
def readElement : Json → Except Flaw Message
  | .null => .error .null
  | .obj fs => do
    let event ← match (Fields.find? "event" fs).bind Json.string? with
      | some event => .ok event
      | none => .error (.missing "event")
    let data ← match Fields.find? "data" fs with
      | none | some .null => .error (.missing "data")
      | some data => .ok data
    return ⟨event, data⟩
  | _ => .error .notAnObject

/-- The messages that elements are, the first of them standing at the index. -/
def readElements : Nat → List Json → Except ResponseError (List Message)
  | _, [] => .ok []
  | index, v :: vs => do
    let m ← (readElement v).mapError (.element index)
    return m :: (← readElements (index + 1) vs)

/-- The messages of a response. -/
def read (response : Json) : Except ResponseError (List Message) :=
  match response.field? "events" with
  | none => .error .noEvents
  | some (.arr vs) => readElements 0 vs
  | some _ => .error .notAnArray

/-- The messages of a response's text. -/
def parse (text : String) : Except ResponseError (List Message) :=
  match Json.parse? text with
  | none => .error .unreadable
  | some response => read response

/-- The response that carries messages. -/
def write (ms : List Message) : Json :=
  Json.mkObj [("events", .arr (ms.map fun m => Json.mkObj [("event", .str m.event), ("data", m.data)]))]

end FlagDelivery.Polling
