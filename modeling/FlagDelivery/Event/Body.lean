import FlagDelivery.Event.Basic
import FlagDelivery.Schema.Format

/-!
# Reading and writing the bodies of events

`Event.decode` understands a message and `Event.body` writes an event's body in the form in which servers
write it. A message whose name is outside the protocol is understood as unknown; only a body that does not
have the form of its event is an error.
-/

namespace FlagDelivery

/-- Why a message is not understood. -/
inductive DecodeError where
  /-- The body does not have the form of the event. -/
  | malformed (event : String) (mismatch : Mismatch)
  /-- A part of the body is there but null. -/
  | missing (event field : String)
  deriving DecidableEq

/-- The wording of a decoding error. -/
def DecodeError.message : DecodeError → String
  | .malformed event m => "failed to deserialize " ++ event ++ " event: " ++ m.message
  | .missing event field => event ++ " event missing required property '" ++ field ++ "'"

namespace Format

/-- A message: its name and its body. -/
def message : Format Message :=
  (record "RawEvent" [String, Json] (.required "event" text, .required "data" any, ())).map
    (fun (event, data, _) => ⟨event, data⟩) fun m => (m.event, m.data, ())

/-- An intent, written as its code. -/
def intent : Format Intent := text.map Intent.ofCode Intent.code

/-- One declared payload. -/
def declaration : Format Declaration :=
  (record "PayloadIntent" [String, Int, Intent, Option String]
    (.required "id" text, .required "target" version, .required "intentCode" intent, .omissible "reason", ())).map
    (fun (id, target, intent, reason, _) => ⟨id, target, intent, reason⟩)
    fun d => (d.id, d.target, d.intent, d.reason, ())

/-- The body of a declaration of payloads. -/
def declarations : Format (List Declaration) :=
  (record "ServerIntent" [List Declaration] (.required "payloads" (list declaration), ())).map
    (fun (payloads, _) => payloads) fun ds => (ds, ())

/-- The body of a put. -/
def put : Format Put :=
  (record "PutObject" [String, String, Int, Json]
    (.required "kind" text, .required "key" text, .required "version" version, .required "object" any, ())).map
    (fun (kind, key, version, object, _) => ⟨kind, key, version, object⟩)
    fun p => (p.kind, p.key, p.version, p.object, ())

/-- The body of a deletion. -/
def delete : Format Delete :=
  (record "DeleteObject" [String, String, Int]
    (.required "kind" text, .required "key" text, .required "version" version, ())).map
    (fun (kind, key, version, _) => ⟨kind, key, version⟩) fun d => (d.kind, d.key, d.version, ())

/-- The body of the end of a payload. -/
def transferred : Format Transferred :=
  (record "PayloadTransferred" [String, Int] (.required "state" text, .required "version" version, ())).map
    (fun (state, version, _) => ⟨state, version⟩) fun t => (t.state, t.version, ())

/-- The body of an error. -/
def fault : Format Fault :=
  (record "ErrorEvent" [Option String, String] (.optional "id", .required "reason" text, ())).map
    (fun (id, reason, _) => ⟨id, reason⟩) fun f => (f.id, f.reason, ())

/-- The body of a farewell. -/
def farewell : Format Farewell :=
  (record "Goodbye" [Option String] (.optional "reason", ())).map
    (fun (reason, _) => ⟨reason⟩) fun g => (g.reason, ())

end Format

namespace Message

/-- The body of a message in the form of its event. -/
def read {α : Type} (m : Message) (f : Format α) : Except DecodeError α :=
  (f.read m.data).mapError (.malformed m.event)

end Message

namespace Event

/-- The event of a message. A farewell may have a null body, a put may not have a null object. -/
def decode (m : Message) : Except DecodeError Event :=
  if m.event = "server-intent" then declare <$> m.read .declarations
  else if m.event = "put-object" then do
    let p ← m.read .put
    if p.object = .null then throw (.missing m.event "object")
    return put p
  else if m.event = "delete-object" then delete <$> m.read .delete
  else if m.event = "payload-transferred" then transferred <$> m.read .transferred
  else if m.event = "error" then fault <$> m.read .fault
  else if m.event = "goodbye" then
    if m.data = .null then return goodbye ⟨none⟩ else goodbye <$> m.read .farewell
  else if m.event = "heartbeat" then return heartbeat
  else return unknown m.event

/-- The body that a server writes for an event. -/
def body : Event → Json
  | .declare ds => Format.declarations.write ds
  | .put p => Format.put.write p
  | .delete d => Format.delete.write d
  | .transferred t => Format.transferred.write t
  | .fault f => Format.fault.write f
  | .goodbye g => Format.farewell.write g
  | .heartbeat | .unknown _ => .null

end Event

end FlagDelivery
