import FlagDelivery.Source.Basic

/-!
# Scripted sources

A `Script` replays connections laid down in advance. Each attempt to connect uses up the next of them. A
connection whose items are used up is closed by the server, but the last one reports that the source was
closed by its owner, so that reading ends.
-/

namespace FlagDelivery

/-- A failure laid down in a script. -/
inductive ScriptFailure where
  | transport (detail : String) (retryable : Bool)
  | status (code : Nat)
  deriving DecidableEq, Inhabited

/-- The error that a failure is. -/
def ScriptFailure.error : ScriptFailure → DeliveryError
  | .transport detail retryable => .transport detail retryable
  | .status code => .status code

/-- One step of a scripted connection: a message, or a failure that ends the connection. -/
inductive ScriptItem where
  | message (message : Message)
  | failure (failure : ScriptFailure)
  deriving DecidableEq, Inhabited

/-- A scripted attempt to connect. -/
inductive ScriptConnection where
  | accept (items : List ScriptItem)
  | refuse (failure : ScriptFailure)
  deriving DecidableEq, Inhabited

/-- The items of a connection; one that is refused has none. -/
def ScriptConnection.items : ScriptConnection → List ScriptItem
  | .accept items => items
  | .refuse _ => []

/-- The state of a scripted source. -/
structure Script where
  /-- The connections not used up. -/
  connections : List ScriptConnection
  /-- The items left of the open connection. -/
  current : List ScriptItem
  connected : Bool
  /-- The selectors connected with, in order. -/
  selectors : List Selector
  /-- How often the source was closed. -/
  closes : Nat
  deriving DecidableEq, Inhabited

namespace Script

/-- A script that has not begun. -/
def ofConnections (cs : List ScriptConnection) : Script := ⟨cs, [], false, [], 0⟩

/-- Uses up the next connection. -/
def connect (selector : Selector) : StateM Script (Except DeliveryError Unit) := fun s =>
  let s := { s with selectors := s.selectors ++ [selector] }
  match s.connections with
  | .accept items :: cs => (.ok (), { s with connections := cs, current := items, connected := true })
  | .refuse f :: cs => (.error f.error, { s with connections := cs })
  | [] => (.error .cancelled, s)

/-- Uses up the next item of the open connection. -/
def next : StateM Script (Except DeliveryError (Option Message)) := fun s =>
  if s.connected then
    match s.current with
    | .message m :: items => (.ok (some m), { s with current := items })
    | .failure f :: items => (.error f.error, { s with current := items, connected := false })
    | [] => if s.connections = [] then (.error .cancelled, s) else (.ok none, { s with connected := false })
  else (.error .notConnected, s)

/-- Closes the connection and drops what is left of it. -/
def close : StateM Script Unit := modify fun s => { s with connected := false, current := [], closes := s.closes + 1 }

instance : Source Script where
  connect := connect
  next := next
  close := close

/-- The number of items laid down and not used up. -/
def itemsLeft (s : Script) : Nat :=
  s.connections.foldr (fun c n => c.items.length + n) s.current.length

end Script

end FlagDelivery
