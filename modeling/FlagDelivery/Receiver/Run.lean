import FlagDelivery.Receiver.Basic
import FlagDelivery.Source.Script

/-!
# Runs of a receiver

A `Session` is a receiver, its source and the rest of the world. Before each call to the source the world may
act on the receiver's store, its status and itself; `Session.step` makes one action or one call, and
`Session.run` goes on until the receiver stops or a bound on the number of steps is reached. A scripted source
with the bound `Script.patience` never reaches it.
-/

namespace FlagDelivery

/-- A receiver, its source and the rest of the world. -/
structure Session (σ ς ω : Type) where
  receiver : Receiver σ
  source : ς
  world : ω

/-- What the world does before a call. -/
abbrev Environment (σ ω : Type) := Call → StateM (ω × Receiver σ) Unit

namespace Session

variable {σ ς ω α : Type}

/-- Runs an operation of the receiver. -/
def onReceiver (op : StateM (Receiver σ) α) : StateM (Session σ ς ω) α :=
  StoreM.focus Session.receiver (fun receiver s => { s with receiver }) op

/-- Runs an operation of the source. -/
def onSource (op : StateM ς α) : StateM (Session σ ς ω) α :=
  StoreM.focus Session.source (fun source s => { s with source }) op

/-- Lets the world act. -/
def onWorld (op : StateM (ω × Receiver σ) Unit) : StateM (Session σ ς ω) Unit :=
  StoreM.focus (fun s => (s.world, s.receiver)) (fun (world, receiver) s => { s with world, receiver }) op

variable [DataStore σ] [Source ς]

/-- One action of the receiver, or one call to its source and what it makes of the answer. -/
def step (env : Environment σ ω) : Stage → StateM (Session σ ς ω) Stage
  | .opening => onReceiver Receiver.dial
  | .connecting resume => do
    onWorld (env (.connect resume))
    onReceiver (Receiver.connected (← onSource (Source.connect resume)))
  | .listening applied => onReceiver (Receiver.listen applied)
  | .reading applied => do
    onWorld (env .next)
    onReceiver (Receiver.received applied (← onSource Source.next))
  | .closing again applied => do
    onWorld (env .close)
    onSource Source.close
    onReceiver (Receiver.closed again applied)
  | .stopped => return .stopped

/-- Steps from a stage until the receiver stops, at most so many. -/
def runFrom (env : Environment σ ω) : Nat → Stage → StateM (Session σ ς ω) Stage
  | 0, stage => return stage
  | fuel + 1, stage => do
    if stage = .stopped then return .stopped
    runFrom env fuel (← step env stage)

/-- A run of at most so many steps. -/
def run (env : Environment σ ω) (fuel : Nat) : StateM (Session σ ς ω) Stage := do
  onReceiver Receiver.start
  runFrom env fuel .opening

end Session

/-- A number of steps that every run over a script ends within: a connection takes five beside two for each
item, and one more attempt ends the run. -/
def Script.patience (s : Script) : Nat := 5 * (s.connections.length + 2) + 2 * s.itemsLeft

end FlagDelivery
