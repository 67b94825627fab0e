import FlagDelivery.Store.Layered

/-!
# Settings

What can be set of a receiver of flags, and the stores that settings call for.
-/

namespace FlagDelivery

/-- The settings of a receiver. -/
structure Settings where
  /-- Whether a shared store may be written to. -/
  mode : Mode
  /-- How often a guarded write is attempted. -/
  storeRetry : Policy
  /-- How often a shared store is checked during an outage. -/
  storeRecovery : Policy
  /-- How often a lost connection is opened again. -/
  reconnect : Policy
  /-- How long to wait for the first payload. -/
  initialWait : Duration
  /-- The environment that the data belongs to. -/
  environment : Option String
  /-- Received data is written to a shared store. -/
  persist : Bool

namespace Settings

/-- The settings that hold unless others are chosen. -/
def default : Settings where
  mode := .readWrite
  storeRetry := .attempts 10
  storeRecovery := Attached.defaultRecovery
  reconnect := { Policy.unbounded with initialDelay := .ofSeconds 1, maxDelay := .ofSeconds 30 }
  initialWait := .ofSeconds 5
  environment := none
  persist := true

/-- The store of a receiver: memory, over a shared store if there is a backend for one. Without a backend its
health never changes. -/
def stores {β : Type} (s : Settings) (backend : Option β) : Site (Layered (Attached (Guarded β))) :=
  match backend with
  | some b => ⟨.above (.ofShared (.ofBackend b s.storeRetry) s.storeRecovery) s.mode, .initial true⟩
  | none => ⟨.memoryOnly, .initial false⟩

end Settings

end FlagDelivery
