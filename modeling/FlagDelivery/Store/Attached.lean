import FlagDelivery.Store.Guarded

/-!
# A shared store attached to this process

`Attached` makes a store of items of a shared store and watches whether it can be reached. Any operation that
the shared store fails posts it as unavailable and starts polling; when it answers again it is posted as
available and in need of a refresh, since changes may have been missed. Only a complete set of data clears
that need.
-/

namespace FlagDelivery

/-- A shared store with what is known of it. -/
structure Attached (π : Type) where
  shared : π
  /-- How often to check for its return during an outage. -/
  recovery : Policy
  /-- A round of checks is under way. -/
  polling : Bool
  /-- It was seen to hold a complete set of data. -/
  filled : Bool

namespace Attached

variable {π α : Type}

/-- Half a second between checks, for as long as an outage lasts. -/
def defaultRecovery : Policy :=
  { Policy.unbounded with initialDelay := .ofMillis 500, maxDelay := .ofMillis 500, jitter := false }

/-- A shared store of which nothing is known yet. -/
def ofShared (shared : π) (recovery : Policy) : Attached π := ⟨shared, recovery, false, false⟩

/-- Runs an operation of the shared store. -/
def onShared (op : StateM π α) : StateM (Site (Attached π)) α :=
  StoreM.focus (fun site => site.store.shared) (fun p site => site.mapStore fun s => { s with shared := p }) op

/-- Posts the shared store as unavailable and sees to it that a round of checks is under way. -/
def markUnavailable : StateM (Site (Attached π)) Unit := do
  let h := (← get).board.health
  if h.available then discard (Site.onBoard (Board.post { h with available := false }))
  modify (Site.mapStore fun s => { s with polling := true })

/-- Runs an operation of the shared store and marks the store unavailable if it fails. -/
def observe (op : StoreM π α) : StoreM (Site (Attached π)) α := ExceptT.mk do
  let r ← onShared op.run
  if r.isOk then return r
  markUnavailable
  return r

variable [SharedStore π]

/-- Checks the shared store once. After an outage its return is posted, with the need of a refresh. -/
def recover : StateM (Site (Attached π)) Bool := do
  if ← onShared SharedStore.answers then
    if !(← get).board.health.available then discard (Site.onBoard (Board.post .recovered))
    return true
  return false

/-- Checks the shared store once and posts the outcome. -/
def check : StateM (Site (Attached π)) Bool := do
  if ← recover then return true
  markUnavailable
  return false

/-- Lets a round of checks come to rest. It ends when the store answers or the policy allows no more checks.
A store that does not answer now will not answer until something else is done to it, so one check decides; a
round without a limit then stays under way. -/
def settle : StateM (Site (Attached π)) Unit := do
  let s := (← get).store
  if s.polling then
    if s.recovery.allows 0 then
      if (← recover) || s.recovery.maxAttempts.isSome then modify (Site.mapStore fun s => { s with polling := false })
    else modify (Site.mapStore fun s => { s with polling := false })

/-- Replaces all data of the shared store, which is in step again after that. -/
def fill (d : DataSet Stored) : StoreM (Site (Attached π)) Unit := do
  observe (SharedStore.init d)
  modify (Site.mapStore fun s => { s with filled := true })
  StoreM.sure (Site.onBoard Board.refreshed)

/-- The items of a set in stored form. -/
def stored (d : DataSet Item) : DataSet Stored := ⟨d.data.map fun _ item => .ofItem item, d.persist⟩

/-- Writes an item unless one of the same or a higher version is held. -/
def upsert (kind : Kind) (key : String) (item : Item) : StoreM (Site (Attached π)) Bool :=
  observe (SharedStore.upsert kind key (.ofItem item))

/-- Writes items one after the other until one fails; an item that is not newer is no failure. -/
def upsertAll : List (Kind × String × Item) → StoreM (Site (Attached π)) Unit
  | [] => pure ()
  | (kind, key, item) :: es => do
    discard (upsert kind key item)
    upsertAll es

/-- Applies a batch. -/
def apply (b : Batch) : StoreM (Site (Attached π)) Unit :=
  match b.extent with
  | .full => fill (stored ⟨b.data, b.persist⟩)
  | .incremental => upsertAll b.data.entries
  | .none => pure ()

/-- The items of stored forms. -/
def toItems : List (String × Stored) → Except StoreError (List (String × Item))
  | [] => .ok []
  | (key, s) :: es => do return (key, ← s.toItem) :: (← toItems es)

/-- The shared store holds a complete set of data. -/
def isInitialized : StateM (Site (Attached π)) Bool := do
  if (← get).store.filled then return true
  let filled ← onShared SharedStore.isFilled
  if filled then modify (Site.mapStore fun s => { s with filled := true })
  return filled

instance : DataStore (Attached π) where
  init d := fill (stored d)
  find? kind key := do
    match ← observe (SharedStore.find? kind key) with
    | some s => some <$> StoreM.ofExcept s.toItem
    | none => return none
  items kind := do StoreM.ofExcept (toItems (← observe (SharedStore.items kind)))
  upsert := upsert
  apply := apply
  selector _ := .empty
  isInitialized := isInitialized
  isMonitored site := site.board.monitored
  settle := settle

end Attached

end FlagDelivery
