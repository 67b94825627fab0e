import FlagDelivery.Item.Stored
import FlagDelivery.Retry.Policy
import FlagDelivery.Store.Backend

/-!
# Guarded writes to a shared backend

`SharedStore` is a store of items in stored form that several processes use. `Guarded` makes one of a backend:
an item is written by watching its space, comparing versions, and committing only if nothing was written to
the space in between; on a conflict the write is attempted again, as often as the policy allows.
-/

namespace FlagDelivery

/-- A store of items in stored form that is shared with other processes. -/
class SharedStore (π : Type) where
  /-- Replaces the contents of each listed kind and marks the store as filled. -/
  init : DataSet Stored → StoreM π Unit
  /-- The item under a key. -/
  find? : Kind → String → StoreM π (Option Stored)
  /-- All items of a kind, in ascending order of key. -/
  items : Kind → StoreM π (List (String × Stored))
  /-- Writes an item unless one of the same or a higher version is held; answers whether it did. -/
  upsert : Kind → String → Stored → StoreM π Bool
  /-- The store was filled. -/
  isFilled : StateM π Bool
  /-- The store answers a trivial question. -/
  answers : StateM π Bool

/-- A backend whose items are written under guard. Each attempt is logged by space and key. `rival` is what
other writers do to the backend during an attempt, between the watch and the read. -/
structure Guarded (β : Type) where
  backend : β
  retry : Policy
  rival : Nat → β → β
  attempts : List (String × String)

namespace Guarded

variable {β α : Type}

/-- A guarded store over a backend that nobody else writes to. -/
def ofBackend (backend : β) (retry : Policy) : Guarded β := ⟨backend, retry, fun _ b => b, []⟩

/-- Runs an operation of the backend. -/
def onBackend (op : StoreM β α) : StoreM (Guarded β) α :=
  StoreM.part Guarded.backend (fun b s => { s with backend := b }) op

/-- Logs an attempt and lets other writers act. -/
def interlude (space key : String) : StoreM (Guarded β) Unit :=
  modify fun s => { s with backend := s.rival s.attempts.length s.backend, attempts := s.attempts ++ [(space, key)] }

/-- Whether an item is to be written over what a key holds: only if it is newer, a missing text counting as
version `-1`. -/
def supersedes (item : Stored) : Option String → Except StoreError Bool
  | none => .ok (-1 < item.version)
  | some text => do return (← Stored.versionOf text).1 < item.version

variable [Backend β]

/-- One attempt to write: whether it wrote, or `none` if something else was written meanwhile. -/
def attempt (space key : String) (item : Stored) : StoreM (Guarded β) (Option Bool) := do
  let revision ← onBackend (Backend.watch space)
  interlude space key
  let held ← onBackend (Backend.get? space key)
  if ← StoreM.ofExcept (supersedes item held) then
    if ← onBackend (Backend.commit revision space key (item.textFor key)) then return some true
    return none
  return some false

/-- Attempts a write after `made` attempts, until one succeeds or no more are allowed. -/
def attemptFrom (space key : String) (item : Stored) : (fuel made : Nat) → StoreM (Guarded β) Bool
  | 0, made => throw (.conflicts space key made)
  | fuel + 1, made => do
    match ← attempt space key item with
    | some written => return written
    | none =>
      if (← get).retry.allows (made + 1) then attemptFrom space key item fuel (made + 1)
      else throw (.conflicts space key (made + 1))

/-- The number of attempts at which writing ends in any case. -/
def attemptLimit (p : Policy) : Nat :=
  match p.maxAttempts with
  | some n => max n 1
  | none => 4294967296

/-- Writes an item unless one of the same or a higher version is held. -/
def upsert (kind : Kind) (key : String) (item : Stored) : StoreM (Guarded β) Bool := do
  attemptFrom kind.space key item (attemptLimit (← get).retry) 0

/-- The texts to store for items, by space. -/
def texts (data : Groups Stored) : List (String × List (String × String)) :=
  List.map (fun (kind, es) => (kind.space, es.map fun (key, item) => (key, item.textFor key))) data

/-- The items of texts read from a backend. -/
def readAll : List (String × String) → Except StoreError (List (String × Stored))
  | [] => .ok []
  | (key, text) :: es => do return (key, ← Stored.ofText text) :: (← readAll es)

instance : SharedStore (Guarded β) where
  init d := onBackend (Backend.replaceAll (texts d.data))
  find? kind key := do
    match ← onBackend (Backend.get? kind.space key) with
    | some text => some <$> StoreM.ofExcept (Stored.ofText text)
    | none => return none
  items kind := do StoreM.ofExcept (readAll (← onBackend (Backend.all kind.space)))
  upsert := upsert
  isFilled := do
    match ← (onBackend Backend.marked).run with
    | .ok marked => return marked
    | .error _ => return false
  answers := do return (← (onBackend Backend.marked).run).isOk

end Guarded

end FlagDelivery
