import FlagDelivery.Store.Basic
import Std.Data.TreeMap

/-!
# Shared backends

A backend holds texts by space and key, shared with other processes, and knows nothing of what they say.
Each space has a revision that every write to it moves on. A writer watches a space, decides, and commits
only if the space is still at the revision it watched. `SharedMemory` is a backend in memory.
-/

namespace FlagDelivery

/-- A shared store of texts whose writes can be made conditional on nothing having been written since. -/
class Backend (β : Type) where
  /-- The revision that a space is at. -/
  watch : (space : String) → StoreM β Nat
  /-- The text under a key. -/
  get? : (space key : String) → StoreM β (Option String)
  /-- All texts of a space, in ascending order of key. -/
  all : (space : String) → StoreM β (List (String × String))
  /-- Writes a text if the space is still at the revision; answers whether it did. -/
  commit : (revision : Nat) → (space key text : String) → StoreM β Bool
  /-- Replaces the contents of each listed space and leaves the mark of a complete set of data. -/
  replaceAll : List (String × List (String × String)) → StoreM β Unit
  /-- The mark of a complete set of data is there. -/
  marked : StoreM β Bool

/-- One space of a backend in memory. -/
structure Space where
  revision : Nat
  texts : Std.TreeMap String String
  deriving Inhabited

/-- The space that nothing was written to. -/
def Space.empty : Space := ⟨0, ∅⟩

/-- A backend in memory, which can be cut off. -/
structure SharedMemory where
  spaces : Std.TreeMap String Space
  marked : Bool
  reachable : Bool
  deriving Inhabited

namespace SharedMemory

/-- The backend that holds nothing. -/
def empty : SharedMemory := ⟨∅, false, true⟩

/-- A space; one that nothing was written to is empty. -/
def space (b : SharedMemory) (name : String) : Space := (b.spaces[name]?).getD .empty

/-- The text under a key. -/
def text? (b : SharedMemory) (space key : String) : Option String := (b.space space).texts[key]?

/-- Writes a text whatever the revision. -/
def put (space key text : String) (b : SharedMemory) : SharedMemory :=
  let s := b.space space
  { b with spaces := b.spaces.insert space ⟨s.revision + 1, s.texts.insert key text⟩ }

/-- Writing a text moves its space on by one revision and leaves the others as they are. -/
theorem space_put (b : SharedMemory) (space key text name : String) :
    (b.put space key text).space name =
      if space = name then ⟨(b.space space).revision + 1, (b.space space).texts.insert key text⟩ else b.space name := by
  by_cases h : space = name <;> simp [SharedMemory.space, put, Std.TreeMap.getElem?_insert, h]

/-- Writing a text changes what is held under its key and nothing else. -/
theorem text?_put (b : SharedMemory) (space key text space' key' : String) :
    (b.put space key text).text? space' key' =
      if space = space' ∧ key = key' then some text else b.text? space' key' := by
  by_cases h : space = space'
  · subst h
    simp [text?, space_put, Std.TreeMap.getElem?_insert]
  · simp [text?, space_put, h]

/-- Replaces the contents of a space. -/
def replace (b : SharedMemory) (space : String) (texts : List (String × String)) : SharedMemory :=
  { b with spaces := b.spaces.insert space ⟨(b.space space).revision + 1, Std.TreeMap.ofList texts⟩ }

/-- Connects the backend or cuts it off. -/
def setReachable (reachable : Bool) (b : SharedMemory) : SharedMemory := { b with reachable }

/-- What an operation does while the backend is cut off, and otherwise. -/
def whenReachable {α : Type} (op : StateM SharedMemory α) : StoreM SharedMemory α := do
  if (← get).reachable then StoreM.sure op else throw (.unavailable "memory backend is offline")

instance : Backend SharedMemory where
  watch name := whenReachable do return ((← get).space name).revision
  get? name key := whenReachable do return (← get).text? name key
  all name := whenReachable do return ((← get).space name).texts.toList
  commit revision name key text := whenReachable fun b =>
    if (b.space name).revision = revision then (true, b.put name key text) else (false, b)
  replaceAll data := whenReachable fun b =>
    ((), { data.foldl (fun b (name, texts) => b.replace name texts) b with marked := true })
  marked := whenReachable do return (← get).marked

end SharedMemory

end FlagDelivery
