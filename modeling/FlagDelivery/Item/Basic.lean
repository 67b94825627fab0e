import FlagDelivery.Change
import FlagDelivery.Kind

/-!
# Items and sets of items

An `Item` is a version with a content, or a tombstone, which is a version alone. Stores are filled from a
`DataSet` and changed by a `Batch`; both list items under their kinds, and kinds and keys may repeat.
-/

namespace FlagDelivery

/-- A versioned item; one without content is a tombstone. -/
structure Item where
  version : Int
  content : Option Json
  deriving DecidableEq, Inhabited

namespace Item

/-- The tombstone of a version. -/
def tombstone (version : Int) : Item := ⟨version, none⟩

/-- The item is a tombstone. -/
def isTombstone (i : Item) : Bool := i.content.isNone

end Item

/-- Keyed values in groups, each under a kind. -/
abbrev Groups (α : Type) := List (Kind × List (String × α))

namespace Groups

variable {α β : Type}

/-- The groups with every value changed. -/
def map (f : String → α → β) (g : Groups α) : Groups β :=
  List.map (fun (kind, entries) => (kind, entries.map fun (key, a) => (key, f key a))) g

/-- The number of values in all groups. -/
def size (g : Groups α) : Nat := List.foldr (fun group n => group.2.length + n) 0 g

/-- The values one by one with their kinds and keys. -/
def entries (g : Groups α) : List (Kind × String × α) :=
  g.flatMap fun (kind, es) => es.map fun (key, a) => (kind, key, a)

/-- Adds a value at the end of its kind's first group, or in a new last group. -/
def push (kind : Kind) (key : String) (a : α) : Groups α → Groups α
  | [] => [(kind, [(key, a)])]
  | (k, es) :: gs => if k = kind then (k, es ++ [(key, a)]) :: gs else (k, es) :: push kind key a gs

/-- Some group is one of the kind. -/
def lists (g : Groups α) (kind : Kind) : Bool := g.any fun group => group.1 = kind

/-- Some group of the kind holds the key. -/
def has (g : Groups α) (kind : Kind) (key : String) : Bool :=
  g.any fun group => group.1 = kind && group.2.any fun e => e.1 = key

end Groups

/-- All the data of a store. -/
structure DataSet (α : Type) where
  data : Groups α
  persist : Bool
  deriving DecidableEq

/-- A change set in terms of a store: items under their kinds. -/
structure Batch where
  extent : Extent
  selector : Selector
  data : Groups Item
  environment : Option String
  persist : Bool
  deriving DecidableEq

end FlagDelivery
