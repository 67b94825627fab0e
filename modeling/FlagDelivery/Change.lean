import FlagDelivery.Json.Value

/-!
# Changes and change sets

A change puts or deletes one item. A change set is a whole payload: its changes in order of arrival, how it
relates to the data already held, and the selector that marks the point of the data it leads to.
-/

namespace FlagDelivery

/-- A point in the server's data from which delivery can be resumed. The empty selector is no such point: it
asks for everything. -/
inductive Selector where
  | empty
  | point (version : Int) (state : String)
  deriving DecidableEq, Inhabited

namespace Selector

/-- The selector is no point to resume from. -/
def isEmpty : Selector → Bool
  | .empty => true
  | .point _ _ => false

/-- The version of the point; zero for none. -/
def version : Selector → Int
  | .empty => 0
  | .point version _ => version

/-- The state that names the point; empty for none. -/
def state : Selector → String
  | .empty => ""
  | .point _ state => state

end Selector

/-- What a change does to its item. -/
inductive Operation where
  | put
  | delete
  deriving DecidableEq, Inhabited

/-- A change to one item. The kind is the one named on the wire. -/
structure Change where
  operation : Operation
  kind : String
  key : String
  version : Int
  object : Option Json
  deriving DecidableEq, Inhabited

/-- How a change set relates to the data already held. -/
inductive Extent where
  /-- It is all the data of its kinds. -/
  | full
  /-- It changes what is held. -/
  | incremental
  /-- There is nothing to change. -/
  | none
  deriving DecidableEq, Inhabited

/-- A whole payload of changes. -/
structure ChangeSet where
  extent : Extent
  changes : List Change
  selector : Selector
  deriving DecidableEq, Inhabited

/-- The change set that says the receiver is up to date. -/
def ChangeSet.upToDate : ChangeSet := ⟨.none, [], .empty⟩

end FlagDelivery
