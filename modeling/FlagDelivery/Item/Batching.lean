import FlagDelivery.Item.Basic
import FlagDelivery.Transfer.Feed

/-!
# From change sets to batches

`Batch.ofChangeSet` groups changes by kind in their order of arrival; changes of kinds with no meaning here
and puts without an object are left out. `ChangeSet.ofPayload` gives back the change set that a payload was
reported from.
-/

namespace FlagDelivery

/-- Where a change goes in a store, and the item it makes there, if there is one. -/
def Change.entry? (c : Change) : Option (Kind × String × Item) := do
  let kind ← Kind.ofWire? c.kind
  match c.operation, c.object with
  | .put, some object => return (kind, c.key, ⟨c.version, some object⟩)
  | .put, none => none
  | .delete, _ => return (kind, c.key, .tombstone c.version)

namespace Batch

/-- The items of changes under their kinds, the kinds in order of first arrival. -/
def group (cs : List Change) : Groups Item :=
  (cs.filterMap Change.entry?).foldl (fun g (kind, key, item) => g.push kind key item) []

/-- The groups with an empty one for every kind that they do not list. -/
def listAll (g : Groups Item) : Groups Item :=
  g ++ (Kind.all.filter fun k => !g.lists k).map fun k => (k, [])

/-- The batch of a change set. A full one lists every kind, so that it also replaces the kinds that the
server sent nothing for. -/
def ofChangeSet (c : ChangeSet) (environment : Option String) (persist : Bool) : Batch where
  extent := c.extent
  selector := c.selector
  data := if c.extent = .full then listAll (group c.changes) else group c.changes
  environment := environment
  persist := persist

end Batch

/-- The change that an update was reported from. -/
def Update.toChange (u : Update) : Change := ⟨if u.deleted then .delete else .put, u.kind, u.key, u.version, u.object⟩

/-- An update tells the change that it was reported from. -/
theorem Update.toChange_ofChange (c : Change) : (Update.ofChange c).toChange = c := by
  obtain ⟨operation, kind, key, version, object⟩ := c
  cases operation <;> simp [Update.ofChange, Update.toChange]

/-- The change set that a payload was reported from. -/
def ChangeSet.ofPayload (p : Payload) : ChangeSet where
  extent := if p.basis then .full else if p.state.isNone ∧ p.updates = [] then .none else .incremental
  changes := p.updates.map Update.toChange
  selector := match p.state with
    | some state => .point p.version state
    | none => .empty

end FlagDelivery
