import FlagDelivery.Item.Basic
import FlagDelivery.Store.Error

/-!
# Stores and their health

A store operation runs on the store's state and may fail; what it did before it failed stays done. A `Site`
is a store together with the `Board` on which its health is posted for all to see, and `DataStore` lists what
every store of items offers.
-/

namespace FlagDelivery

/-- An operation on a state of type `σ` that may fail. -/
abbrev StoreM (σ : Type) := ExceptT StoreError (StateM σ)

namespace StoreM

variable {σ τ α : Type}

/-- Runs an operation on a part of a state. -/
def focus (get : τ → σ) (put : σ → τ → τ) (op : StateM σ α) : StateM τ α := fun t =>
  let (a, s) := op (get t)
  (a, put s t)

/-- Runs an operation that may fail on a part of a state. -/
def part (get : τ → σ) (put : σ → τ → τ) (op : StoreM σ α) : StoreM τ α := ExceptT.mk (focus get put op.run)

/-- An operation that never fails as one that may. -/
def sure (op : StateM σ α) : StoreM σ α := ExceptT.mk (Except.ok <$> op)

/-- A result that may be an error as an operation that changes nothing. -/
def ofExcept (r : Except StoreError α) : StoreM σ α := ExceptT.mk (pure r)

end StoreM

/-- The health of a store. -/
structure Health where
  /-- The store can be reached. -/
  available : Bool
  /-- The store came back from an outage and may have missed changes since. -/
  refreshNeeded : Bool
  deriving DecidableEq, Inhabited, Repr

namespace Health

/-- The health of a store with nothing wrong. -/
def good : Health := ⟨true, false⟩

/-- The health of a store just come back from an outage. -/
def recovered : Health := ⟨true, true⟩

end Health

/-- Where a store's health is posted. The number of posts tells a reader whether anything is new to it. -/
structure Board where
  health : Health
  posts : Nat
  monitored : Bool
  deriving DecidableEq, Inhabited

namespace Board

/-- A board with good health; `monitored` says whether the store will ever post. -/
def initial (monitored : Bool) : Board := ⟨.good, 0, monitored⟩

/-- Posts a health; one that is already posted makes no new post. Tells whether there is a new post. -/
def post (h : Health) : StateM Board Bool := fun b =>
  if b.health = h then (false, b) else (true, { b with health := h, posts := b.posts + 1 })

/-- What is posted is what is to be read. -/
@[simp] theorem health_post (h : Health) (b : Board) : (post h b).2.health = h := by
  unfold post
  split <;> simp_all

/-- A new post is told by the number of posts. -/
theorem posts_post (h : Health) (b : Board) :
    (post h b).2.posts = if b.health = h then b.posts else b.posts + 1 := by
  unfold post
  split <;> simp_all

/-- Posts that no changes are missing any more, if some were. -/
def refreshed : StateM Board Unit := do
  let h := (← get).health
  if h.refreshNeeded then discard (post { h with refreshNeeded := false })

end Board

/-- A store and the board on which its health is posted. -/
structure Site (σ : Type) where
  store : σ
  board : Board
  deriving DecidableEq

namespace Site

variable {σ τ α : Type}

/-- Runs an operation on the store alone. -/
def onStore (op : StoreM σ α) : StoreM (Site σ) α :=
  StoreM.part Site.store (fun s site => { site with store := s }) op

/-- Runs an operation on the board alone. -/
def onBoard (op : StateM Board α) : StateM (Site σ) α :=
  StoreM.focus Site.board (fun b site => { site with board := b }) op

/-- Runs an operation of a store on a part of another store, with the same board. -/
def zoom (get : τ → σ) (put : σ → τ → τ) (op : StateM (Site σ) α) : StateM (Site τ) α :=
  StoreM.focus (fun site => ⟨get site.store, site.board⟩) (fun s site => ⟨put s.store site.store, s.board⟩) op

/-- The site with the store changed. -/
def mapStore (f : σ → σ) (site : Site σ) : Site σ := { site with store := f site.store }

end Site

/-- What a store of items offers. A write of an item takes effect only if the item is newer than the one held;
it answers whether it did. Deleted items are held as tombstones. -/
class DataStore (σ : Type) where
  /-- Replaces all data. -/
  init : DataSet Item → StoreM (Site σ) Unit
  /-- The item held under a key. -/
  find? : Kind → String → StoreM (Site σ) (Option Item)
  /-- All items of a kind, in ascending order of key. -/
  items : Kind → StoreM (Site σ) (List (String × Item))
  /-- Writes an item if it is newer than the one held. -/
  upsert : Kind → String → Item → StoreM (Site σ) Bool
  /-- Applies a batch: a full one replaces the kinds it lists, an incremental one writes the items that are
  newer, and one without changes leaves only its selector. -/
  apply : Batch → StoreM (Site σ) Unit
  /-- The selector of the data held. -/
  selector : σ → Selector
  /-- The store holds a complete set of data. -/
  isInitialized : StateM (Site σ) Bool
  /-- The store posts changes of its health. -/
  isMonitored : Site σ → Bool
  /-- Lets work in the background come to rest. -/
  settle : StateM (Site σ) Unit

end FlagDelivery
