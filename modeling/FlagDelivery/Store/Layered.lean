import FlagDelivery.Store.Attached
import FlagDelivery.Store.Memory

/-!
# Memory over a shared store

`Layered` writes to memory and, where its mode and the data allow it, through to a shared store. Reads come
from the shared store, which another process may have filled, until the first complete set of data arrives;
from then on they come from memory. Complete data that is not written through also ends the shared store's
need of a refresh: nothing is left to be fetched, and reads no longer touch that store.
-/

namespace FlagDelivery

/-- Whether a shared store may be written to. -/
inductive Mode where
  | readOnly
  | readWrite
  deriving DecidableEq, Inhabited

/-- A store in memory and the store beneath it, if there is one. -/
structure Layered (μ : Type) where
  memory : Memory
  beneath : Option μ
  mode : Mode
  readsFromMemory : Bool

namespace Layered

variable {μ α : Type}

/-- A store with nothing beneath the memory. -/
def memoryOnly : Layered μ := ⟨.empty, none, .readOnly, true⟩

/-- A store over another one. -/
def above (beneath : μ) (mode : Mode) : Layered μ := ⟨.empty, some beneath, mode, false⟩

/-- Runs an operation of the memory. -/
def onMemory (op : StateM (Site Memory) α) : StateM (Site (Layered μ)) α :=
  Site.zoom Layered.memory (fun m s => { s with memory := m }) op

/-- Runs an operation of the store beneath, which is given. -/
def onBeneath (beneath : μ) (op : StateM (Site μ) α) : StateM (Site (Layered μ)) α :=
  Site.zoom (fun _ => beneath) (fun p s => { s with beneath := some p }) op

/-- The store beneath, if data may be written through to it. -/
def writable (s : Layered μ) (persist : Bool) : Option μ :=
  if s.mode = .readWrite ∧ persist then s.beneath else none

/-- The store beneath, while reads come from it. -/
def source (s : Layered μ) : Option μ := if s.readsFromMemory then none else s.beneath

/-- Turns reads to memory for good. -/
def switchReads : StateM (Site (Layered μ)) Unit := modify (Site.mapStore fun s => { s with readsFromMemory := true })

/-- Ends the need of a refresh of the store beneath, if there is one. -/
def refreshed : StateM (Site (Layered μ)) Unit := do
  if (← get).store.beneath.isSome then Site.onBoard Board.refreshed

/-- Replaces what memory holds. -/
def fillMemory (data : Groups Item) : StateM (Site (Layered μ)) Unit :=
  modify (Site.mapStore fun s => { s with memory := .init data })

/-- Writes an item to memory if it is newer. -/
def upsertMemory (kind : Kind) (key : String) (item : Item) : StateM (Site (Layered μ)) Bool := fun site =>
  let (written, memory) := site.store.memory.upsert kind key item
  (written, site.mapStore fun s => { s with memory })

/-- Applies a batch to memory. -/
def applyMemory (b : Batch) : StateM (Site (Layered μ)) Unit :=
  modify (Site.mapStore fun s => { s with memory := s.memory.apply b })

variable [DataStore μ]

/-- Replaces all data. -/
def init (d : DataSet Item) : StoreM (Site (Layered μ)) Unit := ExceptT.mk do
  fillMemory d.data
  switchReads
  match (← get).store.writable d.persist with
  | some beneath => onBeneath beneath (DataStore.init d).run
  | none =>
    refreshed
    return .ok ()

/-- Writes an item to memory and, if it is newer there, through to the store beneath. -/
def upsert (kind : Kind) (key : String) (item : Item) : StoreM (Site (Layered μ)) Bool := ExceptT.mk do
  let written ← upsertMemory kind key item
  match (← get).store.writable true with
  | some beneath => if written then onBeneath beneath (DataStore.upsert kind key item).run else return .ok false
  | none => return .ok written

/-- Applies a batch. -/
def apply (b : Batch) : StoreM (Site (Layered μ)) Unit := ExceptT.mk do
  applyMemory b
  if b.extent = .full then switchReads
  match (← get).store.writable b.persist with
  | some beneath => onBeneath beneath (DataStore.apply b).run
  | none =>
    if b.extent = .full then refreshed
    return .ok ()

/-- Reads from the store that reads come from. -/
def read (fromMemory : Memory → α) (op : StoreM (Site μ) α) : StoreM (Site (Layered μ)) α := ExceptT.mk do
  match (← get).store.source with
  | some beneath => onBeneath beneath op.run
  | none => return .ok (fromMemory (← get).store.memory)

/-- The store that reads come from holds a complete set of data. -/
def isInitialized : StateM (Site (Layered μ)) Bool := do
  match (← get).store.source with
  | some beneath => onBeneath beneath DataStore.isInitialized
  | none => return (← get).store.memory.initialized

/-- Lets the store beneath come to rest. -/
def settle : StateM (Site (Layered μ)) Unit := do
  match (← get).store.beneath with
  | some beneath => onBeneath beneath DataStore.settle
  | none => return ()

instance : DataStore (Layered μ) where
  init := init
  find? kind key := read (·.find? kind key) (DataStore.find? kind key)
  items kind := read (·.items kind) (DataStore.items kind)
  upsert := upsert
  apply := apply
  selector s := s.memory.selector
  isInitialized := isInitialized
  isMonitored site := site.store.beneath.any fun beneath => DataStore.isMonitored (⟨beneath, site.board⟩ : Site μ)
  settle := settle

end Layered

end FlagDelivery
