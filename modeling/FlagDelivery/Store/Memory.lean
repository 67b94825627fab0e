import FlagDelivery.Store.Basic
import Std.Data.TreeMap

/-!
# The store in memory

`Memory` holds a table of items for each kind. Its operations are functions on the whole of it, so a reader
never sees a batch half applied. `Memory.find?` is the view through which they are described.
-/

namespace FlagDelivery

/-- Items by key. -/
abbrev Table := Std.TreeMap String Item

namespace Table

/-- The table of entries; of two with one key the later wins. -/
def ofEntries (es : List (String × Item)) : Table := Std.TreeMap.ofList es

/-- The version held under a key; a missing one counts as `-1`. -/
def versionAt (t : Table) (key : String) : Int := (t[key]?.map Item.version).getD (-1)

/-- Takes an entry if it is newer than what is held. -/
def offer (t : Table) (key : String) (item : Item) : Table :=
  if t.versionAt key < item.version then t.insert key item else t

/-- An entry is taken exactly if it is newer, and nothing else changes. -/
theorem getElem?_offer (t : Table) (key : String) (item : Item) (k : String) :
    (t.offer key item)[k]? = if key = k ∧ t.versionAt key < item.version then some item else t[k]? := by
  unfold offer
  split
  · simp_all [Std.TreeMap.getElem?_insert]
  · next h => simp [h]

/-- Takes those of the entries that are newer than what is held, one after the other. -/
def offerAll (t : Table) (es : List (String × Item)) : Table := es.foldl (fun t (key, item) => t.offer key item) t

end Table

/-- A store in memory. A kind that nothing was ever written to has no table. -/
structure Memory where
  tables : PerKind (Option Table)
  initialized : Bool
  selector : Selector
  deriving Inhabited

namespace Memory

/-- The store that holds nothing. -/
def empty : Memory := ⟨.const none, false, .empty⟩

/-- The table of a kind. -/
def table (m : Memory) (kind : Kind) : Table := (m.tables.get kind).getD ∅

/-- The item held under a key. -/
def find? (m : Memory) (kind : Kind) (key : String) : Option Item := (m.table kind)[key]?

/-- All items of a kind, in ascending order of key. -/
def items (m : Memory) (kind : Kind) : List (String × Item) := (m.table kind).toList

/-- The tables with those of the listed kinds replaced; of two groups of one kind the later wins. -/
def replace (tables : PerKind (Option Table)) (data : Groups Item) : PerKind (Option Table) :=
  data.foldl (fun t (kind, es) => t.set kind (some (Table.ofEntries es))) tables

/-- The tables after offering them the items of each group. -/
def offer (tables : PerKind (Option Table)) (data : Groups Item) : PerKind (Option Table) :=
  data.foldl (fun t (kind, es) => t.set kind (some (((t.get kind).getD ∅).offerAll es))) tables

/-- The store filled with a data set and nothing else. -/
def init (data : Groups Item) : Memory := ⟨replace (.const none) data, true, .empty⟩

/-- Writes an item unless one of the same or a higher version is held. -/
def upsert (m : Memory) (kind : Kind) (key : String) (item : Item) : Bool × Memory :=
  if (m.find? kind key).any fun old => item.version ≤ old.version then (false, m)
  else (true, { m with tables := m.tables.set kind (some ((m.table kind).insert key item)) })

/-- An item is written exactly if every item held under its key is older. -/
theorem upsert_fst_iff (m : Memory) (kind : Kind) (key : String) (item : Item) :
    (m.upsert kind key item).1 = true ↔ ∀ old, m.find? kind key = some old → old.version < item.version := by
  unfold upsert
  cases m.find? kind key with
  | none => simp
  | some old =>
    rcases Int.lt_or_le old.version item.version with h | h
    · simp [Int.not_le.mpr h, h]
    · simp [h, Int.not_lt.mpr h]

/-- Writing an item changes what is held under its key, if it is written, and nothing else. -/
theorem find?_upsert (m : Memory) (kind : Kind) (key : String) (item : Item) (kind' : Kind) (key' : String) :
    (m.upsert kind key item).2.find? kind' key' =
      if (kind = kind' ∧ key = key') ∧ (m.upsert kind key item).1 = true then some item else m.find? kind' key' := by
  unfold upsert
  split
  · simp
  · by_cases hk : kind = kind'
    · subst hk
      simp [find?, table, Std.TreeMap.getElem?_insert]
    · simp [find?, table, hk]

/-- Applies a batch. -/
def apply (m : Memory) (b : Batch) : Memory :=
  match b.extent with
  | .full => ⟨replace m.tables b.data, true, b.selector⟩
  | .incremental => { m with tables := offer m.tables b.data, selector := b.selector }
  | .none => if b.selector.isEmpty then m else { m with selector := b.selector }

/-- All data held, by the kinds that have a table. -/
def contents (m : Memory) : DataSet Item where
  data := Kind.all.filterMap fun kind => (m.tables.get kind).map fun t => (kind, t.toList)
  persist := true

instance : DataStore Memory where
  init d := Site.onStore (set (init d.data))
  find? kind key := Site.onStore do return (← get).find? kind key
  items kind := Site.onStore do return (← get).items kind
  upsert kind key item := Site.onStore (StoreM.sure fun m => m.upsert kind key item)
  apply b := Site.onStore (modify (·.apply b))
  selector m := m.selector
  isInitialized := do return (← get).store.initialized
  isMonitored _ := false
  settle := pure ()

end Memory

end FlagDelivery
