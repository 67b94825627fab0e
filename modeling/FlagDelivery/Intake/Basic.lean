import FlagDelivery.Item.Batching
import FlagDelivery.Source.State
import FlagDelivery.Store.Basic
import Std.Data.TreeMap

/-!
# The intake

An `Intake` is where a data source delivers batches and reports its state. It hands batches to a store, keeps
the state of the data source, and, if someone asked for it, announces each item whose version a batch changed.
The announcements follow from the versions that the store held before the batch.
-/

namespace FlagDelivery

/-- Whether items' changes are announced, and to whom. -/
inductive Announcing where
  /-- Nobody asked. -/
  | off
  /-- Someone listens. -/
  | heard
  /-- Someone asked and has gone. -/
  | unheard
  deriving DecidableEq, Inhabited

/-- An item whose version changed. -/
structure ItemChange where
  kind : Kind
  key : String
  deriving DecidableEq, Inhabited

/-- Versions by kind and key. -/
abbrev Versions := PerKind (Std.TreeMap String Int)

/-- A store with the state of the data source that fills it. -/
structure Intake (σ : Type) where
  site : Site σ
  state : SourceState
  lastError : Option ErrorReport
  /-- How often the state changed. -/
  moves : Nat
  /-- How often a change of state or a new error was reported to observers. -/
  reports : Nat
  announcing : Announcing
  /-- The changes announced, in order. -/
  announced : List ItemChange
  /-- The batches handed to the store, in order. -/
  handed : List Batch

namespace Versions

/-- No versions. -/
def none : Versions := .const ∅

/-- The version noted for an item. -/
def find? (v : Versions) (kind : Kind) (key : String) : Option Int := (v.get kind)[key]?

/-- The versions with one more noted. -/
def note (v : Versions) (kind : Kind) (key : String) (version : Int) : Versions :=
  v.set kind ((v.get kind).insert key version)

end Versions

namespace Batch

/-- The listed items that are newer than before, in the order of the batch. -/
def newer (b : Batch) (before : Versions) : List ItemChange :=
  (b.data.entries.filter fun (kind, key, item) => (before.find? kind key).all fun old => old < item.version).map
    fun (kind, key, _) => ⟨kind, key⟩

/-- The items held before that the batch does not list, by kind and key. -/
def dropped (b : Batch) (before : Versions) : List ItemChange :=
  Kind.all.flatMap fun kind => ((before.get kind).keys.filter fun key => !b.data.has kind key).map fun key => ⟨kind, key⟩

/-- The changes that a batch makes to the versions held before; a full batch also removes items. -/
def changes (b : Batch) (before : Versions) : List ItemChange :=
  b.newer before ++ if b.extent = .full then b.dropped before else []

end Batch

namespace Intake

variable {σ α : Type}

/-- An intake for a store, with a data source that has just started. -/
def ofSite (site : Site σ) (announcing : Announcing) : Intake σ :=
  ⟨site, .initializing, none, 0, 0, announcing, [], []⟩

/-- Runs an operation on the store and its board. -/
def onSite (op : StateM (Site σ) α) : StateM (Intake σ) α :=
  StoreM.focus Intake.site (fun site i => { i with site }) op

/-- The state that a report leads to: a data source that is still initializing is not interrupted. -/
def nextState (current reported : SourceState) : SourceState :=
  if reported = .interrupted ∧ current = .initializing then .initializing else reported

/-- Takes a report of the data source's state. One that brings neither another state nor an error is no news. -/
def report (reported : SourceState) (error : Option ErrorReport) : StateM (Intake σ) Unit := modify fun i =>
  let state := nextState i.state reported
  if state = i.state ∧ error.isNone then i
  else
    { i with
      state
      lastError := error.or i.lastError
      moves := if state = i.state then i.moves else i.moves + 1
      reports := i.reports + 1 }

/-- Reports that the store failed. -/
def reportFailure (e : StoreError) : StateM (Intake σ) Unit :=
  report .interrupted (some (.described .store e.message))

/-- Announces changes, if someone listens. -/
def announce (cs : List ItemChange) : StateM (Intake σ) Unit := modify fun i =>
  if i.announcing = .heard then { i with announced := i.announced ++ cs } else i

variable [DataStore σ]

/-- The selector of the data that the store holds. -/
def selector (i : Intake σ) : Selector := DataStore.selector i.site.store

/-- The versions of all items of kinds. -/
def versionsOf : List Kind → Versions → StoreM (Site σ) Versions
  | [], v => pure v
  | kind :: kinds, v => do
    let items ← DataStore.items kind
    versionsOf kinds (items.foldl (fun v (key, item) => v.note kind key item.version) v)

/-- The versions of single items, as far as they are held. -/
def versionsAt : List (Kind × String × Item) → Versions → StoreM (Site σ) Versions
  | [], v => pure v
  | (kind, key, _) :: es, v => do
    match ← DataStore.find? kind key with
    | some item => versionsAt es (v.note kind key item.version)
    | none => versionsAt es v

/-- The versions that a batch may change. -/
def versionsBefore (b : Batch) : StoreM (Site σ) Versions :=
  match b.extent with
  | .full => versionsOf (List.map Prod.fst b.data) .none
  | .incremental => versionsAt b.data.entries .none
  | .none => pure .none

/-- Hands a batch to the store. -/
def hand (b : Batch) : StateM (Intake σ) (Except StoreError Unit) := do
  modify fun i => { i with handed := i.handed ++ [b] }
  onSite (DataStore.apply b).run

/-- Applies a batch: answers whether the store accepted it. The versions before are read only if changes are
announced; a failure to read them is a failure of the store. -/
def apply (b : Batch) : StateM (Intake σ) Bool := do
  let before ← if (← get).announcing = .off then pure (.ok .none) else onSite (versionsBefore b).run
  match before with
  | .error e =>
    reportFailure e
    return false
  | .ok before =>
    match ← hand b with
    | .error e =>
      reportFailure e
      return false
    | .ok () =>
      announce (b.changes before)
      report .valid none
      return true

/-- The kind of error that a feed's complaint is. -/
def complaintKind : Complaint → ErrorKind
  | .invalidData => .invalidData
  | .unknown => .unknown

/-- Takes what a feed tells its listeners: a payload is applied, an error reported. -/
def takeNotice (environment : Option String) (persist : Bool) : Notice → StateM (Intake σ) Unit
  | .payload p => discard (apply (.ofChangeSet (.ofPayload p) environment persist))
  | .error complaint message => report .interrupted (some (.described (complaintKind complaint) message))

end Intake

end FlagDelivery
