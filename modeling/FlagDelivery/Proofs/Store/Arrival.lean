import FlagDelivery.Proofs.Item.Grouping
import FlagDelivery.Proofs.Store.Slots

/-!
# Changes read in their order of arrival

A batch holds the changes of a change set by kind, and a memory takes it kind by kind. What that leaves is what the
changes leave when they are read one at a time as they arrived, `View.read`: `Memory.apply_ofChangeSet_reads`.
-/

namespace FlagDelivery

namespace Offers

/-- The items that go to a key are those of its kind that go there. -/
theorem under_eq (es : Offers) (kind : Kind) (key : String) :
    es.under kind key = (Groups.ofKind es kind).filterMap fun (key', item) => if key' = key then some item else none := by
  unfold under Groups.ofKind
  rw [List.filterMap_filterMap]
  refine congrArg (List.filterMap · es) (funext fun ⟨kind', key', item⟩ => ?_)
  by_cases h : kind' = kind <;> simp [h]

end Offers

namespace View

/-- Nothing is held. -/
def nothing : View := fun _ _ => none

/-- An item is written over whatever is held. -/
def overwritten (v : View) (kind : Kind) (key : String) (item : Item) : View := fun kind' key' =>
  if kind = kind' ∧ key = key' then some item else v kind' key'

/-- One change is read by itself: a put with an object writes an item with it, a deletion a tombstone, each of the
change's version. A put without an object and a change of a kind without meaning write nothing. -/
def read (write : View → Kind → String → Item → View) (v : View) (c : Change) : View :=
  match Kind.ofWire? c.kind, c.operation, c.object with
  | some kind, .put, some object => write v kind c.key ⟨c.version, some object⟩
  | some _, .put, none => v
  | some kind, .delete, _ => write v kind c.key (.tombstone c.version)
  | none, _, _ => v

/-- Changes are read one after the other. -/
def readAll (write : View → Kind → String → Item → View) (v : View) (cs : List Change) : View := cs.foldl (read write) v

variable (write : View → Kind → String → Item → View)

/-- Reading a change writes its entry, if it has one. -/
theorem read_eq (v : View) (c : Change) : read write v c = match c.entry? with
    | some (kind, key, item) => write v kind key item
    | none => v := by
  unfold read Change.entry?
  cases hk : Kind.ofWire? c.kind with
  | none => rfl
  | some kind => cases ho : c.operation <;> cases hb : c.object <;> rfl

/-- To read changes is to write their items in their order of arrival. -/
theorem readAll_eq (v : View) (cs : List Change) :
    readAll write v cs = (Batch.arrivals cs).foldl (fun v (kind, key, item) => write v kind key item) v := by
  induction cs generalizing v with
  | nil => rfl
  | cons c cs ih =>
    change readAll write (read write v c) cs = _
    rw [ih, read_eq]
    unfold Batch.arrivals
    rw [List.filterMap_cons]
    cases c.entry? <;> rfl

/-- Items that are written over one another from nothing leave under a key the last of them. -/
theorem foldl_overwritten_apply (es : Offers) (kind : Kind) (key : String) :
    es.foldl (fun v (kind, key, item) => overwritten v kind key item) nothing kind key =
      (Groups.ofKind es kind).reverse.lookup key := by
  induction es using List.reverseRecOn with
  | nil => rfl
  | append_singleton es e ih =>
    obtain ⟨kind', key', item⟩ := e
    rw [List.foldl_append, Groups.ofKind_append, Groups.ofKind_singleton, List.reverse_append, List.lookup_append, ← ih]
    simp only [List.foldl_cons, List.foldl_nil, overwritten]
    by_cases hk : kind' = kind
    · by_cases hkey : key' = key
      · simp [hk, hkey]
      · have hne : (key == key') = false := beq_false_of_ne (Ne.symm hkey)
        simp [hk, hkey, List.lookup_cons, hne]
    · simp [hk]

end View

namespace Memory

variable (m : Memory) (c : ChangeSet) (environment : Option String) (persist : Bool)

/-- **Grouping by kind preserves what changes mean**, whatever a memory held before, in three parts.
1. A change set that changes what is held leaves what its changes leave when they are offered one at a time in their
   order of arrival.
2. A change set that is all the data leaves what its changes leave when they are written over one another one at a time,
   from nothing.
3. Both leave their selector. -/
theorem apply_ofChangeSet_reads :
    (c.extent = .incremental → ∀ kind key, (m.apply (.ofChangeSet c environment persist)).find? kind key =
      View.readAll View.offered m.find? c.changes kind key) ∧
    (c.extent = .full → ∀ kind key, (m.apply (.ofChangeSet c environment persist)).find? kind key =
      View.readAll View.overwritten View.nothing c.changes kind key) ∧
    (c.extent ≠ .none → (m.apply (.ofChangeSet c environment persist)).selector = c.selector) := by
  refine ⟨?_, ?_, ?_⟩
  · intro he kind key
    have hbatch : (Batch.ofChangeSet c environment persist).extent = .incremental := he
    have hdata : (Batch.ofChangeSet c environment persist).data = Batch.group c.changes := if_neg (by rw [he]; decide)
    have hread : View.readAll View.offered m.find? c.changes = View.offeredAll m.find? (Batch.arrivals c.changes) :=
      View.readAll_eq _ _ _
    -- Grouping brings kinds together; under each key the items stand as they arrived.
    have hitems :
        Offers.under (Batch.group c.changes).entries kind key = Offers.under (Batch.arrivals c.changes) kind key := by
      rw [Offers.under_eq, Offers.under_eq, Batch.ofKind_group]
    rw [find?_apply_incremental m hbatch, hdata, hread, View.offeredAll_apply, View.offeredAll_apply, hitems]
  · intro he kind key
    have hbatch : (Batch.ofChangeSet c environment persist).extent = .full := he
    have hdata : (Batch.ofChangeSet c environment persist).data = Batch.listAll (Batch.group c.changes) := if_pos he
    have hdistinct := Batch.distinct_listAll (Batch.distinct_group c.changes)
    have hview : (m.apply (.ofChangeSet c environment persist)).find? =
        viewOf (replace m.tables (Batch.listAll (Batch.group c.changes))) := by
      rw [apply, hbatch, hdata]
      rfl
    rw [hview, viewOf_replace, hdistinct.lookup_reverse, Batch.lookup_listAll, Batch.lookup_group, View.readAll_eq,
      View.foldl_overwritten_apply]
  · intro he
    have hextent : (Batch.ofChangeSet c environment persist).extent = c.extent := rfl
    unfold apply
    rw [hextent]
    cases hc : c.extent with
    | none => exact absurd hc he
    | _ => rfl

/-- A flag that is put twice with a segment in between, a put without an object and a change of a kind without meaning. -/
def mixedChanges (extent : Extent) : ChangeSet :=
  ⟨extent, [⟨.put, "flag", "a", 2, some .null⟩, ⟨.delete, "segment", "a", 3, none⟩, ⟨.put, "flag", "b", 1, none⟩,
    ⟨.put, "goal", "a", 9, some .null⟩, ⟨.put, "flag", "a", 1, some (.bool true)⟩], .point 1 "s"⟩

/-- Read as a change the older flag is not taken; read as all data it is, since it came last. -/
theorem apply_mixedChanges :
    (empty.apply (.ofChangeSet (mixedChanges .incremental) none true)).find? .features "a" = some ⟨2, some .null⟩ ∧
      (empty.apply (.ofChangeSet (mixedChanges .full) none true)).find? .features "a" = some ⟨1, some (.bool true)⟩ ∧
      (empty.apply (.ofChangeSet (mixedChanges .full) none true)).selector = .point 1 "s" := by
  obtain ⟨hchange, -, -⟩ := apply_ofChangeSet_reads empty (mixedChanges .incremental) none true
  obtain ⟨-, hall, hselector⟩ := apply_ofChangeSet_reads empty (mixedChanges .full) none true
  exact ⟨(hchange rfl .features "a").trans rfl, (hall rfl .features "a").trans rfl, hselector (by decide)⟩

end Memory

end FlagDelivery
