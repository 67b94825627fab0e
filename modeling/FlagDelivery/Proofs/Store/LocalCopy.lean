import FlagDelivery.Proofs.Store.Refresh

/-!
# The local copy of a layered store

What a layered store holds of its own is a `LocalCopy`: its memory, and whether reads come from it. A call changes the
copy as `LocalCopy.take` says, whatever store is beneath and whatever that store answers: `Layered.copy_call`. So a
store over another one, of which nothing is assumed and to which anything may happen between two calls, has the memory
of a store with nothing beneath that was given the same calls, and answers as that store does once reads come from
memory: `Layered.copy_independent`.
-/

namespace FlagDelivery

namespace Access

/-- The request, if the call writes. -/
def request? : Access → Option Request
  | .write r => some r
  | _ => none

/-- Makes calls of a store one after the other, whatever it answers. -/
def runAll {σ : Type} [DataStore σ] (cs : List Access) (s : Site σ) : Site σ := cs.foldl (fun s c => (c.run.run s).2) s

end Access

/-- What a layered store holds of its own. -/
structure LocalCopy where
  memory : Memory
  reads : Bool

namespace LocalCopy

/-- What a call leaves. Reads turn to memory once all data was replaced. -/
def take (l : LocalCopy) : Access → LocalCopy
  | .write r => ⟨l.memory.take r, l.reads || decide r.Fills⟩
  | _ => l

/-- What calls leave one after the other. -/
def takeAll (l : LocalCopy) (cs : List Access) : LocalCopy := cs.foldl take l

/-- The memory is changed by the calls that write, and by no others. -/
theorem memory_takeAll (l : LocalCopy) (cs : List Access) :
    (l.takeAll cs).memory = l.memory.takeAll (cs.filterMap Access.request?) := by
  induction cs generalizing l with
  | nil => rfl
  | cons c cs ih =>
    change ((l.take c).takeAll cs).memory = _
    rw [ih]
    cases c <;> rfl

/-- Reads come from memory from the first call on that replaces all data. -/
theorem reads_takeAll (l : LocalCopy) (cs : List Access) :
    (l.takeAll cs).reads = true ↔ l.reads = true ∨ ∃ c ∈ cs, c.Fills := by
  induction cs generalizing l with
  | nil => simp [takeAll]
  | cons c cs ih =>
    have hstep : (l.take c).reads = true ↔ l.reads = true ∨ c.Fills := by
      cases c <;> simp [take, Access.Fills]
    change ((l.take c).takeAll cs).reads = true ↔ _
    rw [ih, hstep, or_assoc]
    simp

end LocalCopy

namespace Layered

variable {μ α : Type}

/-- What the store holds of its own. -/
def copy (s : Layered μ) : LocalCopy := ⟨s.memory, s.readsFromMemory⟩

/-- Nothing that is done to the store beneath reaches the copy. -/
@[simp] theorem copy_onBeneath (a : μ) (op : StateM (Site μ) α) (s : Site (Layered μ)) :
    (onBeneath a op s).2.store.copy = s.store.copy := rfl

/-- The end of a need of a refresh does not touch the copy. -/
@[simp] theorem copy_refreshed (s : Site (Layered μ)) : (refreshed s).2.store.copy = s.store.copy := by
  rw [store_refreshed]

/-- Of a call the copy takes the request. -/
theorem copy_kept (s : Layered μ) (c : Access) : (s.kept c).copy = s.copy.take c := by
  cases c <;> rfl

variable [DataStore μ]

/-- A call changes the copy in one way, whatever the store beneath answers. -/
theorem copy_call (c : Access) (s : Site (Layered μ)) :
    ((c.run : StoreM (Site (Layered μ)) Unit).run s).2.store.copy = s.store.copy.take c := by
  rw [call_run, ← copy_kept]
  cases s.store.passes c <;> rfl

/-- Of calls one after the other the copy takes the requests, whatever the store beneath answers. -/
theorem copy_runAll (cs : List Access) (s : Site (Layered μ)) :
    (Access.runAll cs s).store.copy = s.store.copy.takeAll cs := by
  induction cs generalizing s with
  | nil => rfl
  | cons c cs ih =>
    change (Access.runAll cs ((c.run : StoreM (Site (Layered μ)) Unit).run s).2).store.copy = _
    rw [ih, copy_call]
    rfl

/-! ## Runs -/

/-- Something that happens to a layered store: a call, or anything that befalls the store beneath and its board. -/
inductive Occurrence (μ : Type) where
  | call (c : Access)
  | beneath (f : Site μ → Site μ)

/-- The call, if it is one. -/
def Occurrence.call? : Occurrence μ → Option Access
  | .call c => some c
  | .beneath _ => none

/-- One occurrence. -/
def undergo (s : Site (Layered μ)) : Occurrence μ → Site (Layered μ)
  | .call c => ((c.run : StoreM (Site (Layered μ)) Unit).run s).2
  | .beneath f => match s.store.beneath with
    | some a => (onBeneath a (modify f) s).2
    | none => s

/-- Occurrences one after the other. -/
def undergoAll (s : Site (Layered μ)) (os : List (Occurrence μ)) : Site (Layered μ) := os.foldl undergo s

/-- Of a course of occurrences the copy takes the requests, whatever else happens beneath. -/
theorem copy_undergoAll (s : Site (Layered μ)) (os : List (Occurrence μ)) :
    (undergoAll s os).store.copy = s.store.copy.takeAll (os.filterMap Occurrence.call?) := by
  induction os generalizing s with
  | nil => rfl
  | cons o os ih =>
    change (undergoAll (undergo s o) os).store.copy = _
    rw [ih]
    cases o with
    | call c =>
      rw [undergo, copy_call]
      rfl
    | beneath f =>
      have hsame : (undergo s (.beneath f)).store.copy = s.store.copy := by
        rw [undergo]
        split <;> rfl
      rw [hsame]
      rfl

omit [DataStore μ] in
/-- A copy that is read from hides the store beneath. -/
theorem source_of_reads {s : Layered μ} (h : s.copy.reads = true) : s.source = none := if_pos h

/-- Where reads come from memory, nothing but the memory is answered. -/
theorem isInitialized_of_none {s : Site (Layered μ)} (h : s.store.source = none) :
    (isInitialized s).1 = s.store.memory.initialized := by
  simp only [isInitialized, StoreM.bind_apply, StoreM.get_apply, h]
  rfl

/-- **The store beneath never reaches the local copy.** A store over another one, whatever that one is and whatever its
mode, undergoes calls, and between them anything befalls the store beneath. A store with nothing beneath is given the
same calls.
1. Both have the same memory: the one that the requests among the calls leave, one after the other.
2. Reads come from memory exactly if some call replaced all data.
3. Once they do, they do after whatever happens next, and both stores give the same answers: of an item, of all items of
   a kind, and of whether all data was replaced. -/
theorem copy_independent (a : μ) (mode : Mode) (board board' : Board) (os : List (Occurrence μ)) :
    let calls := os.filterMap Occurrence.call?
    let s := undergoAll ⟨above a mode, board⟩ os
    let alone : Site (Layered μ) := Access.runAll calls ⟨memoryOnly, board'⟩
    (s.store.memory = alone.store.memory ∧ alone.store.memory = Memory.empty.takeAll (calls.filterMap Access.request?)) ∧
    (s.store.readsFromMemory = true ↔ ∃ c ∈ calls, c.Fills) ∧
    (s.store.readsFromMemory = true →
      (∀ next, (undergoAll s next).store.readsFromMemory = true) ∧
      (∀ kind key, ((DataStore.find? kind key : StoreM _ (Option Item)).run s).1 =
        ((DataStore.find? kind key : StoreM _ _).run alone).1) ∧
      (∀ kind, ((DataStore.items kind : StoreM _ (List (String × Item))).run s).1 =
        ((DataStore.items kind : StoreM _ _).run alone).1) ∧
      ((DataStore.isInitialized : StateM (Site (Layered μ)) Bool) s).1 =
        ((DataStore.isInitialized : StateM _ Bool) alone).1) := by
  intro calls s alone
  -- Both copies follow from the calls alone. They differ only in where reads come from at first.
  have hs : s.store.copy = (LocalCopy.mk .empty false).takeAll calls := copy_undergoAll _ os
  have halone : alone.store.copy = (LocalCopy.mk .empty true).takeAll calls := copy_runAll calls _
  have hmemory : s.store.memory = Memory.empty.takeAll (calls.filterMap Access.request?) :=
    (congrArg LocalCopy.memory hs).trans (LocalCopy.memory_takeAll _ _)
  have hmemory' : alone.store.memory = Memory.empty.takeAll (calls.filterMap Access.request?) :=
    (congrArg LocalCopy.memory halone).trans (LocalCopy.memory_takeAll _ _)
  have hreads (t : Site (Layered μ)) (next : List (Occurrence μ)) (ht : t.store.copy.reads = true) :
      (undergoAll t next).store.copy.reads = true := by
    rw [copy_undergoAll, LocalCopy.reads_takeAll]
    exact .inl ht
  refine ⟨⟨hmemory.trans hmemory'.symm, hmemory'⟩, ?_, ?_⟩
  · have hiff : s.store.copy.reads = true ↔ ∃ c ∈ calls, c.Fills := by
      rw [hs, LocalCopy.reads_takeAll]
      exact or_iff_right Bool.false_ne_true
    exact hiff
  · intro hfrom
    have hsource : s.store.source = none := source_of_reads hfrom
    have hsource' : alone.store.source = none := by
      refine source_of_reads ?_
      rw [halone, LocalCopy.reads_takeAll]
      exact .inl rfl
    refine ⟨fun next => hreads s next hfrom, ?_, ?_, ?_⟩
    · intro kind key
      rw [find?_of_none hsource, find?_of_none hsource', hmemory, hmemory']
    · intro kind
      rw [items_of_none hsource, items_of_none hsource', hmemory, hmemory']
    · exact (isInitialized_of_none hsource).trans
        ((congrArg _ (hmemory.trans hmemory'.symm)).trans (isInitialized_of_none hsource').symm)

/-- A store that is never reached. -/
def unreached : Attached (Guarded SharedMemory) :=
  .ofShared (.ofBackend (SharedMemory.empty.setReachable false) .unbounded) .unbounded

/-- A flag is read, all data is written and the flag is deleted, none of which reaches the store beneath. It is then
found to be back. -/
def unreachedCalls : List (Occurrence (Attached (Guarded SharedMemory))) :=
  [.call (.find? .features "a"), .call (.write (.init ⟨[(.features, [("a", ⟨1, some .null⟩)])], true⟩)),
    .call (.write (.upsert .features "a" (.tombstone 2))),
    .beneath (Site.mapStore fun a => { a with shared := { a.shared with backend := a.shared.backend.setReachable true } })]

/-- The deletion is read from memory, as it is where there is nothing beneath. -/
theorem copy_independent_unreached :
    let s := undergoAll ⟨above unreached .readWrite, .initial true⟩ unreachedCalls
    s.store.readsFromMemory = true ∧ s.store.memory.initialized = true ∧
      ((DataStore.find? .features "a" : StoreM _ (Option Item)).run s).1 = .ok (some (.tombstone 2)) := by
  intro s
  obtain ⟨⟨hmemory, -⟩, hreads, hfrom⟩ :=
    copy_independent unreached .readWrite (.initial true) (.initial false) unreachedCalls
  have hfrom := hfrom (hreads.mpr ⟨_, List.mem_cons_of_mem _ List.mem_cons_self, trivial⟩)
  exact ⟨hfrom.1 [], (congrArg Memory.initialized hmemory).trans rfl, (hfrom.2.1 .features "a").trans rfl⟩

end Layered

end FlagDelivery
