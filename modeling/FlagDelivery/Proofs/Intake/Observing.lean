import FlagDelivery.Proofs.Store.MemoryOnly
import FlagDelivery.Proofs.Store.Reads
import FlagDelivery.Settings

/-!
# Observing changes

To announce changes an intake reads the versions that the store holds before a batch. `Intake.apply_observed` compares
an intake that announces with one that does not, on any state of a layered store. Where the versions can be read the
outcome is the same. Where they cannot, the read that failed is reported as a failure of the store, and the batch is not
handed to it.
-/

namespace FlagDelivery

/-! ## Reads of a layered store -/

namespace Layered

/-- What is held under a key can be read: it is read from memory, or from a backend that can be reached and tells its
version. -/
def Readable (s : Backed) (kind : Kind) (key : String) : Prop :=
  ∀ a, s.source = some a → a.shared.backend.reachable = true ∧ a.shared.backend.Versioned kind key

/-- The site once a read of the store beneath has failed. -/
def lost (site : Site Backed) : Site Backed :=
  match site.store.source with
  | some a => ⟨{ site.store with beneath := some (Attached.lost ⟨a, site.board⟩).store }, site.board.marked⟩
  | none => site

variable {site : Site Backed}

/-- Two layered stores have the same memory, flags and backend; only whether the backend is watched for its return may
differ. -/
structure SameData (s t : Backed) : Prop where
  memory : s.memory = t.memory
  readsFromMemory : s.readsFromMemory = t.readsFromMemory
  mode : s.mode = t.mode
  beneath : s.beneath.map (fun a => { a with polling := true }) = t.beneath.map fun a => { a with polling := true }

/-- A failed read changes nothing but that the backend is watched for its return. -/
theorem sameData_lost (site : Site Backed) : SameData (lost site).store site.store := by
  unfold lost
  cases hs : site.store.source with
  | none => exact ⟨rfl, rfl, rfl, rfl⟩
  | some a => exact ⟨rfl, rfl, rfl, by rw [beneath_of_source hs]; rfl⟩

/-- A read that hinges on what the store beneath holds hinges on it only while reads come from there. -/
theorem hinges_read {α : Type} (fromMemory : Memory → α) {op : StoreM (Site Remote) α}
    {p : Remote → Prop}
    (h : ∀ a, site.store.source = some a → StoreM.Hinges (p a) op ⟨a, site.board⟩ (Attached.lost ⟨a, site.board⟩)) :
    StoreM.Hinges (∀ a, site.store.source = some a → p a) (read fromMemory op) site (lost site) := by
  cases hs : site.store.source with
  | none =>
    refine ⟨fun _ => ⟨_, read_of_none hs fromMemory op⟩, fun hp => absurd ?_ hp⟩
    intro a ha
    cases ha
  | some a =>
    have hsame : ({ site.store with beneath := some a } : Backed) = site.store := by rw [← beneath_of_source hs]
    constructor
    · intro hp
      obtain ⟨x, hx⟩ := (h a hs).ok (hp a rfl)
      refine ⟨x, ?_⟩
      simp [read, hs, onBeneath, Site.zoom, hx, hsame]
    · intro hp
      have hp : ¬p a := fun ha => hp fun a' ha' => Option.some.inj ha' ▸ ha
      obtain ⟨e, he⟩ := (h a hs).error hp
      refine ⟨e, ?_⟩
      simp [read, hs, onBeneath, Site.zoom, he, lost, Attached.lost]

/-- Looking up an item succeeds exactly if what is held under its key can be read. -/
theorem hinges_find? (site : Site Backed) (kind : Kind) (key : String) :
    StoreM.Hinges (site.store.Readable kind key) (DataStore.find? kind key : StoreM (Site Backed) (Option Item)) site
      (lost site) :=
  hinges_read _ fun a _ => Attached.hinges_find? ⟨a, site.board⟩ kind key

/-- Reading all items of a kind succeeds exactly if what is held under each key of the kind can be read. -/
theorem hinges_items (site : Site Backed) (kind : Kind) :
    StoreM.Hinges (∀ key, site.store.Readable kind key)
      (DataStore.items kind : StoreM (Site Backed) (List (String × Item))) site
      (lost site) := by
  refine (hinges_read _ fun a _ => Attached.hinges_items ⟨a, site.board⟩ kind).congr ?_
  constructor
  · intro h key a ha
    exact ⟨(h a ha).1, (h a ha).2 key⟩
  · intro h a ha
    exact ⟨(h "" a ha).1, fun key => (h key a ha).2⟩

end Layered

namespace Intake

open StoreM (Hinges)

/-! ## Reading the versions before a batch -/

variable (site : Site Backed)

/-- The versions of whole kinds can be read exactly if all that these kinds hold can be. -/
theorem hinges_versionsOf (kinds : List Kind) (v : Versions) :
    Hinges (∀ kind ∈ kinds, ∀ key, site.store.Readable kind key) (versionsOf kinds v) site (Layered.lost site) := by
  induction kinds generalizing v with
  | nil => exact (StoreM.hinges_pure v).congr (by simp)
  | cons kind kinds ih =>
    rw [versionsOf]
    exact ((Layered.hinges_items site kind).bind fun items => ih _).congr (by simp only [List.forall_mem_cons])

/-- The versions of listed items can be read exactly if each of these can be. -/
theorem hinges_versionsAt (es : List (Kind × String × Item)) (v : Versions) :
    Hinges (∀ e ∈ es, site.store.Readable e.1 e.2.1) (versionsAt es v) site (Layered.lost site) := by
  induction es generalizing v with
  | nil => exact (StoreM.hinges_pure v).congr (by simp)
  | cons e es ih =>
    obtain ⟨kind, key, item⟩ := e
    rw [versionsAt]
    refine (Hinges.bind (q := ∀ e ∈ es, site.store.Readable e.1 e.2.1) (Layered.hinges_find? site kind key)
      fun found => ?_).congr
      (by simp only [List.forall_mem_cons])
    cases found with
    | none => exact ih v
    | some old => exact ih _

/-- The versions before a batch can be read exactly if each of those that are consulted can be. -/
theorem hinges_versionsBefore (b : Batch) :
    Hinges (∀ kind key, b.Consults kind key → site.store.Readable kind key) (versionsBefore b) site (Layered.lost site) := by
  unfold versionsBefore Batch.Consults
  cases b.extent with
  | full =>
    refine (hinges_versionsOf site _ _).congr ?_
    simp only [List.forall_mem_map]
    constructor
    · rintro h kind key ⟨es, he⟩
      exact h _ he key
    · intro h e he key
      exact h e.1 key ⟨e.2, he⟩
  | incremental =>
    refine (hinges_versionsAt site _ _).congr ?_
    constructor
    · rintro h kind key ⟨item, he⟩
      exact h _ he
    · intro h e he
      exact h e.1 e.2.1 ⟨e.2.2, he⟩
  | none => exact (StoreM.hinges_pure _).congr (by simp)

/-! ## With and without announcements -/

variable {σ : Type}

/-- The intake with nobody asking for changes. -/
def unobserved (i : Intake σ) : Intake σ := { i with announcing := .off }

/-- Two intakes differ at most in what is announced. -/
structure SameOutcome (i j : Intake σ) : Prop where
  site : i.site = j.site
  state : i.state = j.state
  lastError : i.lastError = j.lastError
  moves : i.moves = j.moves
  reports : i.reports = j.reports
  handed : i.handed = j.handed

theorem sameOutcome_unobserved (i : Intake σ) : i.SameOutcome i.unobserved := ⟨rfl, rfl, rfl, rfl, rfl, rfl⟩

variable {i j : Intake σ}

/-- A report keeps two intakes alike. -/
theorem SameOutcome.report (h : i.SameOutcome j) (reported : SourceState) (error : Option ErrorReport) :
    SameOutcome (report reported error i).2 (report reported error j).2 := by
  obtain ⟨hsite, hstate, herror, hmoves, hreports, hhanded⟩ := h
  simp only [Intake.report, StoreM.modify_apply, hstate]
  split
  · exact ⟨hsite, hstate, herror, hmoves, hreports, hhanded⟩
  · exact ⟨hsite, rfl, by simp only [herror], by simp only [hmoves], by simp only [hreports], hhanded⟩

/-- Announcements, even different ones, keep two intakes alike. -/
theorem SameOutcome.announce (h : i.SameOutcome j) (cs ds : List ItemChange) :
    SameOutcome (announce cs i).2 (announce ds j).2 := by
  obtain ⟨hsite, hstate, herror, hmoves, hreports, hhanded⟩ := h
  simp only [Intake.announce, StoreM.modify_apply]
  split <;> split <;> exact ⟨hsite, hstate, herror, hmoves, hreports, hhanded⟩

variable [DataStore σ]

/-- A batch that is handed to the store gets the same answer from both intakes and keeps them alike. -/
theorem SameOutcome.hand (h : i.SameOutcome j) (b : Batch) :
    (hand b i).1 = (hand b j).1 ∧ SameOutcome (hand b i).2 (hand b j).2 := by
  obtain ⟨hsite, hstate, herror, hmoves, hreports, hhanded⟩ := h
  simp only [Intake.hand, onSite, StoreM.bind_apply, StoreM.modify_apply, StoreM.focus_apply, hsite, hhanded]
  exact ⟨trivial, rfl, hstate, herror, hmoves, hreports, rfl⟩

/-- What follows once the versions before a batch are known: the batch is handed to the store, and what came of it is
reported. -/
def accept (b : Batch) (cs : List ItemChange) (i : Intake σ) : Bool × Intake σ :=
  match hand b i with
  | (.error e, i) => (false, (reportFailure e i).2)
  | (.ok (), i) => (true, (report .valid none (announce cs i).2).2)

/-- All that follows gets the same answer from both intakes and keeps them alike, whatever versions each of them
knows. -/
theorem SameOutcome.accept (h : i.SameOutcome j) (b : Batch) (cs ds : List ItemChange) :
    (accept b cs i).1 = (accept b ds j).1 ∧ SameOutcome (accept b cs i).2 (accept b ds j).2 := by
  obtain ⟨hr, hs⟩ := h.hand b
  unfold Intake.accept
  rcases hi : Intake.hand b i with ⟨r, i'⟩
  rcases hj : Intake.hand b j with ⟨r', j'⟩
  rw [hi, hj] at hr hs
  obtain rfl : r = r' := hr
  cases r with
  | error e => exact ⟨rfl, hs.report _ _⟩
  | ok u => exact ⟨rfl, (hs.announce cs ds).report _ _⟩

/-- With nobody asking for changes a batch is handed to the store at once. -/
theorem apply_unobserved (b : Batch) (i : Intake σ) : apply b i.unobserved = accept b (b.changes .none) i.unobserved := by
  have hoff : i.unobserved.announcing = .off := rfl
  rcases hh : hand b i.unobserved with ⟨e | u, i'⟩ <;> simp [apply, accept, hoff, hh]

/-- With somebody asking for changes a batch is handed to the store once the versions before it are read. -/
theorem apply_of_versions (h : i.announcing ≠ .off) {b : Batch} {v : Versions}
    (hv : (versionsBefore b).run i.site = (.ok v, i.site)) : apply b i = accept b (b.changes v) i := by
  rcases hh : hand b i with ⟨e | u, i'⟩ <;> simp [apply, accept, h, onSite, hv, hh]

/-- With somebody asking for changes a batch is not handed to the store if the versions before it cannot be read. -/
theorem apply_of_error (h : i.announcing ≠ .off) {b : Batch} {e : StoreError} {site : Site σ}
    (hv : (versionsBefore b).run i.site = (.error e, site)) : apply b i = (false, (reportFailure e { i with site }).2) := by
  simp [apply, h, onSite, hv]

/-! ## What observing alters -/

/-- Whether changes are announced alters nothing else, if every version that is consulted can be read: the answer, the
store with its memory, selector, flags and backend, and the state of the data source are the same. If not, the
announcing intake answers that the batch was not accepted; it has not handed it to the store, which is as it was but for
the watch on its backend, and the data source is interrupted by a failure of the store. -/
theorem apply_observed {i : Intake Backed} (h : i.announcing ≠ .off) (b : Batch) :
    ((∀ kind key, b.Consults kind key → i.site.store.Readable kind key) →
      (apply b i).1 = (apply b i.unobserved).1 ∧ SameOutcome (apply b i).2 (apply b i.unobserved).2) ∧
    (¬(∀ kind key, b.Consults kind key → i.site.store.Readable kind key) →
      (apply b i).1 = false ∧ (apply b i).2.site = Layered.lost i.site ∧
      Layered.SameData (apply b i).2.site.store i.site.store ∧ (apply b i).2.state = nextState i.state .interrupted ∧
      (∃ e : StoreError, (apply b i).2.lastError = some (.described .store e.message)) ∧
      (apply b i).2.handed = i.handed ∧ (apply b i).2.announced = i.announced) := by
  have hinges := hinges_versionsBefore i.site b
  constructor
  · intro hr
    obtain ⟨v, hv⟩ := hinges.ok hr
    rw [apply_of_versions h hv, apply_unobserved]
    exact (sameOutcome_unobserved i).accept b _ _
  · intro hr
    obtain ⟨e, he⟩ := hinges.error hr
    rw [apply_of_error h he]
    have hsite : (reportFailure e { i with site := Layered.lost i.site }).2.site = Layered.lost i.site := by
      simp [reportFailure, report]
    have hsame : Layered.SameData (reportFailure e { i with site := Layered.lost i.site }).2.site.store i.site.store := by
      rw [hsite]
      exact Layered.sameData_lost i.site
    refine ⟨rfl, hsite, hsame, ?_, ⟨e, ?_⟩, ?_, ?_⟩ <;> simp [reportFailure, report]

/-- An intake that announces, for the store that settings call for over a backend. -/
def heardOver (s : Settings) (b : SharedMemory) : Intake Backed := ofSite (s.stores (some b)) .heard

/-- A change of one flag. -/
def oneFlag : Batch := ⟨.incremental, .empty, [(.features, [("a", ⟨1, some (.obj [])⟩)])], none, true⟩

/-- Over a backend that holds nothing yet observing alters nothing; over one that is cut off the batch is not handed
on. -/
theorem apply_observed_oneFlag :
    SameOutcome (apply oneFlag (heardOver .default .empty)).2 (apply oneFlag (heardOver .default .empty).unobserved).2 ∧
    (apply oneFlag (heardOver .default (SharedMemory.empty.setReachable false))).2.handed = [] := by
  have hheard (s : Settings) (b : SharedMemory) : (heardOver s b).announcing ≠ .off := nofun
  constructor
  · refine ((apply_observed (hheard _ _) oneFlag).1 ?_).2
    rintro kind key - a ⟨⟩
    refine ⟨rfl, ?_⟩
    intro text ht
    cases ht
  · refine ((apply_observed (hheard _ _) oneFlag).2 ?_).2.2.2.2.2.1
    intro h
    exact nomatch (h .features "a" ⟨_, List.mem_singleton.mpr rfl⟩ _ rfl).1

/-- A change that goes to memory alone is accepted while the backend is cut off, unless it is observed. -/
theorem observing_refuses :
    let i := heardOver { Settings.default with mode := .readOnly } (SharedMemory.empty.setReachable false)
    (apply oneFlag i).1 = false ∧ (apply oneFlag i.unobserved).1 = true :=
  ⟨rfl, rfl⟩

end Intake

end FlagDelivery
