import FlagDelivery.Proofs.Store.Attached
import FlagDelivery.Proofs.Store.Requests
import FlagDelivery.Proofs.Store.Writers
import FlagDelivery.Store.Layered

/-!
# Writing through one operation at a time

A `Mirror` is a memory whose data is written through to a backend, with the board on which the backend's health is
posted and the `Work` left of the call under way. `Mirror.call` begins a call and changes the memory, `Mirror.go` makes
the next operation on the backend or the next post on the board; between any two of them the backend's health may be
checked. `Mirror.answers_call` says that a call whose operations follow one another is the call of a layered store, on
whatever backend.
-/

namespace FlagDelivery

namespace Request

/-- The call of a layered store. -/
def run {β : Type} [Backend β] : Request → StoreM (Site (Layered (Attached (Guarded β)))) Bool
  | .init d => do
    DataStore.init d
    return true
  | .apply b => do
    DataStore.apply b
    return true
  | .upsert kind key item => DataStore.upsert kind key item

end Request

/-- What is left of a call. -/
inductive Work where
  /-- Nothing: the call has answered. -/
  | idle (answer : Option (Except StoreError Bool))
  /-- All data is about to be replaced. -/
  | fill (texts : List (String × List (String × String)))
  /-- The data was replaced; the need of a refresh is about to end. -/
  | clear
  /-- An item is being written; a batch has more items after it. -/
  | write (w : Writer) (rest : Option (List (Kind × String × Item)))
  /-- An operation failed; the backend is about to be posted as unavailable. -/
  | mark (e : StoreError)

/-- The items of a batch one after the other. -/
def Work.writes (retry : Policy) : List (Kind × String × Item) → Work
  | [] => .idle (some (.ok true))
  | (kind, key, item) :: es => .write (.fresh kind key (.ofItem item) retry) (some es)

/-- What follows an item that was written or was not newer. -/
def Work.after (retry : Policy) (written : Bool) : Option (List (Kind × String × Item)) → Work
  | none => .idle (some (.ok written))
  | some es => .writes retry es

/-- A memory that is written through to a backend, in the midst of a call. -/
structure Mirror (β : Type) where
  memory : Memory
  backend : β
  retry : Policy
  board : Board
  work : Work
  /-- Some call that replaces all data was accepted. -/
  filled : Bool
  /-- Some write has failed since all data was last replaced. -/
  missed : Bool

namespace Mirror

variable {β : Type}

/-- A memory that holds nothing, over a backend. -/
def ofBackend (b : β) (retry : Policy) : Mirror β := ⟨.empty, b, retry, .initial true, .idle none, false, false⟩

/-- Begins a call: the memory changes at once. -/
def call (m : Mirror β) : Request → Mirror β
  | .init d => { m with memory := .init d.data, work := .fill (Guarded.texts (Attached.stored d).data) }
  | .apply b =>
    { m with
      memory := m.memory.apply b
      work := match b.extent with
        | .full => .fill (Guarded.texts (Attached.stored ⟨b.data, b.persist⟩).data)
        | .incremental => .writes m.retry b.data.entries
        | .none => .idle (some (.ok true)) }
  | .upsert kind key item =>
    let (newer, memory) := m.memory.upsert kind key item
    { m with
      memory
      work := if newer then .write (.fresh kind key (.ofItem item) m.retry) none else .idle (some (.ok false)) }

/-- The operation failed. -/
def failed (m : Mirror β) (e : StoreError) : Mirror β := { m with work := .mark e, missed := true }

/-- Goes on after an operation of a writer. -/
def wrote (m : Mirror β) (w : Writer) (rest : Option (List (Kind × String × Item))) : Mirror β :=
  match w.stage with
  | .done (.ok written) => { m with work := .after m.retry written rest }
  | .done (.error e) => m.failed e
  | _ => { m with work := .write w rest }

/-- As long as a write has not ended it is what the mirror works on. -/
theorem wrote_of_not_done (m : Mirror β) {w : Writer} (h : ∀ result, w.stage ≠ .done result)
    (rest : Option (List (Kind × String × Item))) : m.wrote w rest = { m with work := .write w rest } := by
  unfold wrote
  split
  · next hs => exact absurd hs (h _)
  · next hs => exact absurd hs (h _)
  · rfl

/-- What a write leads to does not depend on the work before it. -/
theorem wrote_work (m : Mirror β) (work : Work) (w : Writer) (rest : Option (List (Kind × String × Item))) :
    ({ m with work } : Mirror β).wrote w rest = m.wrote w rest := by
  unfold wrote failed
  rcases w.stage with _ | _ | _ | ⟨_ | _⟩ <;> rfl

/-- The backend and the board are those of an attached store to which nobody else writes during an attempt. -/
def ShowsAttached (m : Mirror β) (site : Site (Attached (Guarded β))) : Prop :=
  ∃ log recovery polling, site = ⟨⟨⟨m.backend, m.retry, fun _ b => b, log⟩, recovery, polling, m.filled⟩, m.board⟩

/-- The memory, the backend and the board are those of a layered store that writes through. -/
structure Shows (m : Mirror β) (site : Site (Layered (Attached (Guarded β)))) : Prop where
  memory : site.store.memory = m.memory
  mode : site.store.mode = .readWrite
  beneath : ∃ a, site.store.beneath = some a ∧ m.ShowsAttached ⟨a, site.board⟩

/-- What a layered store leaves of a call shows what the store beneath leaves of its part. -/
theorem shows_onBeneath {m : Mirror β} {site : Site (Layered (Attached (Guarded β)))} {a : Attached (Guarded β)} {α : Type}
    (op : StateM (Site (Attached (Guarded β))) α) (hm : m.memory = site.store.memory) (hmode : site.store.mode = .readWrite)
    (h : m.ShowsAttached (op ⟨a, site.board⟩).2) : m.Shows (Layered.onBeneath a op site).2 :=
  ⟨hm.symm, hmode, _, rfl, h⟩

variable [Backend β]

/-- The next operation of a call. -/
def go (m : Mirror β) : Mirror β :=
  match m.work with
  | .idle _ => m
  | .fill texts => match (Backend.replaceAll texts).run m.backend with
    | (.ok (), b) => { m with backend := b, work := .clear }
    | (.error e, b) => { m with backend := b }.failed e
  | .clear =>
    { m with board := (Board.refreshed m.board).2, work := .idle (some (.ok true)), filled := true, missed := false }
  | .write w rest =>
    let (w, b) := w.act m.backend
    { m with backend := b }.wrote w rest
  | .mark e => { m with board := m.board.marked, work := .idle (some (.error e)) }

theorem go_idle {m : Mirror β} {answer : Option (Except StoreError Bool)} (h : m.work = .idle answer) : m.go = m := by
  rw [go, h]

/-- The next operation replaces all texts. -/
theorem go_fill {m : Mirror β} {texts : List (String × List (String × String))} (h : m.work = .fill texts) :
    m.go = match (Backend.replaceAll texts : StoreM β Unit).run m.backend with
      | (.ok (), b) => { m with backend := b, work := .clear }
      | (.error e, b) => { m with backend := b }.failed e := by
  rw [go, h]

/-- Once all texts are replaced the need of a refresh has ended. -/
theorem go_clear {m : Mirror β} (h : m.work = .clear) :
    m.go =
      { m with board := (Board.refreshed m.board).2, work := .idle (some (.ok true)), filled := true, missed := false } := by
  rw [go, h]

/-- The next operation is the next one of the write. -/
theorem go_write {m : Mirror β} {w : Writer} {rest : Option (List (Kind × String × Item))} (h : m.work = .write w rest) :
    m.go = { m with backend := (w.act m.backend).2 }.wrote (w.act m.backend).1 rest := by
  rw [go, h]
  rfl

/-- A failure is marked on the board, and is the answer. -/
theorem go_mark {m : Mirror β} {e : StoreError} (h : m.work = .mark e) :
    m.go = { m with board := m.board.marked, work := .idle (some (.error e)) } := by
  rw [go, h]

/-- The backend is asked a trivial question. If it answers, an outage is over. -/
def recover (m : Mirror β) : Mirror β :=
  match (Backend.marked : StoreM β Bool).run m.backend with
  | (.ok _, b) => { m with backend := b, board := m.board.answered }
  | (.error _, b) => { m with backend := b }

/-- The backend is asked a trivial question, and the outcome is posted. -/
def check (m : Mirror β) : Mirror β :=
  match (Backend.marked : StoreM β Bool).run m.backend with
  | (.ok _, b) => { m with backend := b, board := m.board.answered }
  | (.error _, b) => { m with backend := b, board := m.board.marked }

/-- A check leaves memory and work as they are. -/
theorem recover_frame (m : Mirror β) :
    m.recover.memory = m.memory ∧ m.recover.work = m.work ∧ m.recover.filled = m.filled := by
  unfold recover
  split <;> exact ⟨rfl, rfl, rfl⟩

/-- A check touches neither memory nor the work under way. -/
theorem check_frame (m : Mirror β) : m.check.memory = m.memory ∧ m.check.work = m.work ∧ m.check.filled = m.filled := by
  unfold check
  split <;> exact ⟨rfl, rfl, rfl⟩

/-- So many operations of a call. -/
def goes : Nat → Mirror β → Mirror β
  | 0, m => m
  | n + 1, m => goes n m.go

/-! ## Calls of a layered store -/

theorem goes_add (n k : Nat) (m : Mirror β) : goes (n + k) m = goes k (goes n m) := by
  induction n generalizing m with
  | zero => rw [Nat.zero_add]; rfl
  | succ n ih => rw [Nat.succ_add, goes, goes, ih]

/-! ### Operations of the store beneath -/

/-- Replacing all data is one operation on the backend, and then a post on the board. -/
theorem shows_fill {m : Mirror β} {site : Site (Attached (Guarded β))} (h : m.ShowsAttached site) (d : DataSet Stored) :
    ∃ n, let out := (Attached.fill d).run site
      let m' := goes n { m with work := .fill (Guarded.texts d.data) }
      m'.work = .idle (some (out.1.map fun _ => true)) ∧ m'.memory = m.memory ∧ m'.ShowsAttached out.2 ∧
      (out.1.map (fun _ => true) = .ok true → m'.filled = true) := by
  obtain ⟨log, recovery, polling, rfl⟩ := h
  have hinit : (SharedStore.init d : StoreM (Guarded β) Unit).run ⟨m.backend, m.retry, fun _ b => b, log⟩ =
      let out := (Backend.replaceAll (Guarded.texts d.data) : StoreM β Unit).run m.backend
      (out.1, ⟨out.2, m.retry, fun _ b => b, log⟩) := rfl
  rw [Attached.fill_run, hinit]
  rcases hr : (Backend.replaceAll (Guarded.texts d.data) : StoreM β Unit).run m.backend with ⟨e | _, b⟩
  · refine ⟨2, ?_⟩
    simp only [goes, go, hr, failed]
    exact ⟨rfl, trivial, ⟨log, recovery, true, rfl⟩, nofun⟩
  · refine ⟨2, ?_⟩
    simp only [goes, go, hr]
    exact ⟨rfl, trivial, ⟨log, recovery, polling, rfl⟩, fun _ => trivial⟩

/-- The operations of a writer are operations of the mirror, up to the one that ends the write. -/
theorem goes_write (n : Nat) {m : Mirror β} {w : Writer} {rest : Option (List (Kind × String × Item))}
    (hm : m.work = .write w rest) {result : Except StoreError Bool} (hw : ∀ result, w.stage ≠ .done result)
    (hr : (Writer.acts n w m.backend).1.stage = .done result) :
    ∃ k, goes k m = { m with backend := (Writer.acts n w m.backend).2 }.wrote (Writer.acts n w m.backend).1 rest := by
  induction n generalizing m w with
  | zero => exact absurd hr (hw result)
  | succ n ih =>
    rw [Writer.acts_succ] at hr ⊢
    by_cases hd : ∃ r, (w.act m.backend).1.stage = .done r
    · obtain ⟨r, hd⟩ := hd
      rw [Writer.acts_done n hd]
      exact ⟨1, go_write hm⟩
    · have hd : ∀ r, (w.act m.backend).1.stage ≠ .done r := fun r hr => hd ⟨r, hr⟩
      have hgo := (go_write hm).trans (wrote_of_not_done _ hd rest)
      obtain ⟨k, hk⟩ := @ih m.go (w.act m.backend).1 (by rw [hgo]) hd (by rw [hgo]; exact hr)
      refine ⟨k + 1, ?_⟩
      rw [goes, hk, hgo]
      exact wrote_work { m with backend := (Writer.acts n (w.act m.backend).1 (w.act m.backend).2).2 } _ _ _

/-- Writing an item is the work of a writer, after which the next item follows. -/
theorem shows_write {m : Mirror β} {site : Site (Attached (Guarded β))} (h : m.ShowsAttached site) (kind : Kind)
    (key : String) (item : Item) (rest : Option (List (Kind × String × Item)))
    (hm : m.work = .write (.fresh kind key (.ofItem item) m.retry) rest) :
    ∃ n, let out := (Attached.upsert kind key item).run site
      let m' := goes n m
      (m'.work = match out.1 with
        | .ok written => .after m.retry written rest
        | .error e => .idle (some (.error e))) ∧
      m'.memory = m.memory ∧ m'.retry = m.retry ∧ m'.ShowsAttached out.2 := by
  obtain ⟨log, recovery, polling, rfl⟩ := h
  obtain ⟨hd, log', hb⟩ := Writer.upsert_eq_acts kind key (.ofItem item) m.backend m.retry log
  have hu : (SharedStore.upsert kind key (.ofItem item) : StoreM (Guarded β) Bool) =
      Guarded.upsert kind key (.ofItem item) := rfl
  obtain ⟨k, hk⟩ := goes_write _ hm nofun hd
  rw [Attached.upsert, Attached.observe_run, hu]
  simp only [Writer.fresh] at hb
  rcases hr : (Guarded.upsert kind key (.ofItem item)).run ⟨m.backend, m.retry, fun _ b => b, log⟩ with ⟨e | written, s⟩
  · rw [hr] at hd hb
    subst hb
    refine ⟨k + 1, ?_⟩
    rw [goes_add, hk]
    simp only [wrote, hd, failed, goes, go]
    exact ⟨trivial, trivial, trivial, log', recovery, true, rfl⟩
  · rw [hr] at hd hb
    subst hb
    refine ⟨k, ?_⟩
    rw [hk]
    simp only [wrote, hd]
    exact ⟨trivial, trivial, trivial, log', recovery, polling, rfl⟩

/-- The items of a batch are written one after the other until one fails. -/
theorem shows_writes (es : List (Kind × String × Item)) {m : Mirror β} {site : Site (Attached (Guarded β))}
    (h : m.ShowsAttached site) (hm : m.work = .writes m.retry es) :
    ∃ n, let out := (Attached.upsertAll es).run site
      let m' := goes n m
      m'.work = .idle (some (out.1.map fun _ => true)) ∧ m'.memory = m.memory ∧ m'.ShowsAttached out.2 := by
  induction es generalizing m site with
  | nil => exact ⟨0, hm, rfl, h⟩
  | cons e es ih =>
    obtain ⟨kind, key, item⟩ := e
    obtain ⟨n, hwork, hmemory, hretry, hshows⟩ := shows_write h kind key item (some es) hm
    rw [Attached.upsertAll]
    rcases hr : (Attached.upsert kind key item).run site with ⟨e | written, site'⟩
    · rw [hr] at hwork hshows
      refine ⟨n, ?_⟩
      simp only [StoreM.bind_run, StoreM.discard_run, hr]
      exact ⟨hwork, hmemory, hshows⟩
    · rw [hr] at hwork hshows
      have hnext : (goes n m).work = .writes (goes n m).retry es := by rw [hretry]; exact hwork
      obtain ⟨k, hk⟩ := ih hshows hnext
      refine ⟨n + k, ?_⟩
      simp only [StoreM.bind_run, StoreM.discard_run, hr]
      rw [goes_add, ← hmemory]
      exact hk

/-! ### Whole calls -/

/-- The layered store that a mirror shows over an attached store. -/
def layered (m : Mirror β) (a : Attached (Guarded β)) (reads : Bool) : Site (Layered (Attached (Guarded β))) :=
  ⟨⟨m.memory, some a, .readWrite, reads⟩, m.board⟩

/-- A mirror shows what a call leaves, and its answer. Once all data was replaced, the mirror knows. -/
structure Answers (m : Mirror β) (r : Request) (out : Except StoreError Bool × Site (Layered (Attached (Guarded β)))) :
    Prop where
  work : m.work = .idle (some out.1)
  shows : m.Shows out.2
  filled : r.Fills → out.1 = .ok true → m.filled = true

variable {m : Mirror β} {a : Attached (Guarded β)} (h : m.ShowsAttached ⟨a, m.board⟩) (reads : Bool)
include h

/-- After some operations a mirror shows what replacing all data leaves in the store, and its answer. -/
theorem answers_init {d : DataSet Item} (hd : d.persist = true) :
    ∃ n, (goes n (m.call (.init d))).Answers (.init d) ((Request.init d).run.run (m.layered a reads)) := by
  have hrun : (Layered.init d).run (m.layered a reads) =
      Layered.onBeneath a (Attached.fill (Attached.stored d)).run ({ m with memory := .init d.data }.layered a true) := by
    simp [Layered.init, DataStore.init, Layered.fillMemory, Layered.switchReads, Site.mapStore, Layered.writable,
      layered, hd]
  have h' : ({ m with memory := .init d.data } : Mirror β).ShowsAttached ⟨a, m.board⟩ := h
  obtain ⟨n, hwork, hmem, hn, hfilled⟩ := shows_fill h' (Attached.stored d)
  refine ⟨n, ?_⟩
  rw [Request.run, StoreM.bind_return_run]
  simp only [DataStore.init, hrun]
  refine ⟨hwork, ?_, fun _ => hfilled⟩
  dsimp only
  exact shows_onBeneath _ hmem rfl hn

/-- After some operations it shows what a batch leaves, and its answer. -/
theorem answers_apply {b : Batch} (hb : b.persist = true) :
    ∃ n, (goes n (m.call (.apply b))).Answers (.apply b) ((Request.apply b).run.run (m.layered a reads)) := by
  have hrun : (Layered.apply b).run (m.layered a reads) = Layered.onBeneath a (Attached.apply b).run
      ({ m with memory := m.memory.apply b }.layered a (if b.extent = Extent.full then true else reads)) := by
    by_cases hf : b.extent = .full <;>
      simp [Layered.apply, DataStore.apply, Layered.applyMemory, Layered.switchReads, Site.mapStore, Layered.writable,
        layered, hb, hf]
  rw [Request.run, StoreM.bind_return_run]
  simp only [DataStore.apply, hrun]
  cases he : b.extent with
  | full =>
    have h' : ({ m with memory := m.memory.apply b } : Mirror β).ShowsAttached ⟨a, m.board⟩ := h
    obtain ⟨n, hwork, hmem, hn, hfilled⟩ := shows_fill h' (Attached.stored ⟨b.data, b.persist⟩)
    refine ⟨n, ?_⟩
    simp only [call, Attached.apply, he]
    refine ⟨hwork, ?_, fun _ => hfilled⟩
    dsimp only
    exact shows_onBeneath _ hmem rfl hn
  | incremental =>
    have h' : ({ m with memory := m.memory.apply b, work := .writes m.retry b.data.entries } : Mirror β).ShowsAttached
      ⟨a, m.board⟩ := h
    obtain ⟨n, hwork, hmem, hn⟩ := shows_writes b.data.entries h' rfl
    refine ⟨n, ?_⟩
    simp only [call, Attached.apply, he]
    refine ⟨hwork, ?_, fun hfills => absurd (he.symm.trans hfills) (by decide)⟩
    dsimp only
    exact shows_onBeneath _ hmem rfl hn
  | none =>
    refine ⟨0, ?_⟩
    simp only [call, Attached.apply, he]
    refine ⟨rfl, ?_, fun hfills => absurd (he.symm.trans hfills) (by decide)⟩
    dsimp only
    exact shows_onBeneath _ rfl rfl h

/-- After some operations it shows what a write of one item leaves, and its answer. -/
theorem answers_upsert (kind : Kind) (key : String) (item : Item) :
    ∃ n, (goes n (m.call (.upsert kind key item))).Answers (.upsert kind key item)
      ((Request.upsert kind key item).run.run (m.layered a reads)) := by
  cases hn : (m.memory.upsert kind key item).1 with
  | false =>
    have hrun : (Request.upsert kind key item).run.run (m.layered a reads) =
        (.ok false, { m with memory := (m.memory.upsert kind key item).2 }.layered a reads) := by
      simp [Request.run, DataStore.upsert, Layered.upsert, Layered.upsertMemory, Site.mapStore, Layered.writable,
        layered, hn]
    refine ⟨0, ?_⟩
    simp only [hrun, call, hn]
    exact ⟨rfl, ⟨rfl, rfl, a, rfl, h⟩, False.elim⟩
  | true =>
    have hrun : (Request.upsert kind key item).run.run (m.layered a reads) =
        Layered.onBeneath a (Attached.upsert kind key item).run
          ({ m with memory := (m.memory.upsert kind key item).2 }.layered a reads) := by
      simp [Request.run, DataStore.upsert, Layered.upsert, Layered.upsertMemory, Site.mapStore, Layered.writable,
        layered, hn]
    have hcall : (m.call (.upsert kind key item)).work = .write (.fresh kind key (.ofItem item) m.retry) none := by
      simp [call, hn]
    have h' : (m.call (.upsert kind key item)).ShowsAttached ⟨a, m.board⟩ := h
    obtain ⟨n, hwork, hmem, -, hshows⟩ := shows_write h' kind key item none hcall
    refine ⟨n, ?_⟩
    simp only [hrun]
    refine ⟨hwork.trans ?_, shows_onBeneath _ hmem rfl hshows, False.elim⟩
    change _ = Work.idle (some ((Attached.upsert kind key item).run ⟨a, m.board⟩).1)
    split
    · next h =>
      rw [h]
      rfl
    · next h => rw [h]

omit h

/-- A call whose operations follow one another is the call of a layered store: it answers the same, and leaves the same
memory, backend and board. -/
theorem answers_call {site : Site (Layered (Attached (Guarded β)))} (h : m.Shows site) {r : Request} (hr : r.Persisted) :
    ∃ n, (goes n (m.call r)).Answers r (r.run.run site) := by
  obtain ⟨⟨memory, beneath, mode, reads⟩, board⟩ := site
  obtain ⟨hmemory, hmode, a, ha, hshows⟩ := h
  obtain rfl : memory = m.memory := hmemory
  obtain rfl : mode = .readWrite := hmode
  obtain rfl : beneath = some a := ha
  obtain rfl : board = m.board := by
    obtain ⟨log, recovery, polling, he⟩ := hshows
    exact congrArg Site.board he
  cases r with
  | init d => exact answers_init hshows reads hr
  | apply b => exact answers_apply hshows reads hr
  | upsert kind key item => exact answers_upsert hshows reads kind key item

/-- A guarded store answers if the backend does. -/
theorem guarded_answers (b : β) (retry : Policy) (log : List (String × String)) :
    (SharedStore.answers : StateM (Guarded β) Bool) ⟨b, retry, fun _ b => b, log⟩ =
      let out := (Backend.marked : StoreM β Bool).run b
      (out.1.isOk, ⟨out.2, retry, fun _ b => b, log⟩) := rfl

/-- The checks of a mirror are those of the attached store. -/
theorem shows_recover {site : Site (Attached (Guarded β))} (h : m.ShowsAttached site) :
    m.recover.ShowsAttached (Attached.recover site).2 := by
  obtain ⟨log, recovery, polling, rfl⟩ := h
  rw [Attached.recover_apply, guarded_answers, recover]
  rcases (Backend.marked : StoreM β Bool).run m.backend with ⟨_ | _, b⟩
  · exact ⟨log, recovery, polling, rfl⟩
  · exact ⟨log, recovery, polling, rfl⟩

/-- A check of the mirror shows a check of the store. -/
theorem shows_check {site : Site (Attached (Guarded β))} (h : m.ShowsAttached site) :
    m.check.ShowsAttached (Attached.check site).2 := by
  obtain ⟨log, recovery, polling, rfl⟩ := h
  rw [Attached.check_apply, guarded_answers, check]
  rcases (Backend.marked : StoreM β Bool).run m.backend with ⟨_ | _, b⟩
  · exact ⟨log, recovery, _, rfl⟩
  · exact ⟨log, recovery, _, rfl⟩

end Mirror

end FlagDelivery
