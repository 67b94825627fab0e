import FlagDelivery.Proofs.Store.InSync
import FlagDelivery.Proofs.Store.Mirror

/-!
# Memory and backend agree while the board says so

A `Move` is what can happen to a mirror between two operations: a call begins or goes on, the backend's health is
checked, or the backend is cut off or back. `Mirror.Kept` is what every move keeps: a write that failed is visible on
the board until all data was replaced, and until one fails, the backend is in step with the memory but for the work left
of a call. So between calls, once all data was replaced, they agree whenever the board shows good health:
`Mirror.Kept.agree`.
-/

namespace FlagDelivery

/-- A call whose data is to be written through and can be: all that replaces lists every kind, and every item is
faithful. -/
def Request.Sound : Request → Prop
  | .init d => d.persist = true ∧ (∀ kind, d.data.lists kind = true) ∧ d.data.Faithful
  | .apply b => b.persist = true ∧ (b.extent = .full → ∀ kind, b.data.lists kind = true) ∧ b.data.Faithful
  | .upsert _ _ item => item.Faithful

/-- What can happen between two operations. -/
inductive Move where
  | call (r : Request) (sound : r.Sound)
  | go
  | recover
  | check
  | reach (reachable : Bool)

/-- A writer is writing an item. -/
structure Writer.Writes (b : SharedMemory) (w : Writer) (kind : Kind) (key : String) (item : Item) : Prop where
  faithful : item.Faithful
  space : w.space = kind.space
  key : w.key = key
  stored : w.item = .ofItem item
  unended : ∀ result, w.stage ≠ .done result
  sound : w.Sound b

/-- Under each key the backend holds a text exactly if the memory holds an item, and the text is read as that item, with
its version in its content. -/
def Agree (memory : Memory) (b : SharedMemory) : Prop := ∀ kind key,
  (b.text? kind.space key).map (fun text => (Stored.ofText text).bind Stored.toItem) =
    (memory.find? kind key).map fun i => .ok i.stamped

namespace Mirror

/-- One move. A call begins only when none is under way. -/
def step (m : Mirror SharedMemory) : Move → Mirror SharedMemory
  | .call r _ => match m.work with
    | .idle _ => m.call r
    | _ => m
  | .go => m.go
  | .recover => m.recover
  | .check => m.check
  | .reach reachable => { m with backend := m.backend.setReachable reachable }

/-- Moves one after the other. -/
def run (m : Mirror SharedMemory) (moves : List Move) : Mirror SharedMemory := moves.foldl step m

/-! ## What every move keeps -/

/-- Unless a write has failed, the backend is in step but for items that are still to be written. -/
def Due (m : Mirror SharedMemory) (es : List (Kind × String × Item)) : Prop :=
  m.filled = true → m.missed = false → ∃ v, InSync v m.backend ∧ v.offeredAll es = m.memory.find?

/-- What is known of memory and backend by the work that is left. -/
def Owes (m : Mirror SharedMemory) : Work → Prop
  | .idle _ => m.Due []
  | .fill texts => ∀ b : SharedMemory, InSync m.memory.find? (b.replacing texts)
  | .clear => InSync m.memory.find? m.backend
  | .write w rest => ∃ kind key item, w.Writes m.backend kind key item ∧ (∀ e ∈ rest.getD [], e.2.2.Faithful) ∧
      m.Due ((kind, key, item) :: rest.getD [])
  | .mark _ => m.missed = true

/-- What every move keeps. A write that has failed shows on the board, or is about to. -/
structure Kept (m : Mirror SharedMemory) : Prop where
  posted : m.missed = true → m.board.health ≠ .good ∨ ∃ e, m.work = .mark e
  owes : m.Owes m.work

variable {m : Mirror SharedMemory}

/-- The invariant holds of a new mirror over a backend. -/
theorem kept_ofBackend (b : SharedMemory) (retry : Policy) : (ofBackend b retry).Kept := ⟨nofun, nofun⟩

/-! ### Checks and outages -/

/-- What is posted keeps the invariant unless it is good health. -/
theorem Kept.onBoard (h : m.Kept) {board : Board} (hb : board.health = .good → m.board.health = .good) :
    Kept { m with board } :=
  ⟨fun hm => (h.posted hm).imp_left fun hne hg => hne (hb hg), h.owes⟩

/-- The start of a recovery keeps the invariant. -/
theorem Kept.recover (h : m.Kept) : m.recover.Kept := by
  rw [Mirror.recover, SharedMemory.marked_run]
  by_cases hr : m.backend.reachable = true
  · rw [if_pos hr]
    exact h.onBoard Board.good_of_answered
  · rw [if_neg hr]
    exact h

theorem Kept.check (h : m.Kept) : m.check.Kept := by
  rw [Mirror.check, SharedMemory.marked_run]
  by_cases hr : m.backend.reachable = true
  · rw [if_pos hr]
    exact h.onBoard Board.good_of_answered
  · rw [if_neg hr]
    exact h.onBoard fun hg => absurd hg (Board.marked_ne_good m.board)

/-- An outage leaves the texts as they are. -/
theorem Kept.reach (h : m.Kept) (reachable : Bool) : Kept { m with backend := m.backend.setReachable reachable } := by
  have hdue : ∀ es, m.Due es → Due { m with backend := m.backend.setReachable reachable } es := by
    intro es hd hf hm
    obtain ⟨v, hv, he⟩ := hd hf hm
    exact ⟨v, hv.onTexts fun _ _ => rfl, he⟩
  refine ⟨h.posted, ?_⟩
  have ho := h.owes
  cases hw : m.work with
  | idle answer =>
    rw [hw] at ho
    exact hdue [] ho
  | fill texts =>
    rw [hw] at ho
    exact ho
  | clear =>
    rw [hw] at ho
    exact InSync.onTexts ho fun _ _ => rfl
  | write w rest =>
    rw [hw] at ho
    obtain ⟨kind, key, item, hwrites, hrest, hd⟩ := ho
    have hsound := hwrites.sound.onward (SharedMemory.onward_setReachable reachable m.backend)
    exact ⟨kind, key, item, { hwrites with sound := hsound }, hrest, hdue _ hd⟩
  | mark e =>
    rw [hw] at ho
    exact ho

/-! ### Calls -/

/-- An item that is due begins to be written. -/
theorem kept_write (hp : m.missed = true → m.board.health ≠ .good) {kind : Kind} {key : String} {item : Item}
    (hi : item.Faithful) {rest : Option (List (Kind × String × Item))} (hrest : ∀ e ∈ rest.getD [], e.2.2.Faithful)
    (hd : m.Due ((kind, key, item) :: rest.getD [])) :
    Kept { m with work := .write (.fresh kind key (.ofItem item) m.retry) rest } :=
  ⟨fun hm => .inl (hp hm), kind, key, item,
    ⟨hi, rfl, rfl, rfl, nofun, Writer.sound_fresh m.backend kind key hi.toStorable m.retry⟩, hrest, hd⟩

/-- Items that are due are written one after the other. -/
theorem kept_writes (hp : m.missed = true → m.board.health ≠ .good) {es : List (Kind × String × Item)}
    (hes : ∀ e ∈ es, e.2.2.Faithful) (hd : m.Due es) : Kept { m with work := .writes m.retry es } := by
  cases es with
  | nil => exact ⟨fun hm => .inl (hp hm), hd⟩
  | cons e es =>
    have hrest : ∀ e ∈ (some es).getD [], e.2.2.Faithful := fun e he => hes e (List.mem_cons_of_mem _ he)
    exact kept_write hp (hes e List.mem_cons_self) hrest hd

/-- Between calls a failed write shows on the board, and nothing is due. -/
theorem Kept.idle (h : m.Kept) {answer : Option (Except StoreError Bool)} (hw : m.work = .idle answer) :
    (m.missed = true → m.board.health ≠ .good) ∧ m.Due [] := by
  have ho := h.owes
  rw [hw] at ho
  refine ⟨?_, ho⟩
  intro hm
  rcases h.posted hm with hp | ⟨e, he⟩
  · exact hp
  · rw [hw] at he
    cases he

/-- All data is to be written: what the backend holds then does not matter. -/
theorem kept_fill (hp : m.missed = true → m.board.health ≠ .good) {memory : Memory} {data : Groups Item}
    (hl : ∀ kind, data.lists kind = true) (hf : data.Faithful) {tables : PerKind (Option Table)}
    (hm : memory.find? = Memory.viewOf (Memory.replace tables data)) :
    Kept { m with memory, work := .fill data.storedTexts } := by
  refine ⟨fun h => .inl (hp h), ?_⟩
  intro b
  simp only [hm]
  exact inSync_replacing hf hl tables b

/-- The items of a change are due once the memory has taken them. -/
theorem Kept.apply (h : m.Kept) {answer : Option (Except StoreError Bool)} (hw : m.work = .idle answer) {b : Batch}
    (hb : (Request.apply b).Sound) : (m.call (.apply b)).Kept := by
  obtain ⟨hp, hd⟩ := h.idle hw
  obtain ⟨-, hl, hf⟩ := hb
  cases he : b.extent with
  | full =>
    have hcall : m.call (.apply b) = { m with memory := m.memory.apply b, work := .fill b.data.storedTexts } := by
      rw [Mirror.call, he]
      rfl
    have hm : (m.memory.apply b).find? = Memory.viewOf (Memory.replace m.memory.tables b.data) := by
      rw [Memory.apply, he]
      rfl
    rw [hcall]
    exact kept_fill hp (hl he) hf hm
  | incremental =>
    have hcall : m.call (.apply b) = { m with memory := m.memory.apply b, work := .writes m.retry b.data.entries } := by
      rw [Mirror.call, he]
    rw [hcall]
    refine kept_writes (m := { m with memory := m.memory.apply b }) hp hf ?_
    intro hfilled hmissed
    obtain ⟨v, hv, hview⟩ := hd hfilled hmissed
    obtain rfl : v = m.memory.find? := hview
    exact ⟨m.memory.find?, hv, (m.memory.find?_apply_incremental he).symm⟩
  | none =>
    have hcall : m.call (.apply b) = { m with memory := m.memory.apply b, work := .idle (some (.ok true)) } := by
      rw [Mirror.call, he]
    rw [hcall]
    refine ⟨fun hm => .inl (hp hm), ?_⟩
    intro hfilled hmissed
    rw [m.memory.find?_apply_none he]
    exact hd hfilled hmissed

/-- An item is due if the memory has taken it. -/
theorem Kept.upsert (h : m.Kept) {answer : Option (Except StoreError Bool)} (hw : m.work = .idle answer) (kind : Kind)
    (key : String) {item : Item} (hi : item.Faithful) : (m.call (.upsert kind key item)).Kept := by
  obtain ⟨hp, hd⟩ := h.idle hw
  cases hn : (m.memory.upsert kind key item).1 with
  | false =>
    have hcall : m.call (.upsert kind key item) =
        { m with memory := (m.memory.upsert kind key item).2, work := .idle (some (.ok false)) } := by
      simp [Mirror.call, hn]
    have hm : (m.memory.upsert kind key item).2.find? = m.memory.find? := by
      funext kind' key'
      rw [Memory.find?_upsert, if_neg (by simp [hn])]
    rw [hcall]
    refine ⟨fun hm => .inl (hp hm), fun hfilled hmissed => ?_⟩
    rw [hm]
    exact hd hfilled hmissed
  | true =>
    have hcall : m.call (.upsert kind key item) = { m with
        memory := (m.memory.upsert kind key item).2
        work := .write (.fresh kind key (.ofItem item) m.retry) none } := by
      simp [Mirror.call, hn]
    rw [hcall]
    refine kept_write (m := { m with memory := (m.memory.upsert kind key item).2 }) hp hi (by simp) ?_
    intro hfilled hmissed
    obtain ⟨v, hv, hview⟩ := hd hfilled hmissed
    obtain rfl : v = m.memory.find? := hview
    exact ⟨m.memory.find?, hv, (m.memory.find?_upsert_eq_offered kind key hi.nonneg hn).symm⟩

/-- The beginning of a call keeps the invariant. -/
theorem Kept.call (h : m.Kept) {answer : Option (Except StoreError Bool)} (hw : m.work = .idle answer) {r : Request}
    (hr : r.Sound) : (m.call r).Kept := by
  cases r with
  | init d =>
    obtain ⟨-, hl, hf⟩ := hr
    exact kept_fill (h.idle hw).1 hl hf rfl
  | apply b => exact h.apply hw hr
  | upsert kind key item => exact h.upsert hw kind key hr

/-! ### Operations -/

/-- A failed operation is about to be posted. -/
theorem kept_failed (m : Mirror SharedMemory) (e : StoreError) : (m.failed e).Kept := ⟨fun _ => .inr ⟨e, rfl⟩, rfl⟩

/-- An item that was written, or was not newer, is no longer due. -/
theorem Kept.after (hp : m.missed = true → m.board.health ≠ .good) {rest : Option (List (Kind × String × Item))}
    (hrest : ∀ e ∈ rest.getD [], e.2.2.Faithful) (hd : m.Due (rest.getD [])) (written : Bool) :
    Kept { m with work := .after m.retry written rest } := by
  cases rest with
  | none => exact ⟨fun hm => .inl (hp hm), hd⟩
  | some es => exact kept_writes hp hrest hd

/-- Where an item is read to be no newer than the one stored, it is not due. -/
theorem Due.declined {w : Writer} {kind : Kind} {key : String} {item : Item} {es : List (Kind × String × Item)}
    (hd : m.Due ((kind, key, item) :: es)) (hw : w.Writes m.backend kind key item)
    (hs : Guarded.supersedes w.item (m.backend.text? w.space w.key) = .ok false) : m.Due es := by
  intro hfilled hmissed
  obtain ⟨v, hv, hview⟩ := hd hfilled hmissed
  rw [SharedMemory.supersedes_text?, hw.space, hw.key, hv.versionAt, hw.stored] at hs
  have hle : item.version ≤ v.versionAt kind key := by
    simpa [Functor.map, Except.map, Stored.version_ofItem] using hs
  refine ⟨v, hv, ?_⟩
  rw [← hview, View.offeredAll_cons, View.offered_of_le hle]

/-- Where an item is committed, it is no longer due. -/
theorem Due.committed {w : Writer} {kind : Kind} {key : String} {item : Item} {es : List (Kind × String × Item)}
    (hd : m.Due ((kind, key, item) :: es)) (hw : w.Writes m.backend kind key item) {held : Option String}
    (hs : w.stage = .committing (m.backend.space w.space).revision held) :
    Due { m with backend := m.backend.put w.space w.key w.text } es := by
  intro hfilled hmissed
  obtain ⟨v, hv, hview⟩ := hd hfilled hmissed
  obtain ⟨-, old, hold, hlt, -⟩ := hw.sound.commit hs
  have htext : w.text = item.textAt key := by rw [Writer.text, hw.stored, hw.key]; rfl
  rw [hw.space, hw.key, hv.versionAt] at hold
  obtain rfl : v.versionAt kind key = old := Except.ok.inj hold
  rw [hw.stored, Stored.version_ofItem] at hlt
  refine ⟨v.offered kind key item, ?_, hview⟩
  simp only [hw.space, hw.key, htext]
  exact hv.put hw.faithful hlt

/-- An operation of a writer. -/
theorem Kept.write (hp : m.missed = true → m.board.health ≠ .good) {w : Writer} {kind : Kind} {key : String} {item : Item}
    {rest : Option (List (Kind × String × Item))} (hw : w.Writes m.backend kind key item)
    (hrest : ∀ e ∈ rest.getD [], e.2.2.Faithful) (hd : m.Due ((kind, key, item) :: rest.getD [])) {w' : Writer}
    {b : SharedMemory} (ha : w.Acted m.backend w' b) : ({ m with backend := b }.wrote w' rest).Kept := by
  have hsame := ha.same
  have hsound := ha.sound hw.sound
  have hgoes : b = m.backend → (∀ result, w'.stage ≠ .done result) → ({ m with backend := b }.wrote w' rest).Kept := by
    rintro rfl hne
    rw [wrote_of_not_done _ hne]
    exact ⟨fun hm => .inl (hp hm), kind, key, item, ⟨hw.faithful, hsame.1.trans hw.space, hsame.2.1.trans hw.key,
      hsame.2.2.trans hw.stored, hne, hsound⟩, hrest, hd⟩
  cases ha with
  | ended result hs => exact absurd hs (hw.unended result)
  | failed e => exact kept_failed _ e
  | watched => exact hgoes rfl nofun
  | newer => exact hgoes rfl nofun
  | conflicted => exact hgoes rfl nofun
  | older revision hs ho => exact Kept.after hp hrest (hd.declined hw ho) false
  | committed revision held hs hr =>
    subst hr
    exact Kept.after (m := { m with backend := m.backend.put w.space w.key w.text }) hp hrest (hd.committed hw hs) true

/-- The next operation of the work under way keeps the invariant. -/
theorem Kept.go (h : m.Kept) : m.go.Kept := by
  have ho := h.owes
  -- A failure that is not about to be marked shows on the board already.
  have hp : (∀ e, m.work ≠ .mark e) → m.missed = true → m.board.health ≠ .good := by
    intro hne hm
    exact (h.posted hm).resolve_right fun ⟨e, he⟩ => hne e he
  cases hw : m.work with
  | idle answer =>
    rw [go_idle hw]
    exact h
  | fill texts =>
    rw [hw] at ho hp
    rw [go_fill hw, SharedMemory.replaceAll_run]
    by_cases hr : m.backend.reachable = true
    · rw [if_pos hr]
      exact ⟨fun hm => .inl (hp nofun hm), ho m.backend⟩
    · rw [if_neg hr]
      exact kept_failed _ _
  | clear =>
    rw [hw] at ho
    rw [go_clear hw]
    exact ⟨nofun, fun _ _ => ⟨_, ho, rfl⟩⟩
  | write w rest =>
    rw [hw] at ho hp
    obtain ⟨kind, key, item, hwrites, hrest, hd⟩ := ho
    rw [go_write hw]
    exact Kept.write (hp nofun) hwrites hrest hd (Writer.acted m.backend w)
  | mark e =>
    rw [hw] at ho
    have hm : m.missed = true := ho
    rw [go_mark hw]
    refine ⟨fun _ => .inl (Board.marked_ne_good m.board), ?_⟩
    intro _ hn
    exact absurd (hm.symm.trans hn) (by decide)

/-! ### Runs -/

/-- Every move keeps the invariant. -/
theorem Kept.step (h : m.Kept) (move : Move) : (m.step move).Kept := by
  cases move with
  | call r hr =>
    simp only [Mirror.step]
    split
    · next hw => exact h.call hw hr
    · exact h
  | go => exact h.go
  | recover => exact h.recover
  | check => exact h.check
  | reach reachable => exact h.reach reachable

/-- Moves one after the other keep the invariant. -/
theorem Kept.run (h : m.Kept) (moves : List Move) : (m.run moves).Kept := by
  induction moves generalizing m with
  | nil => exact h
  | cons move moves ih => exact ih (h.step move)

/-! ## Agreement -/

/-- Between calls there is agreement once all data was replaced, while the board shows good health. -/
theorem Kept.agree (h : m.Kept) {answer : Option (Except StoreError Bool)} (hw : m.work = .idle answer)
    (hf : m.filled = true) (hg : m.board.health = .good) : Agree m.memory m.backend := by
  obtain ⟨hp, hd⟩ := h.idle hw
  have hmissed : m.missed = false := by
    rw [← Bool.not_eq_true]
    intro hm
    exact hp hm hg
  obtain ⟨v, hv, hview⟩ := hd hf hmissed
  obtain rfl : v = m.memory.find? := hview
  exact hv.read

end Mirror

end FlagDelivery
