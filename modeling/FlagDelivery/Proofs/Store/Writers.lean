import FlagDelivery.Proofs.Store.Guarded

/-!
# Guarded writes one operation at a time

A `Writer` is a guarded write of an item under way. `Writer.act` makes its next operation on the backend, and nothing
else: it watches the space, reads the text, or commits. `Writer.upsert_eq_acts` says that acts one after the other are
all that `Guarded.upsert` does, on whatever backend: what happens between two of them is up to the backend.
-/

namespace FlagDelivery

/-- Where a guarded write stands between two operations. -/
inductive Writing where
  /-- About to watch the space. -/
  | watching
  /-- The space was at the revision; about to read the text. -/
  | reading (revision : Nat)
  /-- The item is newer than the text read; about to commit. -/
  | committing (revision : Nat) (held : Option String)
  | done (result : Except StoreError Bool)

/-- A guarded write of an item. -/
structure Writer where
  space : String
  key : String
  item : Stored
  retry : Policy
  /-- The attempts that met with a conflict. -/
  conflicts : Nat
  stage : Writing

namespace Writer

variable {β : Type}

/-- A write about to begin. -/
def fresh (kind : Kind) (key : String) (item : Stored) (retry : Policy) : Writer :=
  ⟨kind.space, key, item, retry, 0, .watching⟩

/-- The text that is committed. -/
def text (w : Writer) : String := w.item.textFor w.key

/-- Ends the write. -/
def finished (w : Writer) (result : Except StoreError Bool) : Writer := { w with stage := .done result }

/-- Goes on after an attempt to read. An item that is not newer is not written. -/
def decided (w : Writer) (revision : Nat) (held : Option String) : Writer :=
  match Guarded.supersedes w.item held with
  | .ok true => { w with stage := .committing revision held }
  | .ok false => w.finished (.ok false)
  | .error e => w.finished (.error e)

/-- Goes on after a conflict: with another attempt, while the policy allows one. -/
def conflicted (w : Writer) : Writer :=
  if w.retry.allows (w.conflicts + 1) ∧ w.conflicts + 1 < Guarded.attemptLimit w.retry then
    { w with conflicts := w.conflicts + 1, stage := .watching }
  else w.finished (.error (.conflicts w.space w.key (w.conflicts + 1)))

/-- Takes the answer of an operation, which may be that it failed. -/
def taking {α : Type} (w : Writer) (f : α → Writer) : Except StoreError α → Writer
  | .ok a => f a
  | .error e => w.finished (.error e)

variable [Backend β]

/-- The next operation. -/
def act (w : Writer) : StateM β Writer :=
  match w.stage with
  | .watching => w.taking (fun revision => { w with stage := .reading revision }) <$> (Backend.watch w.space).run
  | .reading revision => w.taking (w.decided revision) <$> (Backend.get? w.space w.key).run
  | .committing revision _ =>
    w.taking (fun written => if written then w.finished (.ok true) else w.conflicted) <$>
      (Backend.commit revision w.space w.key w.text).run
  | .done _ => pure w

/-- So many operations one after the other. -/
def acts : Nat → Writer → StateM β Writer
  | 0, w => pure w
  | n + 1, w => do acts n (← w.act)

theorem acts_succ (n : Nat) (w : Writer) (b : β) : acts (n + 1) w b = acts n (w.act b).1 (w.act b).2 := rfl

/-- A writer about to watch watches its space. -/
theorem act_watching {w : Writer} (h : w.stage = .watching) (b : β) :
    w.act b =
      let answer := (Backend.watch w.space : StoreM β Nat).run b
      (w.taking (fun revision => { w with stage := .reading revision }) answer.1, answer.2) := by
  rw [act, h]
  rfl

/-- A writer about to read reads the text under its key, and decides. -/
theorem act_reading {w : Writer} {revision : Nat} (h : w.stage = .reading revision) (b : β) :
    w.act b =
      let answer := (Backend.get? w.space w.key : StoreM β (Option String)).run b
      (w.taking (w.decided revision) answer.1, answer.2) := by
  rw [act, h]
  rfl

/-- A writer about to commit commits, and tries again after a conflict. -/
theorem act_committing {w : Writer} {revision : Nat} {held : Option String} (h : w.stage = .committing revision held)
    (b : β) :
    w.act b =
      let answer := (Backend.commit revision w.space w.key w.text : StoreM β Bool).run b
      (w.taking (fun written => if written then w.finished (.ok true) else w.conflicted) answer.1, answer.2) := by
  rw [act, h]
  rfl

theorem act_done {w : Writer} {result : Except StoreError Bool} (h : w.stage = .done result) (b : β) : w.act b = (w, b) := by
  rw [act, h]
  rfl

/-- A write that has ended does nothing more. -/
theorem acts_done (n : Nat) {w : Writer} {result : Except StoreError Bool} (h : w.stage = .done result) (b : β) :
    acts n w b = (w, b) := by
  induction n with
  | zero => rfl
  | succ n ih => rw [acts_succ, act_done h, ih]

theorem acts_finished (n : Nat) (w : Writer) (result : Except StoreError Bool) (b : β) :
    acts n (w.finished result) b = (w.finished result, b) := acts_done n rfl b

/-- Up to three operations make an attempt of a guarded store. -/
theorem acts_attempt (n : Nat) {w : Writer} (h : w.stage = .watching) (b : β) (retry : Policy)
    (log : List (String × String)) :
    let out := (Guarded.attempt w.space w.key w.item).run ⟨b, retry, fun _ b => b, log⟩
    acts (n + 3) w b = match out.1 with
      | .ok (some written) => (w.finished (.ok written), out.2.backend)
      | .ok none => acts n w.conflicted out.2.backend
      | .error e => (w.finished (.error e), out.2.backend) := by
  intro out
  simp only [out, Guarded.attempt_run]
  rw [acts_succ, act_watching h]
  rcases hw : (Backend.watch w.space : StoreM β Nat).run b with ⟨e | revision, b₁⟩
  · exact acts_finished _ w _ _
  simp only [taking]
  rw [acts_succ, act_reading rfl]
  rcases hg : (Backend.get? w.space w.key : StoreM β (Option String)).run b₁ with ⟨e | held, b₂⟩
  · exact acts_finished _ _ _ _
  simp only [taking, decided]
  rcases hs : Guarded.supersedes w.item held with e | newer
  · exact acts_finished _ _ _ _
  cases newer with
  | false => exact acts_finished _ _ _ _
  | true =>
    rw [acts_succ, act_committing rfl]
    simp only [text]
    rcases hc : (Backend.commit revision w.space w.key (w.item.textFor w.key) : StoreM β Bool).run b₂ with ⟨e | _ | _, b₃⟩
    · exact acts_finished _ _ _ _
    · rfl
    · exact acts_finished _ _ _ _

/-- The operations of all attempts from one on, as many as the policy allows. -/
theorem acts_attemptFrom (fuel : Nat) {w : Writer} (h : w.stage = .watching)
    (hf : w.conflicts + (fuel + 1) = Guarded.attemptLimit w.retry) (b : β) (log : List (String × String)) :
    let out := (Guarded.attemptFrom w.space w.key w.item (fuel + 1) w.conflicts).run ⟨b, w.retry, fun _ b => b, log⟩
    let ended := acts (3 * (fuel + 1)) w b
    ended.1.stage = .done out.1 ∧ ∃ log', out.2 = ⟨ended.2, w.retry, fun _ b => b, log'⟩ := by
  induction fuel generalizing w b log with
  | zero =>
    intro out ended
    -- At the last attempt a conflict ends the write.
    have hlast : w.conflicted = w.finished (.error (.conflicts w.space w.key (w.conflicts + 1))) := by
      rw [conflicted, if_neg fun h => Nat.lt_irrefl _ (hf ▸ h.2)]
    have ha := acts_attempt 0 h b w.retry log
    obtain ⟨r, b', log', hr⟩ := Guarded.attempt_store w.space w.key w.item b w.retry log
    simp only [out, ended, Guarded.attemptFrom_run, hr] at ha ⊢
    rw [ha]
    rcases r with e | _ | written
    · exact ⟨rfl, log', rfl⟩
    · simp only [acts, hlast]
      split <;> exact ⟨rfl, log', rfl⟩
    · exact ⟨rfl, log', rfl⟩
  | succ fuel ih =>
    intro out ended
    have ha := acts_attempt (3 * (fuel + 1)) h b w.retry log
    obtain ⟨r, b', log', hr⟩ := Guarded.attempt_store w.space w.key w.item b w.retry log
    simp only [out, ended] at ha ⊢
    rw [Guarded.attemptFrom_run]
    simp only [hr] at ha ⊢
    rw [show 3 * (fuel + 1 + 1) = 3 * (fuel + 1) + 3 from rfl, ha]
    rcases r with e | _ | written
    · exact ⟨rfl, log', rfl⟩
    · by_cases hl : w.retry.allows (w.conflicts + 1)
      · have hc : w.conflicted = { w with conflicts := w.conflicts + 1, stage := .watching } := by
          rw [conflicted, if_pos ⟨hl, by omega⟩]
        simp only [hc, hl, if_true]
        exact ih rfl (by simp only; omega) b' log'
      · have hc : w.conflicted = w.finished (.error (.conflicts w.space w.key (w.conflicts + 1))) := by
          rw [conflicted, if_neg fun h => hl h.1]
        simp only [hc, hl, acts_finished]
        exact ⟨rfl, log', rfl⟩
    · exact ⟨rfl, log', rfl⟩

/-- A guarded store writes an item by the operations of a writer: it answers what the writer ends with, and leaves the
backend that the writer leaves. -/
theorem upsert_eq_acts (kind : Kind) (key : String) (item : Stored) (b : β) (retry : Policy) (log : List (String × String)) :
    let out := (Guarded.upsert kind key item).run ⟨b, retry, fun _ b => b, log⟩
    let ended := acts (3 * Guarded.attemptLimit retry) (fresh kind key item retry) b
    ended.1.stage = .done out.1 ∧ ∃ log', out.2 = ⟨ended.2, retry, fun _ b => b, log'⟩ := by
  obtain ⟨fuel, hf⟩ := Nat.exists_eq_add_one_of_ne_zero (Nat.ne_of_gt (Guarded.attemptLimit_pos retry))
  have hu : (Guarded.upsert kind key item).run ⟨b, retry, fun _ b => b, log⟩ =
      (Guarded.attemptFrom kind.space key item (fuel + 1) 0).run ⟨b, retry, fun _ b => b, log⟩ := by
    simp [Guarded.upsert, StoreM.bind_run, hf]
  intro out ended
  simp only [out, ended, hu, hf]
  exact acts_attemptFrom fuel rfl (by simp [fresh, hf]) b log

end Writer

end FlagDelivery
