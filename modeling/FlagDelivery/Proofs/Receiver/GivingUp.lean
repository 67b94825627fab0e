import FlagDelivery.Proofs.Receiver.Standings
import Mathlib.Data.List.DropRight

/-!
# When a receiver gives up

A `CallLog` says of each call to connect whether its connection brought data. The count of failures that a receiver
keeps follows from the log of its calls, `Session.Counted`: it is the number of calls since and including the last one
that brought data. So after every attempt that does not end the run by itself the receiver connects again as long as
there were fewer of these calls than the policy allows, and gives up otherwise: `Session.giving_up`.
-/

namespace FlagDelivery

/-- For each call to connect, in order, whether the store accepted a change set of its connection. -/
abbrev CallLog := List Bool

namespace CallLog

/-- The number of calls since and including the last one whose connection brought data, or of all calls if none did. -/
def tries (log : CallLog) : Nat := (log.rtakeWhile fun brought => !brought).length + if true ∈ log then 1 else 0

/-- As long as no connection brought data, every call is a try. -/
theorem tries_of_none {log : CallLog} (h : true ∉ log) : log.tries = log.length := by
  have hall : log.rtakeWhile (fun brought => !brought) = log := by
    rw [List.rtakeWhile_eq_self_iff]
    intro brought hb
    cases brought with
    | true => exact absurd hb h
    | false => rfl
  rw [tries, hall, if_neg h]
  rfl

theorem tries_call (log : CallLog) : tries (log ++ [false]) = log.tries + 1 := by
  simp [tries, Nat.add_right_comm]

theorem tries_data (log : CallLog) : tries (log ++ [true]) = 1 := by
  simp [tries]

theorem tries_pos {log : CallLog} (h : log ≠ []) : 0 < log.tries := by
  rcases List.eq_nil_or_concat log with rfl | ⟨log, last, rfl⟩
  · exact absurd rfl h
  · rw [List.concat_eq_append]
    cases last with
    | true => rw [tries_data]; exact Nat.one_pos
    | false => rw [tries_call]; exact Nat.succ_pos _

end CallLog

namespace Receiver

variable {σ : Type}

/-! ## What the count of failures depends on -/

/-- The terms on which a receiver goes on: its settings, its count of failures, and whether it was cancelled. -/
def terms (r : Receiver σ) : Settings × Nat × Bool := (r.settings, r.failures, r.cancelled)

/-- A receiver goes on after a failure exactly if it may pass. -/
theorem fail_fst (e : DeliveryError) (r : Receiver σ) : (fail e r).1 = e.isRetryable := by
  by_cases h : e = .cancelled
  · subst h
    rfl
  · simp [fail, h]

/-- A failure leaves the terms as they are. -/
theorem terms_fail (e : DeliveryError) (r : Receiver σ) : (fail e r).2.terms = r.terms := by
  by_cases h : e = .cancelled
  · simp [fail, h]
  · simp [fail, h]
    rfl

/-- After an attempt that failed the receiver connects again, with one more failure counted, or stops, if the failure is
no passing one. -/
theorem connected_apply (e : DeliveryError) (r : Receiver σ) : connected (.error e) r =
    if e.isRetryable then (.opening, { (fail e r).2 with failures := (fail e r).2.failures + 1 })
    else (.stopped, (fail e r).2) := by
  have hfst := fail_fst e r
  cases h : e.isRetryable <;> simp [connected, hfst, h]

theorem terms_listen (applied : Bool) (r : Receiver σ) : (listen applied r).2.terms = r.terms := by
  rw [listen_apply]
  split
  · rfl
  · split
    · rfl
    · split <;> rfl

variable [DataStore σ]

/-- Deciding on a connection leaves the terms as they are. -/
theorem terms_dial (r : Receiver σ) : (dial r).2.terms = r.terms := by
  rw [dial_apply]
  split
  · rfl
  · split
    · rfl
    · split <;> rfl

/-- Every answer to a wait leaves the terms as they are. -/
theorem terms_received (applied : Bool) (answer : Except DeliveryError (Option Message)) (r : Receiver σ) :
    (received applied answer r).2.terms = r.terms := by
  rcases answer with e | _ | msg
  · exact terms_fail e r
  · rfl
  · rw [received_some]
    cases (r.machine.receive msg).1 <;> rfl

/-- The answer to a wait is a message that completes a change set, and the store accepts it. -/
def accepts (r : Receiver σ) : Except DeliveryError (Option Message) → Bool
  | .ok (some msg) => (r.machine.receive msg).1.delivered?.any fun c => (Intake.apply (r.settings.batch c) r.intake).1
  | .ok none | .error _ => false

/-- A connection has brought data from the first change set on that the store accepts. -/
theorem received_accepts (applied : Bool) (answer : Except DeliveryError (Option Message)) (r : Receiver σ) :
    (received applied answer r).1 = .listening (r.accepts answer || applied) ∨
      r.accepts answer = false ∧ ∃ again, (received applied answer r).1 = .closing again applied := by
  rcases answer with e | _ | msg
  · exact .inr ⟨rfl, _, (received_error applied e r).1⟩
  · exact .inr ⟨rfl, _, (received_none applied r).1⟩
  · rw [received_some, accepts]
    cases (r.machine.receive msg).1 with
    | goodbye g => exact .inr ⟨rfl, true, rfl⟩
    | refuse e => exact .inr ⟨rfl, true, rfl⟩
    | _ => exact .inl rfl

end Receiver

namespace Session

variable {σ ς ω : Type} [DataStore σ] [Source ς]

/-! ## Calls to connect -/

/-- The log with what a step adds to it: a call, or that the connection of the last call brought data. -/
def noted (stage : Stage) (s : Session σ ς ω) (log : CallLog) : CallLog :=
  match stage with
  | .connecting _ => log ++ [false]
  | .reading _ => if s.receiver.accepts (Source.next s.source).1 then log.dropLast ++ [true] else log
  | _ => log

/-- The calls to connect in so many steps. -/
def calls (others : Others σ ω) (s : Session σ ς ω) : Nat → CallLog
  | 0 => []
  | n + 1 => noted (course others s n).1 (found others s n) (calls others s n)

/-- The receiver's call ends the run by itself: the answer is an error that does not pass, or the source was closed by
its owner. -/
def Breaks (s : Session σ ς ω) : Stage → Prop
  | .connecting resume => ∃ e, (Source.connect resume s.source).1 = .error e ∧ e.isRetryable = false
  | .reading _ => ∃ e, (Source.next s.source).1 = .error e ∧ e.isRetryable = false
  | _ => False

/-- The count of failures follows from the calls made: it is the number of tries, to which the connection under way is
still to be added. -/
def Counted (log : CallLog) (failures : Nat) : Stage → Prop
  | .opening | .connecting _ => failures = log.tries
  | .listening applied | .reading applied | .closing _ applied => log.tries = if applied then 1 else failures + 1
  | .stopped => True

/-- No step changes the settings of a receiver, or cancels it. -/
theorem terms_step (stage : Stage) (s : Session σ ς ω) :
    (step alone stage s).2.receiver.settings = s.receiver.settings ∧
      (step alone stage s).2.receiver.cancelled = s.receiver.cancelled := by
  have of_terms {r : Receiver σ} (h : r.terms = s.receiver.terms) :
      r.settings = s.receiver.settings ∧ r.cancelled = s.receiver.cancelled :=
    ⟨congrArg Prod.fst h, congrArg (·.2.2) h⟩
  cases stage with
  | opening => exact of_terms (Receiver.terms_dial _)
  | connecting resume =>
    rw [step_connecting]
    simp only
    cases (Source.connect resume s.source).1 with
    | ok u => exact ⟨rfl, rfl⟩
    | error e =>
      rw [Receiver.connected_apply]
      have hfail := of_terms (Receiver.terms_fail e s.receiver)
      split <;> exact hfail
  | listening applied => exact of_terms (Receiver.terms_listen applied _)
  | reading applied => exact of_terms (Receiver.terms_received applied _ _)
  | closing again applied => cases again <;> exact ⟨rfl, rfl⟩
  | stopped => exact ⟨rfl, rfl⟩

/-- Every step keeps count. -/
theorem counted_step {stage : Stage} {s : Session σ ς ω} {log : CallLog} (h : Counted log s.receiver.failures stage) :
    Counted (noted stage s log) (step alone stage s).2.receiver.failures (step alone stage s).1 := by
  cases stage with
  | opening =>
    have hfailures : (Receiver.dial s.receiver).2.failures = s.receiver.failures :=
      congrArg (·.2.1) (Receiver.terms_dial s.receiver)
    rw [step_opening]
    simp only [hfailures]
    rcases Receiver.dial_cases s.receiver with ⟨hd, -⟩ | ⟨resume, hd, -⟩ <;> rw [hd]
    · trivial
    · exact h
  | connecting resume =>
    rw [step_connecting]
    simp only [noted]
    cases (Source.connect resume s.source).1 with
    | ok u =>
      -- The call is noted before its connection has brought anything: the count of failures is one behind.
      change (log ++ [false]).tries = s.receiver.failures + 1
      rw [CallLog.tries_call, h]
    | error e =>
      have hfailures : (Receiver.fail e s.receiver).2.failures = s.receiver.failures :=
        congrArg (·.2.1) (Receiver.terms_fail e s.receiver)
      rw [Receiver.connected_apply]
      split
      · change (Receiver.fail e s.receiver).2.failures + 1 = (log ++ [false]).tries
        rw [hfailures, CallLog.tries_call, h]
      · trivial
  | listening applied =>
    have hfailures : (Receiver.listen applied s.receiver).2.failures = s.receiver.failures :=
      congrArg (·.2.1) (Receiver.terms_listen applied s.receiver)
    rw [step_listening]
    simp only [hfailures]
    rcases Receiver.listen_fst applied s.receiver with hl | ⟨again, hl⟩ <;> rw [hl] <;> exact h
  | reading applied =>
    have hfailures (answer : Except DeliveryError (Option Message)) :
        (Receiver.received applied answer s.receiver).2.failures = s.receiver.failures :=
      congrArg (·.2.1) (Receiver.terms_received applied answer s.receiver)
    rw [step_reading]
    simp only [noted]
    generalize (Source.next s.source).1 = answer
    change Counted _ (Receiver.received applied answer s.receiver).2.failures (Receiver.received applied answer s.receiver).1
    rw [hfailures]
    -- Only a change set that the store accepts starts both counts anew.
    rcases s.receiver.received_accepts applied answer with hs | ⟨ha, again, hs⟩
    · rw [hs]
      cases ha : s.receiver.accepts answer with
      | true => exact CallLog.tries_data _
      | false => exact h
    · rw [hs, ha]
      exact h
  | closing again applied =>
    cases again with
    | true =>
      cases applied with
      | true => exact h.symm
      | false => exact h.symm
    | false => trivial
  | stopped => trivial

end Session

/-- A connection is asked for, or it is open. -/
def Stage.IsAttempt : Stage → Prop
  | .connecting _ | .listening _ | .reading _ => True
  | _ => False

namespace Session

variable {σ ς ω : Type} [DataStore σ] [Source ς]

/-! ## How an attempt ends -/

/-- A receiver that was not cancelled leaves a connection for good only if a call ends the run. -/
theorem breaks_of_closing {stage : Stage} {s : Session σ ς ω} {applied : Bool} (hc : s.receiver.cancelled = false)
    (h : (step alone stage s).1 = .closing false applied) : s.Breaks stage := by
  cases stage with
  | opening =>
    rw [step_opening] at h
    rcases Receiver.dial_cases s.receiver with ⟨hd, -⟩ | ⟨resume, hd, -⟩ <;> exact nomatch hd.symm.trans h
  | connecting resume =>
    obtain ⟨hs | hs | hs, -⟩ :=
      Receiver.connected_cases (Source.connect resume s.source).1 s.receiver <;> exact nomatch hs.symm.trans h
  | listening applied' =>
    rw [step_listening, Receiver.listen_apply, hc] at h
    simp only [Bool.false_eq_true, if_false] at h
    split at h
    · cases h
    · split at h <;> cases h
  | reading applied' =>
    change (Receiver.received applied' (Source.next s.source).1 s.receiver).1 = _ at h
    rcases hn : (Source.next s.source).1 with e | _ | msg <;> rw [hn] at h
    · rw [(Receiver.received_error applied' e _).1, Receiver.fail_fst] at h
      exact ⟨e, hn, (Stage.closing.inj h).1⟩
    · exact nomatch (Receiver.received_none applied' s.receiver).1.symm.trans h
    · rcases Receiver.received_some_fst applied' msg s.receiver with ⟨applied, hs⟩ | hs <;> exact nomatch hs.symm.trans h
  | closing again applied' => cases again <;> cases h
  | stopped => cases h

/-- An attempt goes on or comes to an end, and it stops the run only by a call that does. -/
theorem step_of_attempt {stage : Stage} (h : stage.IsAttempt) (s : Session σ ς ω) :
    (step alone stage s).1.IsAttempt ∨ (step alone stage s).1 = .opening ∨
      (∃ again applied, (step alone stage s).1 = .closing again applied) ∨
        (step alone stage s).1 = .stopped ∧ s.Breaks stage := by
  have of_stage {stage' : Stage} (hs : (step alone stage s).1 = stage') (h' : stage'.IsAttempt) :
      (step alone stage s).1.IsAttempt := by
    rwa [hs]
  cases stage with
  | connecting resume =>
    have hstep : (step alone (.connecting resume) s).1 =
        (Receiver.connected (Source.connect resume s.source).1 s.receiver).1 := rfl
    cases ha : (Source.connect resume s.source).1 with
    | ok u =>
      rw [ha] at hstep
      exact .inl (of_stage (hstep.trans (Receiver.connected_ok s.receiver).1) trivial)
    | error e =>
      rw [ha, Receiver.connected_apply] at hstep
      cases he : e.isRetryable with
      | true =>
        rw [if_pos he] at hstep
        exact .inr (.inl hstep)
      | false =>
        rw [if_neg (ne_true_of_eq_false he)] at hstep
        exact .inr (.inr (.inr ⟨hstep, e, ha, he⟩))
  | listening applied =>
    rcases Receiver.listen_fst applied s.receiver with hs | ⟨again, hs⟩
    · exact .inl (of_stage hs trivial)
    · exact .inr (.inr (.inl ⟨again, applied, hs⟩))
  | reading applied =>
    rcases Receiver.received_cases applied (Source.next s.source).1 s.receiver with ⟨applied', hs⟩ | ⟨again, hs⟩
    · exact .inl (of_stage hs trivial)
    · exact .inr (.inr (.inl ⟨again, applied, hs⟩))
  | opening | closing _ _ | stopped => exact h.elim

/-! ## The course of a run -/

variable {others : Others σ ω} {s : Session σ ς ω} {n : Nat}

/-- An attempt to connect is one more call, which has brought nothing yet. -/
theorem calls_of_connecting {resume : Selector} (hs : (course others s n).1 = .connecting resume) :
    calls others s (n + 1) = calls others s n ++ [false] := by
  rw [calls, hs]
  rfl

/-- A change set that the store accepts is noted for the call of its connection. -/
theorem calls_of_reading {applied : Bool} (hs : (course others s n).1 = .reading applied) :
    calls others s (n + 1) =
      if (found others s n).receiver.accepts (Source.next (found others s n).source).1 then
        (calls others s n).dropLast ++ [true]
      else calls others s n := by
  rw [calls, hs]
  rfl

theorem calls_of_opening (hs : (course others s n).1 = .opening) : calls others s (n + 1) = calls others s n := by
  rw [calls, hs]
  rfl

/-- The count of failures follows from the calls all along a course. -/
theorem counted_course (others : Others σ ω) (s : Session σ ς ω) (n : Nat) :
    Counted (calls others s n) (course others s n).2.receiver.failures (course others s n).1 := by
  induction n with
  | zero => rfl
  | succ n ih => exact counted_step (s := found others s n) ih

/-- The settings stay the same all along a course. -/
theorem settings_course (n : Nat) : (course others s n).2.receiver.settings = s.receiver.settings :=
  course_preserves (P := fun _ s' => s'.receiver.settings = s.receiver.settings) rfl (fun _ _ _ => id)
    (fun stage s' h => (terms_step stage s').1.trans h) n

/-- After an attempt that does not end the run by itself the receiver decides on the next one. -/
theorem opening_of_ended (hc : (found others s n).receiver.cancelled = false) (ha : (course others s n).1.IsAttempt)
    (he : ¬(course others s (n + 1)).1.IsAttempt) (hb : ¬(found others s n).Breaks (course others s n).1) :
    ∃ k, n < k ∧ k ≤ n + 2 ∧ (course others s k).1 = .opening ∧ calls others s k = calls others s (n + 1) := by
  rcases step_of_attempt ha (found others s n) with h | h | ⟨again, applied, h⟩ | ⟨-, h⟩
  · exact absurd h he
  · exact ⟨n + 1, by omega, by omega, h, rfl⟩
  · cases again with
    | false => exact absurd (breaks_of_closing hc h) hb
    | true =>
      -- Once the connection is closed, the next step decides.
      have hclosing : (course others s (n + 1)).1 = .closing true applied := h
      refine ⟨n + 2, by omega, le_refl _, ?_, ?_⟩
      · rw [course_succ, hclosing]
        rfl
      · rw [calls, hclosing]
        rfl
  · exact absurd h hb

/-- No call is forgotten in a step. -/
theorem calls_length_succ (n : Nat) : (calls others s n).length ≤ (calls others s (n + 1)).length := by
  cases hs : (course others s n).1 with
  | connecting resume => simp [calls_of_connecting hs]
  | reading applied =>
    rw [calls_of_reading hs]
    split
    · simp
      omega
    · exact le_refl _
  | _ =>
    rw [calls, hs]
    exact le_refl _

/-- No call is forgotten. -/
theorem calls_length_mono {k : Nat} (h : n ≤ k) : (calls others s n).length ≤ (calls others s k).length := by
  induction h with
  | refl => exact le_refl _
  | step _ ih => exact ih.trans (calls_length_succ _)

/-- An attempt is a call that was made. -/
theorem calls_ne_nil_of_attempt (ha : (course others s n).1.IsAttempt) : calls others s (n + 1) ≠ [] := by
  have of_counted (h : calls others s n ≠ []) : calls others s (n + 1) ≠ [] :=
    List.length_pos_iff.mp (Nat.lt_of_lt_of_le (List.length_pos_iff.mpr h) (calls_length_succ n))
  have hcounted := counted_course others s n
  cases hs : (course others s n).1 with
  | connecting resume =>
    rw [calls_of_connecting hs]
    exact List.append_ne_nil_of_right_ne_nil _ (List.cons_ne_nil _ _)
  | listening applied =>
    refine of_counted fun hnil => ?_
    rw [hs, hnil] at hcounted
    cases applied <;> cases hcounted
  | reading applied =>
    refine of_counted fun hnil => ?_
    rw [hs, hnil] at hcounted
    cases applied <;> cases hcounted
  | _ =>
    rw [hs] at ha
    exact ha.elim

/-- A stopped receiver stays as it is. -/
theorem stopped_course (h : (course others s n).1 = .stopped) {k : Nat} (hk : n ≤ k) : (course others s k).1 = .stopped ∧
    (course others s k).2.receiver.intake.standing = (course others s n).2.receiver.intake.standing ∧
    calls others s k = calls others s n := by
  induction hk with
  | refl => exact ⟨h, rfl, rfl⟩
  | @step k _ ih =>
    obtain ⟨hstage, hstanding, hcalls⟩ := ih
    rw [course_succ, calls, hstage]
    exact ⟨rfl, hstanding, hcalls⟩

/-- How a receiver decides that has made some calls. With fewer tries than the policy allows it connects again;
otherwise it stops for good, with its data source off and the last error as it was. -/
structure Decision (others : Others σ ω) (s : Session σ ς ω) (k : Nat) : Prop where
  again : ∀ m, s.receiver.settings.reconnect.maxAttempts = some m → (calls others s k).tries < m →
    ∃ resume, (course others s (k + 1)).1 = .connecting resume
  givesUp : ∀ m, s.receiver.settings.reconnect.maxAttempts = some m → m ≤ (calls others s k).tries → ∀ j, k < j →
    (course others s j).1 = .stopped ∧ (course others s j).2.receiver.intake.state = .off ∧
      (course others s j).2.receiver.intake.lastError = (course others s k).2.receiver.intake.lastError
  unbounded : s.receiver.settings.reconnect.maxAttempts = none → ∃ resume, (course others s (k + 1)).1 = .connecting resume

/-- A receiver that nobody cancels decides on its next connection by the number of tries. -/
theorem decision {k : Nat} (hc : (found others s k).receiver.cancelled = false) (hs : (course others s k).1 = .opening)
    (hcalls : calls others s k ≠ []) : Decision others s k := by
  have htries : (found others s k).receiver.failures = (calls others s k).tries := by
    have hcounted := counted_course others s k
    rw [hs] at hcounted
    exact hcounted
  have hsettings : (found others s k).receiver.settings = s.receiver.settings := settings_course k
  have hpos := CallLog.tries_pos hcalls
  have hnext : course others s (k + 1) =
      ((Receiver.dial (found others s k).receiver).1,
        { found others s k with receiver := (Receiver.dial (found others s k).receiver).2 }) := by
    rw [course_succ, hs]
    rfl
  -- Nobody cancels, and there was a call before: of what `dial` asks only the policy is left.
  have hdial : Receiver.dial (found others s k).receiver =
      if s.receiver.settings.reconnect.allows (calls others s k).tries then
        (.connecting (found others s k).receiver.resumption, (found others s k).receiver.retrying.dialled)
      else (.stopped, (Receiver.onIntake (Intake.report .off none) (found others s k).receiver).2) := by
    rw [Receiver.dial_apply, hc, htries, hsettings, if_neg Bool.false_ne_true, if_neg (Nat.ne_of_gt hpos)]
  refine ⟨?_, ?_, ?_⟩
  · intro m hm hlt
    have hallows : s.receiver.settings.reconnect.allows (calls others s k).tries = true := by
      rw [Policy.allows, hm]
      exact decide_eq_true hlt
    rw [hnext, hdial, if_pos hallows]
    exact ⟨_, rfl⟩
  · intro m hm hle j hj
    have hallows : ¬s.receiver.settings.reconnect.allows (calls others s k).tries = true := by
      rw [Policy.allows, hm, decide_eq_true_eq]
      exact Nat.not_lt.mpr hle
    rw [hdial, if_neg hallows] at hnext
    have hstopped : (course others s (k + 1)).1 = .stopped := by rw [hnext]
    obtain ⟨hstage, hstanding, -⟩ := stopped_course hstopped hj
    have hreport : (course others s j).2.receiver.intake.standing =
        (found others s k).receiver.intake.standing.told .off none := by
      rw [hstanding, hnext, ← Intake.standing_report]
      rfl
    refine ⟨hstage, (congrArg Standing.state hreport).trans ?_, (congrArg Standing.lastError hreport).trans ?_⟩
    · rw [Standing.state_told]
      rfl
    · rw [Standing.lastError_told]
      rfl
  · intro hm
    have hallows : s.receiver.settings.reconnect.allows (calls others s k).tries = true := by rw [Policy.allows, hm]
    rw [hnext, hdial, if_pos hallows]
    exact ⟨_, rfl⟩

/-! ## Runs that bring nothing -/

/-- The first attempt is always made. -/
theorem connecting_first (hc : (found others s n).receiver.cancelled = false) (hs : (course others s n).1 = .opening)
    (hcalls : calls others s n = []) : ∃ resume, (course others s (n + 1)).1 = .connecting resume := by
  have hcounted := counted_course others s n
  rw [hs, hcalls] at hcounted
  have hfailures : (found others s n).receiver.failures = 0 := hcounted
  rw [course_succ, hs, step_opening, Receiver.dial_apply, hc, if_neg Bool.false_ne_true, if_pos hfailures]
  exact ⟨_, rfl⟩

/-- Where every attempt ends, the run stops or makes one more call. -/
theorem exists_more (hends : ∀ n, ∃ k, n ≤ k ∧ ¬(course others s k).1.IsAttempt) (n : Nat) :
    ∃ k, n ≤ k ∧ ((course others s k).1 = .stopped ∨ (calls others s n).length < (calls others s k).length) := by
  have of_opening {k : Nat} (hk : n ≤ k) (hs : (course others s k).1 = .opening) :
      ∃ k, n ≤ k ∧ ((course others s k).1 = .stopped ∨ (calls others s n).length < (calls others s k).length) := by
    have hnext : (course others s (k + 1)).1 = (Receiver.dial (found others s k).receiver).1 := by
      rw [course_succ, hs]
      rfl
    rcases Receiver.dial_cases (found others s k).receiver with ⟨hd, -⟩ | ⟨resume, hd, -⟩
    · exact ⟨k + 1, by omega, .inl (hnext.trans hd)⟩
    · have hle : (calls others s n).length ≤ (calls others s (k + 1)).length := calls_length_mono (by omega)
      refine ⟨k + 2, by omega, .inr ?_⟩
      rw [calls_of_connecting (hnext.trans hd), List.length_append, List.length_singleton]
      omega
  obtain ⟨k, hk, hattempt⟩ := hends n
  cases hs : (course others s k).1 with
  | opening => exact of_opening hk hs
  | closing again applied =>
    have hnext : (course others s (k + 1)).1 = (step alone (.closing again applied) (found others s k)).1 := by
      rw [course_succ, hs]
    cases again with
    | true => exact of_opening (k := k + 1) (by omega) hnext
    | false => exact ⟨k + 1, by omega, .inl hnext⟩
  | stopped => exact ⟨k, hk, .inl hs⟩
  | _ =>
    rw [hs] at hattempt
    exact (hattempt trivial).elim

/-- A run in which nobody cancels the receiver, no call ends it by itself, and no connection brings data. -/
structure Fruitless (others : Others σ ω) (s : Session σ ς ω) : Prop where
  uncancelled : ∀ n, (found others s n).receiver.cancelled = false
  unbroken : ∀ n, ¬(found others s n).Breaks (course others s n).1
  nothing : ∀ n, true ∉ calls others s n

namespace Fruitless

variable {m : Nat} (h : Fruitless others s) (hm : s.receiver.settings.reconnect.maxAttempts = some m)

include h hm

/-- No more calls are made than the policy allows, but one at least. -/
theorem calls_le (n : Nat) : (calls others s n).length ≤ max m 1 := by
  induction n with
  | zero => exact Nat.zero_le _
  | succ n ih =>
    cases hs : (course others s n).1 with
    | connecting resume =>
      -- The step before decided on the call.
      obtain ⟨j, rfl⟩ : ∃ j, n = j + 1 := by
        cases n with
        | zero => cases hs
        | succ j => exact ⟨j, rfl⟩
      have hopening : (course others s j).1 = .opening := (resume_of_step hs).1
      rw [calls_of_connecting hs, calls_of_opening hopening, List.length_append, List.length_singleton]
      by_cases hfirst : calls others s j = []
      · rw [hfirst]
        exact le_max_right m 1
      · have hlt : (calls others s j).tries < m := by
          by_contra hge
          obtain ⟨hstopped, -⟩ :=
            (decision (h.uncancelled j) hopening hfirst).givesUp m hm (Nat.not_lt.mp hge) (j + 1) (Nat.lt_succ_self j)
          exact nomatch hs.symm.trans hstopped
        rw [CallLog.tries_of_none (h.nothing j)] at hlt
        exact le_trans hlt (le_max_left m 1)
    | reading applied =>
      have hnothing := h.nothing (n + 1)
      rw [calls_of_reading hs] at hnothing ⊢
      split at hnothing
      · exact absurd (List.mem_append_right _ (List.mem_singleton.mpr rfl)) hnothing
      · next ha => rwa [if_neg ha]
    | _ =>
      rw [calls, hs]
      exact ih

/-- The run ends only once all the calls were made that the policy allows. -/
theorem calls_eq_of_stopped (hs : (course others s n).1 = .stopped) : (calls others s n).length = max m 1 := by
  induction n with
  | zero => cases hs
  | succ n ih =>
    have hnext : (step alone (course others s n).1 (found others s n)).1 = .stopped := hs
    -- The run does not stop in the midst of an attempt, since nothing breaks it off.
    by_cases ha : (course others s n).1.IsAttempt
    · rcases step_of_attempt ha (found others s n) with h' | h' | ⟨again, applied, h'⟩ | ⟨-, hb⟩
      · rw [hnext] at h'
        exact h'.elim
      · exact nomatch hnext.symm.trans h'
      · exact nomatch hnext.symm.trans h'
      · exact absurd hb (h.unbroken n)
    cases hstage : (course others s n).1 with
    | opening =>
      have hsome : calls others s n ≠ [] := by
        intro hnil
        obtain ⟨resume, hresume⟩ := connecting_first (h.uncancelled n) hstage hnil
        exact nomatch hresume.symm.trans hs
      have hge : m ≤ (calls others s n).tries := by
        by_contra hlt
        obtain ⟨resume, hresume⟩ := (decision (h.uncancelled n) hstage hsome).again m hm (Nat.not_le.mp hlt)
        exact nomatch hresume.symm.trans hs
      rw [CallLog.tries_of_none (h.nothing n)] at hge
      have hle := h.calls_le hm n
      have hpos := List.length_pos_iff.mpr hsome
      rw [calls_of_opening hstage]
      omega
    | closing again applied =>
      rw [hstage] at hnext
      cases again with
      | true => cases hnext
      | false =>
        cases n with
        | zero => cases hstage
        | succ j => exact absurd (breaks_of_closing (h.uncancelled j) hstage) (h.unbroken j)
    | stopped =>
      obtain ⟨-, -, hcalls⟩ := stopped_course hstage (Nat.le_succ n)
      rw [hcalls]
      exact ih hstage
    | _ =>
      rw [hstage] at ha
      exact absurd trivial ha

/-- Where every attempt ends, the run stops. -/
theorem exists_stopped (hends : ∀ n, ∃ k, n ≤ k ∧ ¬(course others s k).1.IsAttempt) :
    ∃ n, (course others s n).1 = .stopped := by
  by_contra hnone
  have hmany (c : Nat) : ∃ n, c ≤ (calls others s n).length := by
    induction c with
    | zero => exact ⟨0, Nat.zero_le _⟩
    | succ c ih =>
      obtain ⟨n, hn⟩ := ih
      obtain ⟨k, -, hstopped | hmore⟩ := exists_more hends n
      · exact absurd ⟨k, hstopped⟩ hnone
      · exact ⟨k, Nat.lt_of_le_of_lt hn hmore⟩
  obtain ⟨n, hn⟩ := hmany (max m 1 + 1)
  exact absurd (h.calls_le hm n) (Nat.not_le.mpr hn)

end Fruitless

/-- **Giving up is exact**, whatever the source, the store and others do, as long as nobody cancels the receiver, in two
parts.
1. After every attempt to connect that does not end the run by itself the receiver decides within two steps, by the
   calls made so far: it connects again as long as there were fewer than the policy allows since and including the last
   one that brought data, and otherwise stops for good with its data source off and the last error as it was. Without a
   bound it always connects again.
2. If no connection brings data and no call ends the run by itself, no more than `max m 1` calls are made under a policy
   of `m` attempts, exactly so many if the run stops, and it does stop if every attempt ends. -/
theorem giving_up (others : Others σ ω) (s : Session σ ς ω) (hc : ∀ n, (found others s n).receiver.cancelled = false) :
    let stage n := (course others s n).1
    let log n := calls others s n
    (∀ n, (stage n).IsAttempt → ¬(stage (n + 1)).IsAttempt → ¬(found others s n).Breaks (stage n) →
      ∃ k, n < k ∧ k ≤ n + 2 ∧ stage k = .opening ∧ log k = log (n + 1) ∧ log k ≠ [] ∧ Decision others s k) ∧
    ∀ m, s.receiver.settings.reconnect.maxAttempts = some m → (∀ n, true ∉ log n) →
      (∀ n, ¬(found others s n).Breaks (stage n)) →
      (∀ n, (log n).length ≤ max m 1) ∧ (∀ n, stage n = .stopped → (log n).length = max m 1) ∧
      ((∀ n, ∃ k, n ≤ k ∧ ¬(stage k).IsAttempt) → ∃ n, stage n = .stopped) := by
  intro stage log
  constructor
  · intro n ha he hb
    obtain ⟨k, hk, hk', hs, hlog⟩ := opening_of_ended (hc n) ha he hb
    have hsome : calls others s k ≠ [] := by
      rw [hlog]
      exact calls_ne_nil_of_attempt ha
    exact ⟨k, hk, hk', hs, hlog, hsome, decision (hc k) hs hsome⟩
  · intro m hm hnothing hunbroken
    have h : Fruitless others s := ⟨hc, hunbroken, hnothing⟩
    exact ⟨h.calls_le hm, fun n => h.calls_eq_of_stopped hm, h.exists_stopped hm⟩

/-- A receiver with a policy of two attempts, and a script of connections. -/
def twoAttempts (cs : List ScriptConnection) : Session (Layered (Attached (Guarded SharedMemory))) Script Unit :=
  ⟨.ofIntake { Settings.default with reconnect := .attempts 2 } (.ofSite (Settings.default.stores none) .off),
    .ofConnections cs, ()⟩

/-- Nobody disturbs a run. -/
def undisturbed : Others (Layered (Attached (Guarded SharedMemory))) Unit := fun _ _ => .idle

theorem uncancelled_undisturbed (cs : List ScriptConnection) (n : Nat) :
    (found undisturbed (twoAttempts cs) n).receiver.cancelled = false := by
  induction n with
  | zero => rfl
  | succ n ih => exact (terms_step _ _).2.trans ih

/-- An attempt to connect that fails, though another one may get past that. -/
def lost : ScriptConnection := .refuse (.transport "down" true)

/-- A connection that brings all data and is closed by the server, and then attempts that fail. -/
def dataThenLost : List ScriptConnection := [.accept ((Message.noData 1 "s").map .message), lost, lost]

/-- After two refusals the receiver has stopped. -/
theorem stopped_lost : (course undisturbed (twoAttempts [lost, lost, lost]) 5).1 = .stopped := rfl

/-- A run whose attempts all fail is over after two of them. -/
theorem fruitless_lost : Fruitless undisturbed (twoAttempts [lost, lost, lost]) where
  uncancelled := uncancelled_undisturbed _
  unbroken
    | 0 | 2 | 4 => id
    | 1 | 3 => by
      rintro ⟨e, he, hr⟩
      cases he
      cases hr
    | n + 5 => by
      obtain ⟨hstopped, -⟩ := stopped_course stopped_lost (Nat.le_add_left 5 n)
      rw [hstopped]
      exact id
  nothing
    | 0 | 1 | 2 | 3 | 4 => by decide
    | n + 5 => by
      obtain ⟨-, -, hcalls⟩ := stopped_course stopped_lost (Nat.le_add_left 5 n)
      rw [hcalls]
      decide

/-- The data make the count start anew, so the receiver connects once more, and gives up once that fails. Where every
attempt fails it makes two. -/
theorem giving_up_twoAttempts :
    let stage n := (course undisturbed (twoAttempts dataThenLost) n).1
    let intake n := (course undisturbed (twoAttempts dataThenLost) n).2.receiver.intake
    ((∃ resume, stage 10 = .connecting resume) ∧ stage 12 = .stopped ∧ (intake 12).state = .off ∧
        (intake 12).lastError = (intake 11).lastError) ∧
      (calls undisturbed (twoAttempts [lost, lost, lost]) 5).length = 2 := by
  intro stage intake
  obtain ⟨hdecide, -⟩ := giving_up _ _ (uncancelled_undisturbed dataThenLost)
  obtain ⟨-, hcount⟩ := giving_up _ _ (uncancelled_undisturbed [lost, lost, lost])
  refine ⟨⟨?_, ?_⟩, ?_⟩
  · have hpasses : ¬(found undisturbed (twoAttempts dataThenLost) 7).Breaks (stage 7) := by
      rintro ⟨e, he, -⟩
      cases he
    obtain ⟨k, hk, hk', hs, -, -, hd⟩ := hdecide 7 trivial id hpasses
    have h8 : stage 8 ≠ .opening := nofun
    obtain rfl : k = 9 := by grind
    exact hd.again 2 rfl (by decide)
  · have hpasses : ¬(found undisturbed (twoAttempts dataThenLost) 10).Breaks (stage 10) := by
      rintro ⟨e, he, hr⟩
      cases he
      cases hr
    obtain ⟨k, hk, hk', hs, -, -, hd⟩ := hdecide 10 trivial id hpasses
    have h12 : stage 12 ≠ .opening := nofun
    obtain rfl : k = 11 := by grind
    exact hd.givesUp 2 rfl (by decide) 12 (by decide)
  · exact (hcount 2 rfl fruitless_lost.nothing fruitless_lost.unbroken).2.1 5 rfl

end Session

end FlagDelivery
