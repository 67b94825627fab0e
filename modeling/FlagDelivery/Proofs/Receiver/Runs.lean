import FlagDelivery.Proofs.Receiver.Core

/-!
# How runs of a receiver go

`Session.runFrom_preserves` turns what each step keeps into what a run keeps. `Session.stepsLeft` is a bound on the steps
that a session over a script has left; each step lowers it, whatever the world does, so a run with the patience that
`Script.patience` grants ends with the receiver stopped.
-/

namespace FlagDelivery

namespace Session

variable {σ ς ω : Type} [DataStore σ] [Source ς] {env : Environment σ ω}

/-- A receiver that has stopped does nothing more. -/
theorem runFrom_stopped (fuel : Nat) (s : Session σ ς ω) : runFrom env fuel .stopped s = (.stopped, s) := by
  cases fuel <;> simp [runFrom]

theorem runFrom_succ (fuel : Nat) {stage : Stage} (h : stage ≠ .stopped) (s : Session σ ς ω) :
    runFrom env (fuel + 1) stage s = runFrom env fuel (step env stage s).1 (step env stage s).2 := by
  simp [runFrom, h]

/-- What every step keeps is kept by a run. -/
theorem runFrom_preserves {P : Stage → Session σ ς ω → Prop}
    (hstep : ∀ stage s, P stage s → P (step env stage s).1 (step env stage s).2)
    (fuel : Nat) {stage : Stage} {s : Session σ ς ω} (h : P stage s) :
    P (runFrom env fuel stage s).1 (runFrom env fuel stage s).2 := by
  induction fuel generalizing stage s with
  | zero => exact h
  | succ fuel ih =>
    by_cases hs : stage = .stopped
    · subst hs
      rw [runFrom_stopped]
      exact h
    · rw [runFrom_succ fuel hs]
      exact ih (hstep stage s h)

/-! ## Each step of a session -/

theorem step_opening (s : Session σ ς ω) :
    step env .opening s = ((Receiver.dial s.receiver).1, { s with receiver := (Receiver.dial s.receiver).2 }) := rfl

/-- The world acts, then the source is asked, then the receiver takes the answer. -/
theorem step_connecting (resume : Selector) (s : Session σ ς ω) :
    step env (.connecting resume) s =
      let met := (env (.connect resume) (s.world, s.receiver)).2
      let answer := Source.connect resume s.source
      ((Receiver.connected answer.1 met.2).1, ⟨(Receiver.connected answer.1 met.2).2, answer.2, met.1⟩) := rfl

theorem step_listening (applied : Bool) (s : Session σ ς ω) :
    step env (.listening applied) s =
      ((Receiver.listen applied s.receiver).1, { s with receiver := (Receiver.listen applied s.receiver).2 }) := rfl

theorem step_reading (applied : Bool) (s : Session σ ς ω) :
    step env (.reading applied) s =
      let met := (env .next (s.world, s.receiver)).2
      let answer := Source.next s.source
      ((Receiver.received applied answer.1 met.2).1, ⟨(Receiver.received applied answer.1 met.2).2, answer.2, met.1⟩) := rfl

theorem step_closing (again applied : Bool) (s : Session σ ς ω) :
    step env (.closing again applied) s =
      let met := (env .close (s.world, s.receiver)).2
      ((Receiver.closed again applied met.2).1,
        ⟨(Receiver.closed again applied met.2).2, (Source.close s.source).2, met.1⟩) := rfl

end Session

/-! ## Scripts are used up -/

namespace Script

/-- What is left of a script are the items of the open connection and of those to come. -/
theorem itemsLeft_eq (s : Script) :
    s.itemsLeft = s.current.length + (s.connections.flatMap ScriptConnection.items).length := by
  unfold itemsLeft
  induction s.connections with
  | nil => simp
  | cons c cs ih =>
    rw [List.foldr_cons, ih, List.flatMap_cons, List.length_append]
    omega

/-- An attempt to connect uses up the next connection, if there is one. -/
theorem connect_cases (resume : Selector) (s : Script) :
    (∃ items cs, s.connections = .accept items :: cs ∧ connect resume s =
        (.ok (), { s with connections := cs, current := items, connected := true, selectors := s.selectors ++ [resume] })) ∨
      (∃ f cs, s.connections = .refuse f :: cs ∧ connect resume s =
        (.error f.error, { s with connections := cs, selectors := s.selectors ++ [resume] })) ∨
      (s.connections = [] ∧ connect resume s = (.error .cancelled, { s with selectors := s.selectors ++ [resume] })) := by
  rcases hc : s.connections with _ | ⟨_ | _, cs⟩
  · exact .inr (.inr ⟨rfl, by simp [connect, hc]⟩)
  · exact .inl ⟨_, cs, rfl, by simp [connect, hc]⟩
  · exact .inr (.inl ⟨_, cs, rfl, by simp [connect, hc]⟩)

/-- The next message of an open connection is used up. -/
theorem next_message {s : Script} {msg : Message} {items : List ScriptItem} (hc : s.connected = true)
    (h : s.current = .message msg :: items) : next s = (.ok (some msg), { s with current := items }) := by
  simp [next, hc, h]

/-- Where no message is next, the answer ends the connection, and at most an item is used up. -/
theorem next_over {s : Script} (h : s.connected = true → ∀ msg, s.current.head? ≠ some (.message msg)) :
    ((next s).1 = .ok none ∨ ∃ e, (next s).1 = .error e) ∧ (next s).2.connections = s.connections ∧
      (next s).2.selectors = s.selectors ∧ (next s).2.itemsLeft ≤ s.itemsLeft := by
  by_cases hc : s.connected = true
  · rcases hi : s.current with _ | ⟨_ | f, items⟩
    · by_cases hn : s.connections = [] <;> simp [next, hc, hi, hn, itemsLeft_eq]
    · simp [hi] at h
      exact absurd hc (by simp [h])
    · simp [next, hc, hi, itemsLeft_eq]
  · simp [next, hc]

end Script

/-! ## Every run over a script ends -/

namespace Session

variable {σ ω : Type} [DataStore σ] {env : Environment σ ω}

/-- A bound on the steps left from a stage: a connection takes five beside two for each item. -/
def stepsLeft (source : Script) (stage : Stage) : Nat :=
  let rest := 5 * source.connections.length + 2 * source.itemsLeft
  match stage with
  | .opening => rest + 2
  | .connecting _ => rest + 1
  | .listening _ => rest + 5
  | .reading _ => rest + 4
  | .closing _ _ => rest + 3
  | .stopped => 0

/-- Each step lowers the bound on the steps left. -/
theorem stepsLeft_step {stage : Stage} (h : stage ≠ .stopped) (s : Session σ Script ω) :
    stepsLeft (step env stage s).2.source (step env stage s).1 < stepsLeft s.source stage := by
  cases stage with
  | opening =>
    rw [step_opening]
    rcases Receiver.dial_cases s.receiver with ⟨hd, -⟩ | ⟨resume, hd, -⟩ <;> simp [hd, stepsLeft]
  | connecting resume =>
    rw [step_connecting]
    obtain ⟨items, cs, hc, ha⟩ | ⟨f, cs, hc, ha⟩ | ⟨hc, ha⟩ := Script.connect_cases resume s.source
    · simp only [Source.connect, ha, Receiver.connected_ok]
      simp only [stepsLeft, Script.itemsLeft_eq, hc, List.length_cons, List.flatMap_cons, List.length_append,
        ScriptConnection.items]
      omega
    · simp only [Source.connect, ha]
      rcases (Receiver.connected_error f.error (env (.connect resume) (s.world, s.receiver)).2.2).1 with hs | hs <;>
        simp [hs, stepsLeft, Script.itemsLeft_eq, hc, ScriptConnection.items]
      omega
    · simp [Source.connect, ha, Receiver.connected_cancelled, stepsLeft]
  | listening applied =>
    rw [step_listening]
    rcases Receiver.listen_fst applied s.receiver with hl | ⟨again, hl⟩ <;> simp [hl, stepsLeft]
  | reading applied =>
    rw [step_reading]
    -- A message uses up an item; any other answer leads to the closing of the connection.
    by_cases hm : s.source.connected = true ∧ ∃ msg items, s.source.current = .message msg :: items
    · obtain ⟨hc, msg, items, hi⟩ := hm
      simp only [Source.next, Script.next_message hc hi]
      rcases Receiver.received_some_fst applied msg (env .next (s.world, s.receiver)).2.2 with ⟨a, hs⟩ | hs <;>
        simp only [hs, stepsLeft, Script.itemsLeft_eq, hi, List.length_cons] <;> omega
    · have ho : s.source.connected = true → ∀ msg, s.source.current.head? ≠ some (.message msg) := by
        intro hc msg hi
        obtain ⟨items, hi⟩ := List.head?_eq_some_iff.mp hi
        exact hm ⟨hc, msg, items, hi⟩
      obtain ⟨ha, hc, -, hi⟩ := Script.next_over ho
      obtain ⟨again, hs, -⟩ := Receiver.received_over applied ha (env .next (s.world, s.receiver)).2.2
      simp only [Source.next, hs, stepsLeft, hc]
      omega
  | closing again applied =>
    rw [step_closing]
    rcases (Receiver.closed_cases again applied (env .close (s.world, s.receiver)).2.2).1 with hs | hs
    · simp only [hs, stepsLeft, Source.close, Script.close, StoreM.modify_apply, Script.itemsLeft_eq, List.length_nil]
      omega
    · simp [hs, stepsLeft]
  | stopped => exact absurd rfl h

/-- A run that is granted as many steps as may be left ends with the receiver stopped. -/
theorem runFrom_fst_of_stepsLeft {fuel : Nat} {stage : Stage} {s : Session σ Script ω}
    (h : stepsLeft s.source stage ≤ fuel) :
    (runFrom env fuel stage s).1 = .stopped := by
  induction fuel generalizing stage s with
  | zero =>
    cases stage with
    | stopped => rfl
    | _ => simp [stepsLeft] at h
  | succ fuel ih =>
    by_cases hs : stage = .stopped
    · rw [hs, runFrom_stopped]
    · rw [runFrom_succ fuel hs]
      have hlt : stepsLeft (step env stage s).2.source (step env stage s).1 < _ := stepsLeft_step hs s
      exact ih (by omega)

/-- Whatever the world does, a run over a script ends within the script's patience. -/
theorem run_fst (env : Environment σ ω) (extra : Nat) (s : Session σ Script ω) :
    (run env (s.source.patience + extra) s).1 = .stopped := by
  refine runFrom_fst_of_stepsLeft ?_
  simp only [stepsLeft, Script.patience]
  omega

end Session

end FlagDelivery
