import FlagDelivery.Proofs.Receiver.Connections
import FlagDelivery.Proofs.Receiver.GivingUp
import Mathlib.Data.Bool.Count

/-!
# The accounts of a run

A `Journal` is kept of a receiver's calls from outside: what its source answered, and what the intake made of the change
sets that the messages completed. Between any two steps the receiver's own tally agrees with it, `Session.Balanced`,
whatever the source is. Over a script the journal agrees with what is used up of the script, `Session.Followed`. A run
over a script ends, since every step uses something up, and then its accounts balance: `Session.accounts_balance`.
-/

namespace FlagDelivery

/-- What came of the calls of a receiver, in order. -/
structure Journal where
  /-- For each attempt to connect, whether it was accepted. -/
  attempts : List Bool
  /-- Each message handed out, with what the machine answered to it. -/
  messages : List (Message × Action)
  /-- For each change set handed to the intake, whether it was accepted. -/
  verdicts : List Bool
  /-- How often a connection was closed. -/
  closes : Nat

namespace Journal

/-- The journal of a receiver that has made no call. -/
def blank : Journal := ⟨[], [], [], 0⟩

/-- The messages handed out, as items of a script. -/
def handedOut (j : Journal) : List ScriptItem := j.messages.map fun m => .message m.1

/-- The number of messages that were answered with a change set. -/
def completions (j : Journal) : Nat := j.messages.countP fun m => m.2.delivered?.isSome

end Journal

/-- The attempt to connect is accepted. -/
def ScriptConnection.isAccepted : ScriptConnection → Bool
  | .accept _ => true
  | .refuse _ => false

namespace Tally

/-- What a tally counts, without the error that it shows. -/
def counts (t : Tally) : Tally := { t with lastError := none }

/-- The tally once a message was counted and, if it completed a change set, whether that was accepted. -/
def counting (verdict : Option Bool) (t : Tally) : Tally :=
  { t with
    events := t.events + 1
    applied := t.applied + verdict.toList.count true
    failed := t.failed + verdict.toList.count false }

theorem reconnects_of_counts {t t' : Tally} (h : t'.counts = t.counts) : t'.reconnects = t.reconnects := by
  have hr : t'.counts.reconnects = t.counts.reconnects := congrArg Tally.reconnects h
  exact hr

end Tally

namespace Receiver

variable {σ : Type}

/-! ## What each action counts -/

/-- A failure is not counted, only shown. -/
theorem counts_fail (e : DeliveryError) (r : Receiver σ) : (fail e r).2.tally.counts = r.tally.counts := by
  by_cases h : e = .cancelled
  · simp [fail, h]
  · simp [fail, h]
    rfl

variable [DataStore σ]

/-- What the intake makes of the change set that a message completes, if it completes one. -/
def verdict? (r : Receiver σ) (msg : Message) : Option Bool :=
  (r.machine.receive msg).1.delivered?.map fun c => (Intake.apply (r.settings.batch c) r.intake).1

/-- Of a message it is counted that it came, and what the store made of the change set that it completed. -/
theorem counts_received_some (applied : Bool) (msg : Message) (r : Receiver σ) :
    (received applied (.ok (some msg)) r).2.tally.counts = (r.tally.counting (r.verdict? msg)).counts := by
  rw [received_some, verdict?]
  cases (r.machine.receive msg).1 with
  | deliver c =>
    have hanswer : (Intake.apply (.ofChangeSet c r.settings.environment r.settings.persist) (r.afterMessage msg).intake).1 =
        (Intake.apply (r.settings.batch c) r.intake).1 := rfl
    have hsettings : (r.afterMessage msg).settings = r.settings := rfl
    have htally : (r.afterMessage msg).tally = { r.tally with events := r.tally.events + 1 } := rfl
    cases hv : (Intake.apply (r.settings.batch c) r.intake).1 <;>
      simp [act, deliver, onIntake, count, hsettings, hanswer, hv, htally, Action.delivered?, Tally.counting]
  | _ => rfl

/-- An answer that brings no message counts nothing. -/
theorem counts_received_over (applied : Bool) {answer : Except DeliveryError (Option Message)}
    (h : ∀ msg, answer ≠ .ok (some msg)) (r : Receiver σ) : (received applied answer r).2.tally.counts = r.tally.counts := by
  rcases answer with e | _ | msg
  · exact counts_fail e r
  · rfl
  · exact absurd rfl (h msg)

/-- No answer to a wait is counted as connecting again. -/
theorem reconnects_received (applied : Bool) (answer : Except DeliveryError (Option Message)) (r : Receiver σ) :
    (received applied answer r).2.tally.reconnects = r.tally.reconnects := by
  by_cases h : ∃ msg, answer = .ok (some msg)
  · obtain ⟨msg, rfl⟩ := h
    exact Tally.reconnects_of_counts (t := r.tally.counting (r.verdict? msg)) (counts_received_some applied msg r)
  · exact Tally.reconnects_of_counts (counts_received_over applied (fun msg ha => h ⟨msg, ha⟩) r)

end Receiver

/-! ## The journal of a run -/

namespace Journal

/-- The tally counts what the journal says. -/
structure Agrees (j : Journal) (t : Tally) : Prop where
  connections : t.connections = j.attempts.count true
  events : t.events = j.messages.length
  applied : t.applied = j.verdicts.count true
  failed : t.failed = j.verdicts.count false
  completions : j.completions = j.verdicts.length

theorem agrees_blank : blank.Agrees default := ⟨rfl, rfl, rfl, rfl, rfl⟩

/-- The error that a tally shows does not matter. -/
theorem Agrees.congr {j : Journal} {t t' : Tally} (h : j.Agrees t) (ht : t'.counts = t.counts) : j.Agrees t' where
  connections := (congrArg Tally.connections ht).trans h.connections
  events := (congrArg Tally.events ht).trans h.events
  applied := (congrArg Tally.applied ht).trans h.applied
  failed := (congrArg Tally.failed ht).trans h.failed
  completions := h.completions

/-- A message is counted, and so is what the intake made of the change set that it completed. -/
theorem Agrees.message {j : Journal} {t : Tally} (h : j.Agrees t) (msg : Message) (action : Action) {verdict : Option Bool}
    (hv : verdict.isSome = action.delivered?.isSome) :
    Agrees { j with messages := j.messages ++ [(msg, action)], verdicts := j.verdicts ++ verdict.toList }
      (t.counting verdict) where
  connections := h.connections
  events := by rw [List.length_append, ← h.events]; rfl
  applied := by rw [List.count_append, ← h.applied]; rfl
  failed := by rw [List.count_append, ← h.failed]; rfl
  completions := by
    have hc : j.messages.countP (fun m => m.2.delivered?.isSome) = j.verdicts.length := h.completions
    rw [Journal.completions, List.countP_append, hc, List.length_append]
    cases verdict <;> simp [← hv]

/-- Where a receiver stands with its attempts: how many of the connections are closed, and how many attempts were
counted as ones to connect again. Only an attempt that was decided on and not made is counted before it is in the
journal, and the first is not counted. -/
def Stands (j : Journal) (failures reconnects : Nat) : Stage → Prop
  | .opening => j.attempts.count true = j.closes ∧
      (j.attempts = [] ∧ failures = 0 ∧ reconnects = 0 ∨ 0 < failures ∧ reconnects + 1 = j.attempts.length)
  | .connecting _ => j.attempts.count true = j.closes ∧ reconnects = j.attempts.length
  | .listening _ | .reading _ | .closing _ _ => j.attempts.count true = j.closes + 1 ∧ reconnects + 1 = j.attempts.length
  | .stopped => j.attempts.count true = j.closes ∧ reconnects + 1 = j.attempts.length

end Journal

namespace Session

variable {σ ς ω : Type} [DataStore σ] [Source ς]

/-- The journal with what a step adds to it. -/
def entered (stage : Stage) (s : Session σ ς ω) (j : Journal) : Journal :=
  match stage with
  | .connecting resume => { j with attempts := j.attempts ++ [(Source.connect resume s.source).1.isOk] }
  | .reading _ =>
    match (Source.next s.source).1 with
    | .ok (some msg) =>
      { j with
        messages := j.messages ++ [(msg, (s.receiver.machine.receive msg).1)]
        verdicts := j.verdicts ++ (s.receiver.verdict? msg).toList }
    | .ok none | .error _ => j
  | .closing _ _ => { j with closes := j.closes + 1 }
  | .opening | .listening _ | .stopped => j

/-- The journal of so many steps. -/
def journal (others : Others σ ω) (s : Session σ ς ω) : Nat → Journal
  | 0 => .blank
  | n + 1 => entered (course others s n).1 (found others s n) (journal others s n)

/-! ## The tally agrees with the journal -/

/-- Between two steps the tally agrees with the journal, as far as the stage allows it to. -/
structure Balanced (stage : Stage) (r : Receiver σ) (j : Journal) : Prop where
  agrees : j.Agrees r.tally
  stands : j.Stands r.failures r.tally.reconnects stage

variable {s : Session σ ς ω} {j : Journal}

/-- Deciding on a connection keeps the tally balanced. -/
theorem balanced_opening (hc : s.receiver.cancelled = false) (h : Balanced .opening s.receiver j) :
    Balanced (step alone .opening s).1 (step alone .opening s).2.receiver (entered .opening s j) := by
  obtain ⟨hagrees, hclosed, hattempts⟩ := h
  rw [step_opening, Receiver.dial_apply, hc, if_neg Bool.false_ne_true]
  by_cases hf : s.receiver.failures = 0
  · rw [if_pos hf]
    obtain ⟨hnone, -, hr⟩ | ⟨hpos, -⟩ := hattempts
    · exact ⟨hagrees, hclosed, by rw [entered, hnone]; exact hr⟩
    · omega
  · rw [if_neg hf]
    have hcounted : s.receiver.tally.reconnects + 1 = j.attempts.length := by
      obtain ⟨-, hzero, -⟩ | ⟨-, hr⟩ := hattempts
      · exact absurd hzero hf
      · exact hr
    split
    · exact ⟨⟨hagrees.connections, hagrees.events, hagrees.applied, hagrees.failed, hagrees.completions⟩, hclosed, hcounted⟩
    · exact ⟨hagrees, hclosed, hcounted⟩

/-- The answer to an attempt to connect keeps the tally balanced. -/
theorem balanced_connecting {resume : Selector} (h : Balanced (.connecting resume) s.receiver j) :
    Balanced (step alone (.connecting resume) s).1 (step alone (.connecting resume) s).2.receiver
      (entered (.connecting resume) s j) := by
  obtain ⟨hagrees, hclosed, hattempts⟩ := h
  rw [step_connecting]
  simp only [entered]
  cases (Source.connect resume s.source).1 with
  | ok u =>
    have haccepted : (j.attempts ++ [true]).count true = j.attempts.count true + 1 := by simp
    have hattempts' : s.receiver.tally.reconnects + 1 = (j.attempts ++ [true]).length := by
      rw [List.length_append, hattempts]
      rfl
    exact ⟨⟨(congrArg (· + 1) hagrees.connections).trans haccepted.symm, hagrees.events, hagrees.applied, hagrees.failed,
      hagrees.completions⟩, haccepted.trans (congrArg (· + 1) hclosed), hattempts'⟩
  | error e =>
    have hcounts := Receiver.counts_fail e s.receiver
    have hreconnects : (Receiver.fail e s.receiver).2.tally.reconnects + 1 = (j.attempts ++ [false]).length := by
      rw [List.length_append, ← hattempts]
      exact congrArg (·.reconnects + 1) hcounts
    have hrefused : (j.attempts ++ [false]).count true = j.attempts.count true := by simp
    have hagrees' : Journal.Agrees { j with attempts := j.attempts ++ [false] } (Receiver.fail e s.receiver).2.tally :=
      .congr ⟨hagrees.connections.trans hrefused.symm, hagrees.events, hagrees.applied, hagrees.failed,
        hagrees.completions⟩ hcounts
    rw [Receiver.connected_apply]
    split
    · exact ⟨hagrees', hrefused.trans hclosed, .inr ⟨Nat.succ_pos _, hreconnects⟩⟩
    · exact ⟨hagrees', hrefused.trans hclosed, hreconnects⟩

/-- Deciding on the next message keeps the tally balanced. -/
theorem balanced_listening {applied : Bool} (h : Balanced (.listening applied) s.receiver j) :
    Balanced (step alone (.listening applied) s).1 (step alone (.listening applied) s).2.receiver
      (entered (.listening applied) s j) := by
  obtain ⟨hagrees, hstands⟩ := h
  rw [step_listening, Receiver.listen_apply]
  split
  · exact ⟨hagrees, hstands⟩
  · split
    · exact ⟨hagrees, hstands⟩
    · split <;> exact ⟨hagrees, hstands⟩

/-- The answer to a wait keeps the tally balanced, with the message and the verdict on its change set. -/
theorem balanced_reading {applied : Bool} (h : Balanced (.reading applied) s.receiver j) :
    Balanced (step alone (.reading applied) s).1 (step alone (.reading applied) s).2.receiver
      (entered (.reading applied) s j) := by
  have hstands (j' : Journal) (ha : j'.attempts = j.attempts) (hc : j'.closes = j.closes)
      (answer : Except DeliveryError (Option Message)) :
      j'.Stands (Receiver.received applied answer s.receiver).2.failures
        (Receiver.received applied answer s.receiver).2.tally.reconnects
        (Receiver.received applied answer s.receiver).1 := by
    rw [Receiver.reconnects_received]
    rcases Receiver.received_cases applied answer s.receiver with ⟨applied', hs⟩ | ⟨again, hs⟩ <;>
      rw [hs, Journal.Stands, ha, hc] <;> exact h.stands
  rw [step_reading]
  simp only [entered, alone, StoreM.pure_apply]
  rcases (Source.next s.source).1 with e | _ | msg
  · exact ⟨h.agrees.congr (Receiver.counts_fail e s.receiver), hstands j rfl rfl _⟩
  · exact ⟨h.agrees.congr rfl, hstands j rfl rfl _⟩
  · have hverdict : (s.receiver.verdict? msg).isSome = (s.receiver.machine.receive msg).1.delivered?.isSome :=
      Option.isSome_map
    exact ⟨(h.agrees.message msg _ hverdict).congr (Receiver.counts_received_some applied msg s.receiver),
      hstands _ rfl rfl _⟩

/-- Closing the connection keeps the tally balanced. -/
theorem balanced_closing {again applied : Bool} (h : Balanced (.closing again applied) s.receiver j) :
    Balanced (step alone (.closing again applied) s).1 (step alone (.closing again applied) s).2.receiver
      (entered (.closing again applied) s j) := by
  obtain ⟨hagrees, hclosed, hattempts⟩ := h
  have hagrees' : Journal.Agrees { j with closes := j.closes + 1 } s.receiver.tally :=
    ⟨hagrees.connections, hagrees.events, hagrees.applied, hagrees.failed, hagrees.completions⟩
  cases again with
  | false => exact ⟨hagrees', hclosed, hattempts⟩
  | true => cases applied <;> exact ⟨hagrees', hclosed, .inr ⟨Nat.succ_pos _, hattempts⟩⟩

/-- Every step of a receiver that was not cancelled keeps the accounts. -/
theorem balanced_step {stage : Stage} (hc : s.receiver.cancelled = false) (h : Balanced stage s.receiver j) :
    Balanced (step alone stage s).1 (step alone stage s).2.receiver (entered stage s j) := by
  cases stage with
  | opening => exact balanced_opening hc h
  | connecting resume => exact balanced_connecting h
  | listening applied => exact balanced_listening h
  | reading applied => exact balanced_reading h
  | closing again applied => exact balanced_closing h
  | stopped => exact h

/-- The tally is balanced all along a course that is not cancelled, from a new tally on. -/
theorem balanced_course {others : Others σ ω} (hfresh : s.receiver.tally = default)
    (hc : ∀ n, (found others s n).receiver.cancelled = false) (n : Nat) :
    Balanced (course others s n).1 (course others s n).2.receiver (journal others s n) := by
  induction n with
  | zero =>
    have htally : ((onReceiver Receiver.start s).2 : Session σ ς ω).receiver.tally = default := hfresh
    exact ⟨htally ▸ Journal.agrees_blank, rfl, .inl ⟨rfl, rfl, htally ▸ rfl⟩⟩
  | succ n ih => exact balanced_step (s := found others s n) (hc n) ⟨ih.agrees, ih.stands⟩

end Session

/-! ## The journal agrees with the script -/

namespace Script

/-- Reading from a connection uses up at most one of its items, and a message that is handed out is the next one. -/
theorem next_cases (s : Script) :
    ((next s).2.connections = s.connections ∧ (next s).2.selectors = s.selectors ∧ (next s).2.closes = s.closes) ∧
      ((∃ msg, (next s).1 = .ok (some msg) ∧ s.current = .message msg :: (next s).2.current) ∨
        (∀ msg, (next s).1 ≠ .ok (some msg)) ∧ (next s).2.current.Sublist s.current) := by
  by_cases hc : s.connected = true
  · rcases hi : s.current with _ | ⟨msg | f, items⟩
    · by_cases hn : s.connections = [] <;> simp [next, hc, hi, hn]
    · simp [next, hc, hi]
    · simp [next, hc, hi]
  · simp [next, hc]

end Script

namespace Session

variable {σ ω : Type} [DataStore σ]

/-- Between two steps the journal tells what is used up of a script: each attempt uses up a connection, those accepted
are the ones laid down so, and the messages handed out are items of the connections used up. Only the attempt that ends
the run may find no connection left. -/
structure Followed (cs : List ScriptConnection) (stage : Stage) (source : Script) (j : Journal) : Prop where
  connections : source.connections = cs.drop source.selectors.length
  attempts : j.attempts.length = source.selectors.length
  accepted : j.attempts.count true = (cs.take source.selectors.length).countP ScriptConnection.isAccepted
  closes : j.closes = source.closes
  handedOut : (j.handedOut ++ source.current).Sublist ((cs.take source.selectors.length).flatMap ScriptConnection.items)
  inside : stage ≠ .stopped → source.selectors.length ≤ cs.length
  bound : source.selectors.length ≤ cs.length + 1

variable {cs : List ScriptConnection} {s : Session σ Script ω} {j : Journal}

/-- A step that makes no attempt to connect may use up items and close the connection. -/
theorem Followed.keep {stage stage' : Stage} {source source' : Script} {j' : Journal} (h : Followed cs stage source j)
    (hs : stage ≠ .stopped) (hconnections : source'.connections = source.connections)
    (hselectors : source'.selectors = source.selectors) (hattempts : j'.attempts = j.attempts)
    (hcloses : j'.closes = source'.closes)
    (hout : (j'.handedOut ++ source'.current).Sublist (j.handedOut ++ source.current)) : Followed cs stage' source' j' := by
  refine ⟨?_, ?_, ?_, hcloses, ?_, fun _ => ?_, ?_⟩ <;> rw [hselectors]
  · exact hconnections.trans h.connections
  · rw [hattempts]
    exact h.attempts
  · rw [hattempts]
    exact h.accepted
  · exact hout.trans h.handedOut
  · exact h.inside hs
  · exact h.bound

/-- An attempt to connect uses up the next connection, if there is one. -/
theorem Followed.useUp {stage : Stage} {resume : Selector} {source source' : Script} {c : ScriptConnection}
    {rest : List ScriptConnection} (h : Followed cs (.connecting resume) source j) (hc : source.connections = c :: rest)
    (hrest : source'.connections = rest) (hselectors : source'.selectors = source.selectors ++ [resume])
    (hcloses : source'.closes = source.closes) (hcurrent : source'.current.Sublist (source.current ++ c.items)) :
    Followed cs stage source' { j with attempts := j.attempts ++ [c.isAccepted] } := by
  obtain ⟨ht, hd⟩ := used_up (h.connections.symm.trans hc)
  have hleft := congrArg List.length (h.connections.symm.trans hc)
  rw [List.length_drop, List.length_cons] at hleft
  have hlength : source'.selectors.length = source.selectors.length + 1 := by
    rw [hselectors]
    exact List.length_append
  refine ⟨?_, ?_, ?_, h.closes.trans hcloses.symm, ?_, fun _ => ?_, ?_⟩ <;> rw [hlength]
  · exact hrest.trans hd.symm
  · rw [List.length_append, h.attempts]
    rfl
  · rw [ht, List.countP_append, List.count_append, h.accepted]
    cases c <;> rfl
  · rw [ht, List.flatMap_append, List.flatMap_singleton]
    refine ((List.Sublist.refl j.handedOut).append hcurrent).trans ?_
    rw [← List.append_assoc]
    exact h.handedOut.append (List.Sublist.refl _)
  · omega
  · omega

/-- An attempt for which no connection is left ends the run. -/
theorem Followed.runOut {resume : Selector} {source : Script} (h : Followed cs (.connecting resume) source j)
    (hc : source.connections = []) :
    Followed cs .stopped { source with selectors := source.selectors ++ [resume] }
      { j with attempts := j.attempts ++ [false] } := by
  have hall : cs.length ≤ source.selectors.length := List.drop_eq_nil_iff.mp (h.connections.symm.trans hc)
  have hinside := h.inside nofun
  have hlength : (source.selectors ++ [resume]).length = source.selectors.length + 1 := List.length_append
  have htake : cs.take (source.selectors.length + 1) = cs.take source.selectors.length := by
    rw [List.take_of_length_le hall, List.take_of_length_le (Nat.le_succ_of_le hall)]
  refine ⟨?_, ?_, ?_, h.closes, ?_, fun hs => absurd rfl hs, ?_⟩ <;> simp only [hlength]
  · exact hc.trans (List.drop_eq_nil_of_le (Nat.le_succ_of_le hall)).symm
  · rw [List.length_append, h.attempts]
    rfl
  · rw [htake, List.count_append, h.accepted]
    rfl
  · rw [htake]
    exact h.handedOut
  · omega

/-- An attempt to connect uses up a connection of the script, and the journal says so. -/
theorem followed_connecting {resume : Selector} (h : Followed cs (.connecting resume) s.source j) :
    Followed cs (step alone (.connecting resume) s).1 (step alone (.connecting resume) s).2.source
      (entered (.connecting resume) s j) := by
  rw [step_connecting]
  simp only [entered, alone, StoreM.pure_apply, Source.connect]
  obtain ⟨items, rest, hc, ha⟩ | ⟨f, rest, hc, ha⟩ | ⟨hc, ha⟩ := Script.connect_cases resume s.source <;> rw [ha]
  · exact h.useUp hc rfl rfl rfl (List.sublist_append_right _ _)
  · exact h.useUp hc rfl rfl rfl (List.sublist_append_left _ _)
  · rw [Receiver.connected_cancelled]
    exact h.runOut hc

/-- A wait uses up an item of the connection, and the journal has the message. -/
theorem followed_reading {applied : Bool} (h : Followed cs (.reading applied) s.source j) :
    Followed cs (step alone (.reading applied) s).1 (step alone (.reading applied) s).2.source
      (entered (.reading applied) s j) := by
  obtain ⟨⟨hconnections, hselectors, hcloses⟩, hnext⟩ := Script.next_cases s.source
  rw [step_reading]
  simp only [entered, alone, StoreM.pure_apply, Source.next]
  obtain ⟨msg, hmsg, hcurrent⟩ | ⟨hno, hcurrent⟩ := hnext
  · rw [hmsg]
    refine h.keep nofun hconnections hselectors rfl (h.closes.trans hcloses.symm) ?_
    simp only [Journal.handedOut, List.map_append, List.map_cons, List.map_nil, List.append_assoc,
      List.singleton_append, hcurrent]
    exact List.Sublist.refl _
  · have hover {stage : Stage} : Followed cs stage (Script.next s.source).2 j :=
      h.keep nofun hconnections hselectors rfl (h.closes.trans hcloses.symm) ((List.Sublist.refl _).append hcurrent)
    rcases hanswer : (Script.next s.source).1 with e | _ | msg
    · exact hover
    · exact hover
    · exact absurd hanswer (hno msg)

/-- Closing gives the rest of the connection up. -/
theorem followed_closing {again applied : Bool} (h : Followed cs (.closing again applied) s.source j) :
    Followed cs (step alone (.closing again applied) s).1 (step alone (.closing again applied) s).2.source
      (entered (.closing again applied) s j) :=
  h.keep nofun rfl rfl rfl (congrArg (· + 1) h.closes) ((List.Sublist.refl _).append (List.nil_sublist _))

/-- Every step keeps to the script. -/
theorem followed_step {stage : Stage} (h : Followed cs stage s.source j) :
    Followed cs (step alone stage s).1 (step alone stage s).2.source (entered stage s j) := by
  cases stage with
  | opening => exact h.keep nofun rfl rfl rfl h.closes (List.Sublist.refl _)
  | connecting resume => exact followed_connecting h
  | listening applied => exact h.keep nofun rfl rfl rfl h.closes (List.Sublist.refl _)
  | reading applied => exact followed_reading h
  | closing again applied => exact followed_closing h
  | stopped => exact h

variable {others : Others σ ω}

/-- The journal tells what is used up of a script all along a course. -/
theorem followed_course (hs : s.source = .ofConnections cs) (n : Nat) :
    Followed cs (course others s n).1 (course others s n).2.source (journal others s n) := by
  induction n with
  | zero =>
    have hsource : ((onReceiver Receiver.start s).2 : Session σ Script ω).source = .ofConnections cs := hs
    rw [course, hsource]
    exact ⟨rfl, rfl, rfl, rfl, List.Sublist.refl _, fun _ => Nat.zero_le _, Nat.zero_le _⟩
  | succ n ih => exact followed_step (s := found others s n) ih

/-! ## Every course over a script ends -/

/-- What others do uses up nothing, and each step uses something up. -/
theorem stepsLeft_course (n : Nat) : (course others s n).1 = .stopped ∨
    stepsLeft (course others s n).2.source (course others s n).1 + n ≤ s.source.patience := by
  induction n with
  | zero =>
    refine .inr ?_
    have hsource : ((onReceiver Receiver.start s).2 : Session σ Script ω).source = s.source := rfl
    simp only [course, hsource, stepsLeft, Script.patience]
    omega
  | succ n ih =>
    by_cases hstop : (course others s n).1 = .stopped
    · exact .inl (stopped_course hstop (Nat.le_succ n)).1
    · have hlt : stepsLeft (course others s (n + 1)).2.source (course others s (n + 1)).1 <
          stepsLeft (course others s n).2.source (course others s n).1 := stepsLeft_step hstop (found others s n)
      have hle := ih.resolve_left hstop
      exact .inr (by omega)

/-- Once the patience of a script is at its end, the receiver has stopped. -/
theorem course_fst {n : Nat} (hn : s.source.patience ≤ n) : (course others s n).1 = .stopped := by
  have hend : (course others s s.source.patience).1 = .stopped := by
    by_contra hne
    have hle := (stepsLeft_course s.source.patience).resolve_left hne
    cases hs : (course others s s.source.patience).1 with
    | stopped => exact hne hs
    | _ =>
      rw [hs] at hle
      simp only [stepsLeft] at hle
      omega
  exact (stopped_course hend hn).1

/-- **The accounts balance.** A run over a script of connections ends, whatever the store does and others do to it and
post about it, and whatever the policy, as long as nobody cancels the receiver. Then
1. there was at most one attempt to connect more than there are connections, and all but the first were counted as
   attempts to connect again;
2. as many connections were counted as were accepted of those used up, and each was closed;
3. as many events were counted as messages were handed out, which are items of the connections used up;
4. as many change sets were counted, as applied or as failed, as messages were answered with a change set, and as failed
   those that the intake did not accept. -/
theorem accounts_balance (settings : Settings) (site : Site σ) (announcing : Announcing) (cs : List ScriptConnection)
    (world : ω) (others : Others σ ω)
    (hc : ∀ n,
      (found others ⟨.ofIntake settings (.ofSite site announcing), Script.ofConnections cs, world⟩ n).receiver.cancelled =
        false)
    {n : Nat} (hn : (Script.ofConnections cs).patience ≤ n) :
    let start : Session σ Script ω := ⟨.ofIntake settings (.ofSite site announcing), .ofConnections cs, world⟩
    let source := (course others start n).2.source
    let tally := (course others start n).2.receiver.tally
    let log := journal others start n
    let used := cs.take source.selectors.length
    (course others start n).1 = .stopped ∧
      (source.selectors.length ≤ cs.length + 1 ∧ tally.reconnects + 1 = source.selectors.length) ∧
      (tally.connections = used.countP ScriptConnection.isAccepted ∧ tally.connections = source.closes) ∧
      (tally.events = log.messages.length ∧ log.handedOut.Sublist (used.flatMap ScriptConnection.items)) ∧
      tally.applied + tally.failed = log.completions ∧ tally.failed = log.verdicts.count false ∧
        log.verdicts.length = log.completions := by
  intro start source tally log used
  have hstop : (course others start n).1 = .stopped := course_fst hn
  -- Two invariants of the course, at its end: the journal follows the script, and the tally follows the journal.
  have hcourse : Followed cs (course others start n).1 source log := followed_course rfl n
  have hfollowed : Followed cs .stopped source log := hstop ▸ hcourse
  have hbalanced : Balanced .stopped (course others start n).2.receiver log := hstop ▸ balanced_course (s := start) rfl hc n
  obtain ⟨hagrees, hclosed, hattempts⟩ := hbalanced
  refine ⟨hstop, ⟨hfollowed.bound, hattempts.trans hfollowed.attempts⟩, ⟨hagrees.connections.trans hfollowed.accepted, ?_⟩,
    ⟨hagrees.events, ?_⟩, ?_, hagrees.failed, hagrees.completions.symm⟩
  · exact hagrees.connections.trans (hclosed.trans hfollowed.closes)
  · exact (List.sublist_append_left _ _).trans hfollowed.handedOut
  · calc tally.applied + tally.failed = log.verdicts.count true + log.verdicts.count false :=
          congrArg₂ (· + ·) hagrees.applied hagrees.failed
      _ = log.verdicts.length := List.count_true_add_count_false _
      _ = log.completions := hagrees.completions.symm

/-- The shared store can be reached again, which is posted. -/
def restoring : Interference (Layered (Attached (Guarded SharedMemory))) Unit where
  act _ r :=
    let reach (a : Attached (Guarded SharedMemory)) : Attached (Guarded SharedMemory) :=
      { a with shared := { a.shared with backend := a.shared.backend.setReachable true } }
    let store := { r.intake.site.store with beneath := r.intake.site.store.beneath.map reach }
    ((), ⟨store, (Board.post .recovered r.intake.site.board).2⟩, r.cancelled)
  later _ r := Board.later_post .recovered r.intake.site.board

/-- A connection that brings all data, an attempt that fails, and another connection that brings all data. -/
def dataTwice : List ScriptConnection :=
  [.accept ((Message.noData 1 "s").map .message), lost, .accept ((Message.noData 2 "t").map .message)]

/-- The shared store comes back after the first connection. -/
def restoredAfterFirst : Others (Layered (Attached (Guarded SharedMemory))) Unit :=
  fun n _ => if n = 11 then restoring else .idle

/-- A receiver whose shared store cannot be reached, and a script of connections. -/
def cutOffSession : Session (Layered (Attached (Guarded SharedMemory))) Script Unit :=
  ⟨.ofIntake .default (.ofSite (Settings.default.stores (some (SharedMemory.empty.setReachable false))) .off),
    .ofConnections dataTwice, ()⟩

theorem uncancelled_restored (n : Nat) : (found restoredAfterFirst cutOffSession n).receiver.cancelled = false := by
  have hothers (n : Nat) (stage : Stage) (s : Session (Layered (Attached (Guarded SharedMemory))) Script Unit) :
      (s.met (restoredAfterFirst n stage)).receiver.cancelled = s.receiver.cancelled := by
    rw [restoredAfterFirst]
    split <;> rfl
  induction n with
  | zero => exact hothers 0 _ _
  | succ n ih => exact (hothers (n + 1) _ _).trans ((terms_step _ _).2.trans ih)

/-- The change set of the first connection fails for the shared store, though memory takes it; the one of the third is
applied. Three attempts were made, and two connections opened and closed, with two messages each. -/
theorem accounts_balance_restored :
    let ended := course restoredAfterFirst cutOffSession 33
    let tally := ended.2.receiver.tally
    ended.1 = .stopped ∧ (ended.2.source.selectors.length = 3 ∧ tally.reconnects = 2) ∧
      (tally.connections = 2 ∧ ended.2.source.closes = 2) ∧ tally.events = 4 ∧ tally.applied = 1 ∧ tally.failed = 1 := by
  intro ended tally
  obtain ⟨hstop, ⟨-, hreconnects⟩, ⟨hconnections, hcloses⟩, ⟨hevents, -⟩, hsum, hfailed, -⟩ :=
    accounts_balance .default (Settings.default.stores (some (SharedMemory.empty.setReachable false))) .off dataTwice ()
      restoredAfterFirst uncancelled_restored (n := 33) (by decide)
  have hselectors : ended.2.source.selectors.length = 3 := rfl
  have hopened : tally.connections = 2 := hconnections
  have hcompletions : (journal restoredAfterFirst cutOffSession 33).completions = 2 := rfl
  have hone : tally.failed = 1 := hfailed
  have happlied : tally.applied + 1 = 2 := hone ▸ hsum
  exact ⟨hstop, ⟨hselectors, Nat.succ.inj hreconnects⟩, ⟨hopened, hcloses.symm.trans hopened⟩, hevents,
    Nat.succ.inj happlied, hone⟩

end Session

end FlagDelivery
