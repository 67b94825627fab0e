import FlagDelivery.Proofs.Transfer.Deliveries
import Mathlib.Data.List.DropRight

/-!
# What a machine remembers of its past

A machine is given messages and resets in any order. Its `Log` has an entry for each, with the answer. What the machine
holds follows from the log: the phase from the declarations since the last reset, the buffer from the items since the
last boundary, which is an entry that clears the buffer. `Machine.Remembers` says so and is kept by every input;
`Machine.answer_of_log` says what a message is answered with after any past.
-/

namespace FlagDelivery

/-- The code of the intent has a meaning here. -/
def Intent.isKnown : Intent → Bool
  | .upToDate | .full | .changes => true
  | .other _ => false

namespace Machine

/-- What a machine is given. -/
inductive Input where
  | message (msg : Message)
  | reset

/-- What a machine was given, and what it answered. -/
inductive Entry where
  | answered (msg : Message) (answer : Action)
  | reset

namespace Entry

/-- The entry is a reset. -/
def isReset : Entry → Bool
  | .reset => true
  | .answered _ _ => false

/-- The intent of a declaration whose first payload has a code with a meaning. -/
def intent? : Entry → Option Intent
  | .answered msg _ => match Event.decode msg with
    | .ok (.declare (d :: _)) => if d.intent.isKnown then some d.intent else none
    | _ => none
  | .reset => none

/-- The entry is the end of a payload that was answered with a change set. -/
def completes : Entry → Bool
  | .answered msg (.deliver _) => match Event.decode msg with
    | .ok (.transferred _) => true
    | _ => false
  | _ => false

/-- The entry is an error of the server. -/
def isFault : Entry → Bool
  | .answered msg _ => match Event.decode msg with
    | .ok (.fault _) => true
    | _ => false
  | .reset => false

/-- The change of an item that was put or deleted. -/
def change? : Entry → Option Change
  | .answered msg _ => msg.change?
  | .reset => none

/-- No item before the entry is in a change set after it. -/
def isBoundary (e : Entry) : Bool := e.isReset || e.intent?.isSome || e.completes || e.isFault

/-- Which messages are boundaries, by what is understood of them. -/
theorem isBoundary_answered (msg : Message) (answer : Action) :
    (answered msg answer).isBoundary = match Event.decode msg with
      | .ok (.declare (d :: _)) => d.intent.isKnown
      | .ok (.transferred _) => answer.delivered?.isSome
      | .ok (.fault _) => true
      | _ => false := by
  cases hm : Event.decode msg with
  | error e => cases answer <;> simp [isBoundary, isReset, intent?, completes, isFault, hm]
  | ok event =>
    cases event with
    | declare ds =>
      cases ds with
      | nil => cases answer <;> simp [isBoundary, isReset, intent?, completes, isFault, hm]
      | cons d ds =>
        cases hk : d.intent.isKnown <;> cases answer <;>
          simp [isBoundary, isReset, intent?, completes, isFault, hm, hk]
    | _ => cases answer <;> simp [isBoundary, isReset, intent?, completes, isFault, Action.delivered?, hm]

end Entry

/-- The entries of a machine's past, in order. The past begins with the creation of the machine. -/
abbrev Log := List Entry

namespace Log

/-- The entries after the last one with a property; all of them if there is none. -/
def since (p : Entry → Bool) (log : Log) : Log := log.rtakeWhile fun e => !p e

/-- The last intent declared since the last reset. -/
def intent? (log : Log) : Option Intent := ((log.since Entry.isReset).filterMap Entry.intent?).getLast?

/-- A payload was ended with a change set since the last declaration. -/
def isCompleted (log : Log) : Bool := (log.since fun e => e.intent?.isSome).any Entry.completes

/-- The changes of the items since the last boundary, each once and in order of arrival. -/
def pending (log : Log) : List Change := (log.since Entry.isBoundary).filterMap Entry.change?

/-- The extent of the payload in progress: it is all the data if that was what the last declaration since the last reset
said and no payload was ended with a change set since then. -/
def extent (log : Log) : Extent := if log.intent? = some .full ∧ log.isCompleted = false then .full else .incremental

/-- The phase that follows from the past. -/
def phase (log : Log) : Phase :=
  if log.intent? = none then .inactive else if log.extent = .full then .full else .changes

/-- An entry is one more since the last boundary, unless it is a boundary itself. -/
theorem since_concat (p : Entry → Bool) (log : Log) (e : Entry) :
    since p (log ++ [e]) = if p e then [] else since p log ++ [e] := by
  unfold since
  rw [List.rtakeWhile_concat]
  cases p e <;> rfl

/-- The last intent that was declared counts, unless a reset came after it. -/
theorem intent?_concat (log : Log) (e : Entry) :
    intent? (log ++ [e]) = if e.isReset then none else e.intent?.or log.intent? := by
  unfold intent?
  rw [since_concat]
  split
  · rfl
  · cases h : e.intent? <;> simp [h]

/-- A declaration begins another payload, which is not completed before its end. -/
theorem isCompleted_concat (log : Log) (e : Entry) :
    isCompleted (log ++ [e]) = if e.intent?.isSome then false else log.isCompleted || e.completes := by
  unfold isCompleted
  rw [since_concat]
  split
  · rfl
  · simp

/-- A change is one more pending one, unless its entry is a boundary. -/
theorem pending_concat (log : Log) (e : Entry) :
    pending (log ++ [e]) = if e.isBoundary then [] else log.pending ++ e.change?.toList := by
  unfold pending
  rw [since_concat]
  split
  · rfl
  · cases h : e.change? <;> simp [h]

/-- The payload in progress is all the data exactly if that was declared and none was completed since. -/
theorem extent_eq_full_iff (log : Log) : log.extent = .full ↔ log.intent? = some .full ∧ log.isCompleted = false := by
  unfold extent
  split <;> simp_all

/-- An entry that declares nothing and is not the end of a payload leaves the phase as it is. -/
theorem phase_concat_of_none {log : Log} {e : Entry} (hr : e.isReset = false) (hi : e.intent? = none)
    (hc : e.completes = false) : phase (log ++ [e]) = log.phase := by
  unfold phase
  simp [extent_eq_full_iff, intent?_concat, isCompleted_concat, hr, hi, hc]

/-- A declaration decides the phase. -/
theorem phase_concat_of_intent {log : Log} {e : Entry} (hr : e.isReset = false) {intent : Intent}
    (hi : e.intent? = some intent) :
    phase (log ++ [e]) = if intent = .full then .full else .changes := by
  unfold phase
  simp [extent_eq_full_iff, intent?_concat, isCompleted_concat, hr, hi]

/-- After the end of a payload there are changes to come, if anything was declared. -/
theorem phase_concat_of_completes {log : Log} {e : Entry} (hr : e.isReset = false) (hi : e.intent? = none)
    (hc : e.completes = true) (hlog : log.intent? ≠ none) : phase (log ++ [e]) = .changes := by
  unfold phase
  simp [extent_eq_full_iff, intent?_concat, isCompleted_concat, hr, hi, hc, hlog]

/-- The log leads to no phase exactly if it has no intent. -/
theorem phase_eq_inactive_iff (log : Log) : log.phase = .inactive ↔ log.intent? = none := by
  unfold phase
  split
  · simp_all
  · split <;> simp_all

end Log

/-- A machine with its log. -/
structure Logged where
  machine : Machine
  log : Log

namespace Logged

/-- A machine just created. -/
def initial : Logged := ⟨.initial, []⟩

/-- Gives the machine an input and notes the answer. -/
def give (l : Logged) : Input → Logged
  | .message msg => ⟨(l.machine.receive msg).2, l.log ++ [.answered msg (l.machine.receive msg).1]⟩
  | .reset => ⟨.initial, l.log ++ [.reset]⟩

/-- Gives inputs one after the other to a machine just created. -/
def run (inputs : List Input) : Logged := inputs.foldl give initial

end Logged

/-- What the machine holds is what follows from the log. -/
structure Remembers (m : Machine) (log : Log) : Prop where
  phase : m.phase = log.phase
  buffer : m.buffer = log.pending

variable {m : Machine} {log : Log}

theorem remembers_initial : Remembers .initial [] := ⟨rfl, rfl⟩

/-- After a reset nothing is left of the past. -/
theorem remembers_reset (log : Log) : Remembers .initial (log ++ [.reset]) := by
  refine ⟨?_, ?_⟩
  · exact ((Log.phase_eq_inactive_iff _).mpr (by simp [Log.intent?_concat, Entry.isReset])).symm
  · simp [Log.pending_concat, Entry.isBoundary, Entry.isReset, initial]

/-- An entry that is no boundary adds its change to what is held back, if it makes one. -/
theorem Remembers.concat (h : m.Remembers log) {e : Entry} (hb : e.isBoundary = false) :
    Remembers { m with buffer := m.buffer ++ e.change?.toList } (log ++ [e]) := by
  have hp := hb
  simp only [Entry.isBoundary, Bool.or_eq_false_iff, Option.isSome_eq_false_iff, Option.isNone_iff_eq_none] at hp
  obtain ⟨⟨⟨hr, hi⟩, hc⟩, -⟩ := hp
  refine ⟨?_, ?_⟩
  · rw [Log.phase_concat_of_none hr hi hc]
    exact h.phase
  · rw [Log.pending_concat, hb, h.buffer]
    rfl

/-- A message that is no boundary and makes no change leaves the machine as it is. -/
theorem Remembers.same (h : m.Remembers log) {e : Entry} (hb : e.isBoundary = false) (hc : e.change? = none) :
    m.Remembers (log ++ [e]) := by
  have hs := h.concat hb
  rwa [hc, Option.toList_none, List.append_nil] at hs

/-- An item is held back. -/
theorem Remembers.hold (h : m.Remembers log) {e : Entry} (hb : e.isBoundary = false) {c : Change} (hc : e.change? = some c) :
    (m.hold c).Remembers (log ++ [e]) := by
  have hs := h.concat hb
  rwa [hc] at hs

variable {msg : Message}

/-- An error of the server clears the buffer and nothing else. -/
theorem Remembers.fault (h : m.Remembers log) {f : Fault} (hm : Event.decode msg = .ok (.fault f)) (answer : Action) :
    Remembers { m with buffer := [] } (log ++ [.answered msg answer]) := by
  have hc : (Entry.answered msg answer).completes = false := by cases answer <;> simp [Entry.completes, hm]
  refine ⟨?_, ?_⟩
  · rw [Log.phase_concat_of_none rfl (by simp [Entry.intent?, hm]) hc]
    exact h.phase
  · simp [Log.pending_concat, Entry.isBoundary_answered, hm]

/-- A declaration decides the phase and clears the buffer. -/
theorem remembers_declared {d : Declaration} {ds : List Declaration} (hm : Event.decode msg = .ok (.declare (d :: ds)))
    (hk : d.intent.isKnown = true) (log : Log) (answer : Action) :
    Remembers ⟨if d.intent = .full then .full else .changes, []⟩ (log ++ [.answered msg answer]) := by
  have hi : (Entry.answered msg answer).intent? = some d.intent := by simp [Entry.intent?, hm, hk]
  refine ⟨?_, ?_⟩
  · rw [Log.phase_concat_of_intent rfl hi]
  · simp [Log.pending_concat, Entry.isBoundary_answered, hm, hk]

/-- The end of a payload that is answered with a change set leaves the phase of changes and an empty buffer. -/
theorem Remembers.completed (h : m.Remembers log) (hp : m.phase ≠ .inactive) {t : Transferred}
    (hm : Event.decode msg = .ok (.transferred t)) (c : ChangeSet) :
    Remembers ⟨.changes, []⟩ (log ++ [.answered msg (.deliver c)]) := by
  have hi : (Entry.answered msg (.deliver c)).intent? = none := by simp [Entry.intent?, hm]
  have hc : (Entry.answered msg (.deliver c)).completes = true := by simp [Entry.completes, hm]
  rw [h.phase, Ne, Log.phase_eq_inactive_iff] at hp
  refine ⟨?_, ?_⟩
  · rw [Log.phase_concat_of_completes rfl hi hc hp]
  · simp [Log.pending_concat, Entry.isBoundary, hc]

/-- A machine remembers every message. -/
theorem Remembers.receive (h : m.Remembers log) (msg : Message) :
    (m.receive msg).2.Remembers (log ++ [.answered msg (m.receive msg).1]) := by
  unfold Machine.receive
  -- Most messages leave phase and buffer alone, as the log says of an entry that is no boundary and bears no change.
  cases hm : Event.decode msg with
  | error e => exact h.same (by simp [Entry.isBoundary_answered, hm]) (by simp [Entry.change?, Message.change?, hm])
  | ok event =>
    simp only
    cases event with
    | declare ds =>
      cases ds with
      | nil => exact h.same (by simp [Entry.isBoundary_answered, hm]) (by simp [Entry.change?, Message.change?, hm])
      | cons d ds =>
        cases hi : d.intent with
        | upToDate =>
          have hd := remembers_declared hm (by simp [hi, Intent.isKnown]) log (.deliver .upToDate)
          simpa [handle, declare, hi] using hd
        | full =>
          have hd := remembers_declared hm (by simp [hi, Intent.isKnown]) log .proceed
          simpa [handle, declare, hi] using hd
        | changes =>
          have hd := remembers_declared hm (by simp [hi, Intent.isKnown]) log .proceed
          simpa [handle, declare, hi] using hd
        | other code =>
          simp only [handle, declare, hi]
          exact h.same (by simp [Entry.isBoundary_answered, Intent.isKnown, hm, hi])
            (by simp [Entry.change?, Message.change?, hm])
    | put p => exact h.hold (by simp [Entry.isBoundary_answered, hm]) (by simp [Entry.change?, Message.change?, hm])
    | delete d => exact h.hold (by simp [Entry.isBoundary_answered, hm]) (by simp [Entry.change?, Message.change?, hm])
    | transferred t =>
      cases hp : m.phase with
      | inactive =>
        simp only [handle, complete, hp]
        exact h.same (by simp [Entry.isBoundary_answered, Action.delivered?, hm])
          (by simp [Entry.change?, Message.change?, hm])
      | changes =>
        simp only [handle, complete, hp]
        exact h.completed (by simp [hp]) hm _
      | full =>
        simp only [handle, complete, hp]
        exact h.completed (by simp [hp]) hm _
    | fault f => exact h.fault hm _
    | goodbye g => exact h.same (by simp [Entry.isBoundary_answered, hm]) (by simp [Entry.change?, Message.change?, hm])
    | heartbeat => exact h.same (by simp [Entry.isBoundary_answered, hm]) (by simp [Entry.change?, Message.change?, hm])
    | unknown name => exact h.same (by simp [Entry.isBoundary_answered, hm]) (by simp [Entry.change?, Message.change?, hm])

/-- A machine remembers everything that it was given. -/
theorem remembers_run (inputs : List Input) : (Logged.run inputs).machine.Remembers (Logged.run inputs).log := by
  induction inputs using List.reverseRecOn with
  | nil => exact remembers_initial
  | append_singleton inputs input ih =>
    have hrun : Logged.run (inputs ++ [input]) = (Logged.run inputs).give input := by simp [Logged.run]
    rw [hrun]
    cases input with
    | message msg => exact ih.receive msg
    | reset => exact remembers_reset _

/-! ## Answers -/

/-- The end of a payload is answered by what was declared and what arrived since. -/
theorem Remembers.receive_transferred (h : m.Remembers log) {t : Transferred}
    (hm : Event.decode msg = .ok (.transferred t)) :
    m.receive msg =
      if log.intent? = none then (.refuse .notDeclared, m)
      else (.deliver ⟨log.extent, log.pending, .point t.version t.state⟩, ⟨.changes, []⟩) := by
  have hc : m.receive msg = m.complete t := by simp [Machine.receive, hm, handle]
  have hp := h.phase
  rw [hc, complete, h.buffer, hp, Log.phase]
  by_cases hi : log.intent? = none
  · simp [hi]
  · by_cases hf : log.intent? = some .full ∧ log.isCompleted = false
    · simp [Log.extent, hf]
    · simp [Log.extent, hi, hf]

/-- Besides the end of a payload only a declaration that there is nothing to send is answered with a change set. -/
theorem deliver_cases {c : ChangeSet} (h : (m.receive msg).1 = .deliver c) :
    (∃ t, Event.decode msg = .ok (.transferred t)) ∨
      ∃ d ds, Event.decode msg = .ok (.declare (d :: ds)) ∧ d.intent = .upToDate := by
  unfold receive at h
  cases hm : Event.decode msg with
  | error e => simp [hm] at h
  | ok event =>
    simp only [hm] at h
    cases event with
    | transferred t => exact .inl ⟨t, rfl⟩
    | declare ds =>
      cases ds with
      | nil => simp [handle, declare] at h
      | cons d ds => cases hi : d.intent <;> simp [handle, declare, hi] at h ⊢
    | _ => simp [handle] at h

/-- **What a machine answers follows from its past**, whatever messages and resets it was given before.
1. The end of a payload is answered with a change set exactly if something was declared since the last reset. Otherwise
   it is refused, and the machine stays as it is. The change set holds the changes of the items since the last boundary,
   each once and in order of arrival; its selector is the point that the message names; and it is full exactly if the
   last declaration since the reset was of a complete set of data and no payload was ended with a change set since.
2. A declaration that there is nothing to send is answered at once with the change set that says so.
3. No other message is answered with a change set. -/
theorem answer_of_log (inputs : List Input) (msg : Message) :
    let past := Logged.run inputs
    let answer := (past.machine.receive msg).1
    (∀ t, Event.decode msg = .ok (.transferred t) →
      ((∃ c, answer = .deliver c) ↔ past.log.intent?.isSome) ∧
        (past.log.intent? = none → answer = .refuse .notDeclared ∧ (past.machine.receive msg).2 = past.machine) ∧
        ∀ c, answer = .deliver c →
          c.changes = past.log.pending ∧ c.selector = .point t.version t.state ∧
            c.extent = past.log.extent) ∧
      (∀ d ds, Event.decode msg = .ok (.declare (d :: ds)) → d.intent = .upToDate → answer = .deliver .upToDate) ∧
      ∀ c, answer = .deliver c →
        (∃ t, Event.decode msg = .ok (.transferred t)) ∨
          ∃ d ds, Event.decode msg = .ok (.declare (d :: ds)) ∧ d.intent = .upToDate := by
  intro past answer
  refine ⟨?_, ?_, fun c hc => deliver_cases hc⟩
  · intro t hm
    have h := (remembers_run inputs).receive_transferred hm
    by_cases hi : past.log.intent? = none
    · have hr := h.trans (if_pos hi)
      have ha : answer = .refuse .notDeclared := congrArg Prod.fst hr
      refine ⟨by simp [ha, hi], fun _ => ⟨ha, congrArg Prod.snd hr⟩, ?_⟩
      intro c hc
      rw [ha] at hc
      cases hc
    · have ha : answer = _ := congrArg Prod.fst (h.trans (if_neg hi))
      refine ⟨by simp [ha, Option.isSome_iff_ne_none, hi], fun hn => absurd hn hi, ?_⟩
      intro c hc
      obtain rfl := Action.deliver.inj (ha.symm.trans hc)
      exact ⟨rfl, rfl, rfl⟩
  · intro d ds hm hi
    simp [answer, receive, hm, handle, declare, hi]

end Machine

end FlagDelivery
