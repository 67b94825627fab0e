import FlagDelivery.Proofs.Receiver.Connections
import FlagDelivery.Proofs.Receiver.Course
import Mathlib.Data.List.DropRight

/-!
# Where a receiver resumes from

A receiver keeps no selector of its own but connects with that of its store. An `Exchange` is a message as the machine
of its connection met it; the exchanges of a run say what was delivered, and their token is the point that the last
completed payload led to. Over a store in memory the token is the store's selector at every moment, and what the store
holds is what the exchanges up to the completion of that payload delivered: `Session.resumption`.
-/

namespace FlagDelivery

/-- A message as the machine of its connection met it. -/
structure Exchange where
  machine : Machine
  message : Message

namespace Exchange

/-- What the machine answered. -/
def answer (e : Exchange) : Action := (e.machine.receive e.message).1

/-- The end of a payload, if that is what the message is, and it was answered with a change set. -/
def completed? (e : Exchange) : Option Transferred :=
  match Event.decode e.message, e.answer with
  | .ok (.transferred t), .deliver _ => some t
  | _, _ => none

/-- The exchange that an answer of a source leads to, if it brings a message. -/
def ofAnswer? (machine : Machine) : Except DeliveryError (Option Message) → Option Exchange
  | .ok (some message) => some ⟨machine, message⟩
  | .ok none | .error _ => none

/-- The batches that a receiver makes of what was delivered in exchanges. -/
def batches (settings : Settings) (log : List Exchange) : List Batch :=
  (log.filterMap fun e => e.answer.delivered?).map settings.batch

/-- The point that the last completed payload led to. -/
def token (log : List Exchange) : Selector :=
  match (log.filterMap completed?).getLast? with
  | some t => .point t.version t.state
  | none => .empty

/-- The exchanges up to the completion of the last payload. -/
def settled (log : List Exchange) : List Exchange := log.rdropWhile fun e => e.completed?.isNone

/-- What the end of a payload is answered with. -/
theorem answer_of_transferred {e : Exchange} {t : Transferred} (h : Event.decode e.message = .ok (.transferred t)) :
    e.answer = (e.machine.complete t).1 := by
  simp only [answer, Machine.receive, h]
  rfl

/-- A completed payload is delivered as a change set that leads to the point that its end names. -/
theorem delivered_of_completed {e : Exchange} {t : Transferred} (h : e.completed? = some t) :
    ∃ c, e.answer.delivered? = some c ∧ c.selector = .point t.version t.state ∧ c.extent ≠ .none := by
  unfold completed? at h
  split at h
  · next t' c hm ha =>
    obtain rfl := Option.some.inj h
    rw [answer_of_transferred hm] at ha ⊢
    cases hp : e.machine.phase with
    | inactive => simp [Machine.complete, hp] at ha
    | changes =>
      have hc : (e.machine.complete t').1 = .deliver ⟨.incremental, e.machine.buffer, .point t'.version t'.state⟩ := by
        simp [Machine.complete, hp]
      exact ⟨_, congrArg Action.delivered? hc, rfl, by simp⟩
    | full =>
      have hc : (e.machine.complete t').1 = .deliver ⟨.full, e.machine.buffer, .point t'.version t'.state⟩ := by
        simp [Machine.complete, hp]
      exact ⟨_, congrArg Action.delivered? hc, rfl, by simp⟩
  · cases h

/-- What is delivered otherwise says that there is nothing to change. -/
theorem delivered_of_not_completed {e : Exchange} (h : e.completed? = none) {c : ChangeSet}
    (hc : e.answer.delivered? = some c) :
    c = .upToDate := by
  obtain hup | ⟨t, hm, -, -⟩ := Machine.receive_deliver hc
  · exact hup
  · cases ha : e.answer with
    | deliver d => simp [completed?, hm, ha] at h
    | _ => simp [ha, Action.delivered?] at hc

/-! ## Logs that grow -/

variable (settings : Settings) (log : List Exchange) (e : Exchange)

/-- A further exchange adds the batch that it delivers, if any. -/
theorem batches_concat :
    batches settings (log ++ [e]) = batches settings log ++ e.answer.delivered?.toList.map settings.batch := by
  cases h : e.answer.delivered? <;> simp [batches, h]

/-- A further exchange that completes a payload decides the token. -/
theorem token_concat : token (log ++ [e]) = match e.completed? with
    | some t => .point t.version t.state
    | none => token log := by
  cases h : e.completed? <;> simp [token, h]

/-- With it all exchanges are settled; otherwise those that were remain. -/
theorem settled_concat : settled (log ++ [e]) = if e.completed?.isSome then log ++ [e] else settled log := by
  rw [settled, List.rdropWhile_concat]
  cases e.completed? <;> rfl

/-! ## What a memory holds -/

/-- That there is nothing to change changes nothing. -/
theorem apply_upToDate (m : Memory) : m.apply (settings.batch .upToDate) = m := rfl

/-- A memory has the selector of the last batch that brought data or changes. -/
theorem selector_apply (m : Memory) {b : Batch} (h : b.extent ≠ .none) : (m.apply b).selector = b.selector := by
  unfold Memory.apply
  split
  · rfl
  · rfl
  · next hb => exact absurd hb h

/-- An exchange that completes no payload adds nothing to a memory. -/
theorem applyAll_concat_of_not_completed {e : Exchange} (h : e.completed? = none) :
    Memory.empty.applyAll (batches settings (log ++ [e])) = Memory.empty.applyAll (batches settings log) := by
  rw [batches_concat, Memory.applyAll_append]
  cases hc : e.answer.delivered? with
  | none => rfl
  | some c =>
    obtain rfl := delivered_of_not_completed h hc
    exact apply_upToDate settings _

/-- What was delivered after the last payload was completed does not matter. -/
theorem applyAll_settled :
    Memory.empty.applyAll (batches settings log) = Memory.empty.applyAll (batches settings (settled log)) := by
  induction log using List.reverseRecOn with
  | nil => rfl
  | append_singleton log e ih =>
    rw [settled_concat]
    cases h : e.completed? with
    | some t => rfl
    | none => exact (applyAll_concat_of_not_completed settings log h).trans ih

/-- The selector of the memory is the token. -/
theorem selector_batches : (Memory.empty.applyAll (batches settings log)).selector = token log := by
  induction log using List.reverseRecOn with
  | nil => rfl
  | append_singleton log e ih =>
    rw [token_concat]
    cases h : e.completed? with
    | some t =>
      obtain ⟨c, hc, hs, he⟩ := delivered_of_completed h
      rw [batches_concat, Memory.applyAll_append, hc]
      exact (selector_apply _ he).trans hs
    | none =>
      rw [applyAll_concat_of_not_completed settings log h]
      exact ih

end Exchange

/-! ## Runs -/

namespace Receiver

/-- The store is a memory that nobody else touches, and holds what was delivered in exchanges. -/
structure Core.Holds {μ : Type} (settings : Settings) (log : List Exchange) (c : Core (Layered μ)) : Prop where
  settings_eq : c.settings = settings
  health : c.site.board.health = .good
  store : c.site.store = { Layered.memoryOnly with memory := Memory.empty.applyAll (Exchange.batches settings log) }

variable {μ : Type} [DataStore μ] {settings : Settings} {log : List Exchange}

/-- A message adds its exchange to what the store holds. -/
theorem holds_message {r : Receiver (Layered μ)} (h : r.core.Holds settings log) (applied : Bool) (msg : Message) :
    (received applied (.ok (some msg)) r).2.core.Holds settings (log ++ [⟨r.machine, msg⟩]) := by
  have hanswer : (⟨r.machine, msg⟩ : Exchange).answer = (r.machine.receive msg).1 := rfl
  rw [received_some, core_act]
  cases hd : (r.machine.receive msg).1.delivered? with
  | none =>
    have hsame : Exchange.batches settings (log ++ [⟨r.machine, msg⟩]) = Exchange.batches settings log := by
      simp [Exchange.batches_concat, hanswer, hd]
    refine ⟨h.settings_eq, h.health, ?_⟩
    rw [hsame]
    exact h.store
  | some c =>
    have hsettings : r.settings = settings := h.settings_eq
    have hstore : r.intake.site.store =
        { Layered.memoryOnly with memory := Memory.empty.applyAll (Exchange.batches settings log) } :=
      h.store
    have hbeneath : (r.afterMessage msg).intake.site.store.beneath = none := by
      have hsame : (r.afterMessage msg).intake.site.store = r.intake.site.store := rfl
      rw [hsame, hstore]
      rfl
    simp only [core_deliver hbeneath]
    refine ⟨h.settings_eq, h.health, ?_⟩
    rw [Exchange.batches_concat, hanswer, hd]
    simp [Layered.appliedToMemory, Layered.memoryOnly, Site.mapStore, Memory.applyAll_concat, hstore, hsettings,
      afterMessage, count]

/-- An answer to a wait keeps the memory at what was delivered, with its own exchange added. -/
theorem holds_received {r : Receiver (Layered μ)} (h : r.core.Holds settings log) (applied : Bool)
    (answer : Except DeliveryError (Option Message)) :
    (received applied answer r).2.core.Holds settings (log ++ (Exchange.ofAnswer? r.machine answer).toList) := by
  rcases answer with e | _ | msg
  · rw [(received_error applied e r).2]
    exact (List.append_nil log).symm ▸ h
  · rw [(received_none applied r).2]
    exact (List.append_nil log).symm ▸ h
  · exact holds_message h applied msg

end Receiver

namespace Session

variable {μ ς ω : Type} [Source ς] {settings : Settings} {log : List Exchange}

/-- The exchange that a step makes, if it brings a message. -/
def exchange? {σ : Type} (stage : Stage) (s : Session σ ς ω) : Option Exchange :=
  match stage with
  | .reading _ => Exchange.ofAnswer? s.receiver.machine (Source.next s.source).1
  | _ => none

/-- The exchanges made in so many steps. -/
def exchanges {σ : Type} [DataStore σ] (others : Others σ ω) (s : Session σ ς ω) (n : Nat) : List Exchange :=
  (List.range n).filterMap fun k => exchange? (course others s k).1 (course others s k).2

/-- A step adds the exchange it is, if it is one. -/
theorem exchanges_succ {σ : Type} [DataStore σ] (others : Others σ ω) (s : Session σ ς ω) (n : Nat) :
    exchanges others s (n + 1) = exchanges others s n ++ (exchange? (course others s n).1 (course others s n).2).toList := by
  rw [exchanges, List.range_succ, List.filterMap_append]
  cases h : exchange? (course others s n).1 (course others s n).2 <;> simp [exchanges, h]

variable [DataStore μ]

/-- Each step adds its exchange to what the store holds. -/
theorem holds_step (stage : Stage) {s : Session (Layered μ) ς ω} (h : s.receiver.core.Holds settings log) :
    (step alone stage s).2.receiver.core.Holds settings (log ++ (exchange? stage s).toList) := by
  have of_core {r : Receiver (Layered μ)} (hr : r.core = s.receiver.core) : r.core.Holds settings (log ++ []) := by
    rw [List.append_nil, hr]
    exact h
  -- Decisions take note of the board, of which nothing is claimed but its health.
  have of_noted (r : Receiver (Layered μ))
      (hr : r.core.settings = s.receiver.core.settings ∧ r.core.site = s.receiver.core.site) :
      r.core.Holds settings (log ++ []) := by
    rw [List.append_nil]
    exact ⟨hr.1.trans h.settings_eq, hr.2 ▸ h.health, hr.2 ▸ h.store⟩
  cases stage with
  | opening =>
    refine of_noted _ ?_
    rw [step_opening]
    rcases Receiver.dial_cases s.receiver with ⟨-, hc⟩ | ⟨resume, -, hc⟩ <;> exact hc ▸ ⟨rfl, rfl⟩
  | connecting resume => exact of_core (Receiver.connected_cases _ s.receiver).2
  | listening applied =>
    refine of_noted _ ?_
    rw [step_listening, Receiver.listen_apply]
    split
    · exact ⟨rfl, rfl⟩
    · split
      · exact ⟨rfl, rfl⟩
      · split <;> exact ⟨rfl, rfl⟩
  | reading applied => exact Receiver.holds_received h applied (Source.next s.source).1
  | closing again applied => exact of_core (Receiver.closed_cases again applied s.receiver).2
  | stopped => exact of_core rfl

/-- A receiver for a store in memory, whatever its source, which others may cancel before each step. -/
def inMemory {β : Type} (settings : Settings) (announcing : Announcing) (source : ς) (world : ω) :
    Session (Layered (Attached (Guarded β))) ς ω :=
  ⟨.ofIntake settings (.ofSite (settings.stores none) announcing), source, world⟩

variable {β : Type} [Backend β]

/-- The memory holds what was delivered all along a course in which nothing happens but that the receiver may be
cancelled. -/
theorem holds_course (settings : Settings) (announcing : Announcing) (source : ς) (world : ω) (cancel : Nat → Bool)
    (n : Nat) :
    let others : Others (Layered (Attached (Guarded β))) ω := fun n _ => .cancelling (cancel n)
    (course others (inMemory settings announcing source world) n).2.receiver.core.Holds settings
      (exchanges others (inMemory settings announcing source world) n) := by
  intro others
  induction n with
  | zero => exact ⟨rfl, rfl, rfl⟩
  | succ n ih =>
    have hmet : (found others (inMemory settings announcing source world) n).receiver.core.Holds settings
        (exchanges others (inMemory settings announcing source world) n) := ⟨ih.settings_eq, ih.health, ih.store⟩
    rw [exchanges_succ, course_succ]
    exact holds_step _ hmet

/-- **The token always matches the data**, for a receiver with a store in memory, whatever its source is and whenever it
is cancelled, in three parts.
1. What a connection is asked to resume from is the point that the last payload led to that was completed before, or the
   empty selector if there is none; and the store then is a memory to which exactly the batches were applied that were
   delivered up to the completion of that payload.
2. At every moment the store's selector is that point.
3. A step that does not bring the completion of a payload leaves the store as it is: an incomplete payload, a
   declaration that there is nothing to send, an error of the server, a connection that is refused or breaks. -/
theorem resumption (settings : Settings) (announcing : Announcing) (source : ς) (world : ω) (cancel : Nat → Bool) :
    let others : Others (Layered (Attached (Guarded β))) ω := fun n _ => .cancelling (cancel n)
    let start : Session (Layered (Attached (Guarded β))) ς ω := inMemory settings announcing source world
    let stage n := (course others start n).1
    let store n := (course others start n).2.receiver.intake.site.store
    let log n := exchanges others start n
    (∀ n resume, stage n = .connecting resume → resume = Exchange.token (log n) ∧
        store n = { Layered.memoryOnly with
          memory := Memory.empty.applyAll (Exchange.batches settings (Exchange.settled (log n))) }) ∧
      (∀ n, DataStore.selector (store n) = Exchange.token (log n)) ∧
      ∀ n, (∀ e, exchange? (stage n) (course others start n).2 = some e → e.completed? = none) →
        store (n + 1) = store n := by
  intro others start stage store log
  have hholds (n : Nat) : (course others start n).2.receiver.core.Holds settings (log n) :=
    holds_course settings announcing source world cancel n
  have hstore (n : Nat) :
      store n = { Layered.memoryOnly with memory := Memory.empty.applyAll (Exchange.batches settings (log n)) } :=
    (hholds n).store
  have hselector (n : Nat) : DataStore.selector (store n) = Exchange.token (log n) := by
    rw [hstore]
    exact Exchange.selector_batches settings (log n)
  refine ⟨?_, hselector, ?_⟩
  · intro n resume hn
    cases n with
    | zero => cases hn
    | succ n =>
      have hopening : stage n = .opening := (resume_of_step hn).1
      have hresume : resume = (found others start n).receiver.resumption := (resume_of_step hn).2
      have hsame : log (n + 1) = log n := by
        have hlog : log (n + 1) = log n ++ (exchange? (stage n) (course others start n).2).toList :=
          exchanges_succ others start n
        rw [hlog, hopening]
        exact List.append_nil _
      -- Nobody posts a need of a refresh, so the receiver resumes from what its store has.
      have hgood : (found others start n).board.health = .good := (hholds n).health
      have hbasis : (found others start n).receiver.resumption = DataStore.selector (store n) := by
        rw [Receiver.resumption, if_neg]
        · rfl
        · simp [hgood, Health.good]
      refine ⟨?_, ?_⟩
      · rw [hresume, hbasis, hselector, hsame]
      · rw [hstore, Exchange.applyAll_settled]
  · intro n hn
    have hlog : log (n + 1) = log n ++ (exchange? (stage n) (course others start n).2).toList :=
      exchanges_succ others start n
    rw [hstore, hstore, hlog]
    cases he : exchange? (stage n) (course others start n).2 with
    | none => rw [Option.toList_none, List.append_nil]
    | some e => rw [Option.toList_some, Exchange.applyAll_concat_of_not_completed settings (log n) (hn e he)]

/-- A flag that is put. -/
def flagPut : Message :=
  ⟨"put-object", .obj [("key", .str "a"), ("kind", .str "flag"), ("object", .obj []), ("version", .int 2)]⟩

/-- The session over a connection that brings all data and, before the server closes it, a part of what comes next. -/
def cutShort : Session (Layered (Attached (Guarded SharedMemory))) Script Unit :=
  inMemory .default .off (.ofConnections [.accept ((Message.noData 1 "s" ++ [flagPut]).map .message), .accept []]) ()

/-- Its course, with nobody to cancel it. -/
def cutShortCourse : Nat → Stage × Session (Layered (Attached (Guarded SharedMemory))) Script Unit :=
  course (fun _ _ => .cancelling false) cutShort

/-- The next connection resumes from the point of the data, and the store holds what was delivered with its completion;
the flag that was put after it has changed nothing. -/
theorem resumption_cutShort :
    let store n := (cutShortCourse n).2.receiver.intake.site.store
    let log n := exchanges (fun _ _ => .cancelling false) cutShort n
    ((cutShortCourse 12).1 = .connecting (.point 1 "s") ∧ Exchange.token (log 12) = .point 1 "s" ∧
        store 12 = { Layered.memoryOnly with
          memory := Memory.empty.applyAll (Exchange.batches .default (Exchange.settled (log 12))) }) ∧
      (Exchange.settled (log 12)).length = 2 ∧ (log 12).length = 3 ∧ store 8 = store 7 := by
  intro store log
  obtain ⟨hresume, -, hkept⟩ := @resumption Script Unit _ SharedMemory _ .default .off
    (.ofConnections [.accept ((Message.noData 1 "s" ++ [flagPut]).map .message), .accept []]) () fun _ => false
  have hconnecting : (cutShortCourse 12).1 = .connecting (.point 1 "s") := rfl
  obtain ⟨htoken, hstore⟩ := hresume 12 (.point 1 "s") hconnecting
  have hput : exchange? (cutShortCourse 7).1 (cutShortCourse 7).2 = some ⟨⟨.changes, []⟩, flagPut⟩ := rfl
  have hopen : ∀ e, exchange? (cutShortCourse 7).1 (cutShortCourse 7).2 = some e → e.completed? = none := by
    intro e he
    obtain rfl := Option.some.inj (hput.symm.trans he)
    rfl
  exact ⟨⟨hconnecting, htoken.symm, hstore⟩, rfl, rfl, hkept 7 hopen⟩

end Session

end FlagDelivery
