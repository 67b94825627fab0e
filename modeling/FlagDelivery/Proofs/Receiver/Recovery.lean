import FlagDelivery.Proofs.Intake.Applying
import FlagDelivery.Proofs.Receiver.Connections
import FlagDelivery.Proofs.Receiver.Course

/-!
# After an outage of the store

The end of an outage is posted on the board of the store. A receiver takes note of the board when it decides on a
connection and when it decides on the next message, and nothing that is posted in between escapes it: it never claims to
have seen more posts than there are, `Session.seen_le_posts`, and seeing them leaves the connection. `Session.recovery`
says what follows for the messages that are read and for the selectors that are connected with, wherever in a run the
posts are made.
-/

namespace FlagDelivery

namespace Stage

/-- The source was called and has not answered. -/
def IsWaiting : Stage → Prop
  | .connecting _ | .reading _ => True
  | _ => False

/-- A message is waited for. -/
def isReading : Stage → Bool
  | .reading _ => true
  | _ => false

end Stage

namespace Receiver

variable {σ : Type}

/-- With the end of an outage unseen on its board a receiver leaves the connection. -/
theorem listen_of_recovered (applied : Bool) {r : Receiver σ} (hposts : r.intake.site.board.posts ≠ r.seen)
    (hhealth : r.intake.site.board.health = .recovered) :
    (listen applied r).1 = .closing (!r.cancelled) applied ∧ (listen applied r).2.tally = r.tally := by
  rw [listen_apply]
  cases hc : r.cancelled <;> simp [hposts, hhealth, upToBoard]

/-- A connection that was opened has brought no message yet. -/
theorem events_of_connected {answer : Except DeliveryError Unit} {r : Receiver σ} {applied : Bool}
    (h : (connected answer r).1 = .listening applied) : (connected answer r).2.tally.events = r.tally.events := by
  cases answer with
  | ok u => rfl
  | error e => obtain ⟨hs | hs, -⟩ := connected_error e r <;> exact nomatch hs.symm.trans h

variable [DataStore σ]

/-- Delivering a change set brings no message. -/
theorem events_deliver (c : ChangeSet) (r : Receiver σ) : (deliver c r).2.tally.events = r.tally.events := by
  simp only [deliver, count, StoreM.bind_apply, StoreM.modify_apply, StoreM.get_apply, StoreM.pure_apply]
  split <;> rfl

theorem events_act (applied : Bool) (action : Action) (r : Receiver σ) :
    (act applied action r).2.tally.events = r.tally.events := by
  cases action with
  | deliver c => exact events_deliver c r
  | _ => rfl

/-- A connection that is read on after a wait has brought one message. -/
theorem events_of_received {applied applied' : Bool} {answer : Except DeliveryError (Option Message)} {r : Receiver σ}
    (h : (received applied answer r).1 = .listening applied') :
    (received applied answer r).2.tally.events = r.tally.events + 1 := by
  rcases answer with e | _ | msg
  · exact nomatch (received_error applied e r).1.symm.trans h
  · exact nomatch (received_none applied r).1.symm.trans h
  · exact events_act applied (r.machine.receive msg).1 (r.afterMessage msg)

/-- The answer to a wait leaves the store to itself, or a batch is handed to the intake. No note is taken of the board. -/
theorem site_received (applied : Bool) (answer : Except DeliveryError (Option Message)) (r : Receiver σ) :
    (received applied answer r).2.core.seen = r.core.seen ∧ ((received applied answer r).2.core.site = r.core.site ∨
      ∃ c, (received applied answer r).2.core.site = (Intake.apply (r.settings.batch c) r.intake).2.site) := by
  rcases answer with e | _ | msg
  · rw [(received_error applied e r).2]
    exact ⟨rfl, .inl rfl⟩
  · rw [(received_none applied r).2]
    exact ⟨rfl, .inl rfl⟩
  · rw [received_some, core_act]
    cases (r.machine.receive msg).1.delivered? with
    | some c => exact ⟨rfl, .inr ⟨c, rfl⟩⟩
    | none => exact ⟨rfl, .inl rfl⟩

/-- So the board is only posted on. -/
theorem later_received [Posting σ] (applied : Bool) (answer : Except DeliveryError (Option Message)) (r : Receiver σ) :
    (received applied answer r).2.core.seen = r.core.seen ∧
      r.core.site.board.Later (received applied answer r).2.core.site.board := by
  obtain ⟨hseen, hsite | ⟨c, hsite⟩⟩ := site_received applied answer r
  · exact ⟨hseen, hsite ▸ .refl _⟩
  · exact ⟨hseen, hsite ▸ Intake.later_apply (r.settings.batch c) r.intake⟩

end Receiver

namespace Session

variable {σ ς ω : Type} [DataStore σ] [Source ς] [Posting σ]

/-- Between two steps no post is taken for seen that was not made. -/
theorem seen_le_step (stage : Stage) (s : Session σ ς ω) (h : s.receiver.seen ≤ s.board.posts) :
    (step alone stage s).2.receiver.seen ≤ (step alone stage s).2.board.posts := by
  have of_core {r : Receiver σ} (hr : r.core = s.receiver.core) : r.seen ≤ r.intake.site.board.posts := by
    have hle : r.core.seen ≤ r.core.site.board.posts := hr ▸ h
    exact hle
  cases stage with
  | opening =>
    rw [step_opening, Receiver.dial_apply]
    split
    · exact h
    · split
      · exact Nat.le_refl _
      · split
        · exact Nat.le_refl _
        · exact of_core (Receiver.core_report .off none s.receiver)
  | connecting resume => exact of_core (Receiver.connected_cases _ s.receiver).2
  | listening applied =>
    rw [step_listening, Receiver.listen_apply]
    split
    · exact h
    · split
      · exact h
      · split <;> exact Nat.le_refl _
  | reading applied =>
    obtain ⟨hseen, hlater⟩ := Receiver.later_received applied (Source.next s.source).1 s.receiver
    exact Nat.le_trans (Nat.le_of_eq hseen) (Nat.le_trans h hlater.posts_le)
  | closing again applied => exact of_core (Receiver.closed_cases again applied s.receiver).2
  | stopped => exact h

/-! ## Waits -/

variable {stage : Stage}

omit [Posting σ] in
/-- What follows a wait is no wait. -/
theorem not_isWaiting_step (h : stage.IsWaiting) (s : Session σ ς ω) : ¬(step alone stage s).1.IsWaiting := by
  cases stage with
  | connecting resume =>
    have hcases := (Receiver.connected_cases (Source.connect resume s.source).1 s.receiver).1
    have hstep : (step alone (.connecting resume) s).1 =
        (Receiver.connected (Source.connect resume s.source).1 s.receiver).1 := rfl
    rw [hstep]
    rcases hcases with hs | hs | hs <;> exact hs ▸ id
  | reading applied =>
    have hcases := Receiver.received_cases applied (Source.next s.source).1 s.receiver
    have hstep :
        (step alone (.reading applied) s).1 = (Receiver.received applied (Source.next s.source).1 s.receiver).1 := rfl
    rw [hstep]
    rcases hcases with ⟨applied', hs⟩ | ⟨again, hs⟩ <;> exact hs ▸ id
  | _ => exact h.elim

/-- A wait takes no note of the board. -/
theorem seen_wait (h : stage.IsWaiting) (s : Session σ ς ω) : (step alone stage s).2.receiver.seen = s.receiver.seen := by
  cases stage with
  | connecting resume => exact congrArg Receiver.Core.seen (Receiver.connected_cases _ s.receiver).2
  | reading applied => exact (Receiver.later_received applied _ s.receiver).1
  | _ => exact h.elim

omit [Posting σ] in
/-- A wait after which the next message is decided on has brought a message, if that was waited for. -/
theorem events_wait (h : stage.IsWaiting) {s : Session σ ς ω} {applied : Bool}
    (hnext : (step alone stage s).1 = .listening applied) :
    (step alone stage s).2.receiver.tally.events = s.receiver.tally.events + if stage.isReading then 1 else 0 := by
  cases stage with
  | connecting resume => exact Receiver.events_of_connected hnext
  | reading applied' => exact Receiver.events_of_received hnext
  | _ => exact h.elim

/-! ## Checks -/

omit [Posting σ] in
/-- A check that finds the end of an outage on the board, unseen, ends the connection, from which no message is read any
more. -/
theorem step_of_recovered (applied : Bool) {s : Session σ ς ω} (hposts : s.receiver.seen < s.board.posts)
    (hhealth : s.board.health = .recovered) :
    (step alone (.listening applied) s).1 = .closing (!s.receiver.cancelled) applied ∧
      (step alone (.listening applied) s).2.receiver.tally = s.receiver.tally :=
  Receiver.listen_of_recovered applied (Nat.ne_of_gt hposts) hhealth

omit [Posting σ] in
/-- A connection that was closed is followed by another one or by none, and brings no more messages. -/
theorem step_closing_alone (again applied : Bool) (s : Session σ ς ω) :
    (step alone (.closing again applied) s).1 = (if again then .opening else .stopped) ∧
      (step alone (.closing again applied) s).2.receiver.tally = s.receiver.tally := by
  cases again <;> exact ⟨rfl, rfl⟩

/-! ## Runs -/

variable {others : Others σ ω} {s : Session σ ς ω}

/-- All along a course no post is taken for seen that was not made. -/
theorem seen_le_posts (n : Nat) : (course others s n).2.receiver.seen ≤ (course others s n).2.board.posts := by
  refine course_preserves (P := fun _ s => s.receiver.seen ≤ s.board.posts) (Nat.le_refl _) ?_ seen_le_step n
  intro i _ s h
  exact Nat.le_trans h (later_met i s).posts_le

/-- The end of an outage that is posted after some moment is unseen at the first check after that moment; up to this
check the connection brings no message but the one that is waited for at that moment. -/
theorem unseen_at_check {n k : Nat} {applied : Bool} (hk : n ≤ k)
    (hwait : ∀ i, n ≤ i → i < k → (course others s i).1.IsWaiting) (hcheck : (course others s k).1 = .listening applied)
    (h : (course others s n).2.board.Recovers (found others s k).board) :
    (found others s k).receiver.seen < (found others s k).board.posts ∧
      (course others s k).2.receiver.tally.events =
        (course others s n).2.receiver.tally.events + if (course others s n).1.isReading then 1 else 0 := by
  have hseen : (course others s n).2.receiver.seen < (found others s k).board.posts :=
    Nat.lt_of_le_of_lt (seen_le_posts n) h.posts_lt
  rcases Nat.eq_or_lt_of_le hk with rfl | hlt
  · refine ⟨hseen, ?_⟩
    rw [hcheck]
    rfl
  · have hfirst := hwait n (Nat.le_refl n) hlt
    -- A second wait would follow the first one.
    obtain rfl : n + 1 = k := by
      refine Nat.le_antisymm hlt (Nat.le_of_not_lt ?_)
      intro hgt
      exact not_isWaiting_step hfirst (found others s n) (hwait (n + 1) (Nat.le_succ n) hgt)
    have hstay : (course others s (n + 1)).2.receiver.seen = (course others s n).2.receiver.seen :=
      seen_wait hfirst (found others s n)
    exact ⟨hstay.symm ▸ hseen, events_wait hfirst hcheck⟩

/-- So the check leaves the connection, and no message is read before the next one is decided on. -/
theorem left_at_check {n k : Nat} {applied : Bool} (hk : n ≤ k)
    (hwait : ∀ i, n ≤ i → i < k → (course others s i).1.IsWaiting) (hcheck : (course others s k).1 = .listening applied)
    (h : (course others s n).2.board.Recovers (found others s k).board) :
    (course others s (k + 1)).1 = .closing (!(found others s k).receiver.cancelled) applied ∧
      (course others s (k + 2)).1 = (if (found others s k).receiver.cancelled then .stopped else .opening) ∧
      (course others s (k + 2)).2.receiver.tally.events =
        (course others s n).2.receiver.tally.events + if (course others s n).1.isReading then 1 else 0 := by
  obtain ⟨hseen, hevents⟩ := unseen_at_check hk hwait hcheck h
  obtain ⟨-, -, -, -, hhealth⟩ := h
  obtain ⟨hleft, htally⟩ := step_of_recovered applied hseen hhealth
  rw [← hcheck, ← course_succ] at hleft htally
  obtain ⟨hclosed, hkept⟩ := step_closing_alone (!(found others s k).receiver.cancelled) applied (found others s (k + 1))
  rw [← hleft, ← course_succ] at hclosed hkept
  refine ⟨hleft, ?_, ?_⟩
  · rw [hclosed]
    cases (found others s k).receiver.cancelled <;> rfl
  · rw [← hevents, hkept]
    exact congrArg Tally.events htally

/-- What holds at one moment and does not at a later one ends in between. -/
theorem exists_end {p : Nat → Bool} {n m : Nat} (h : n ≤ m) (hn : p n = true) (hm : p m = false) :
    ∃ j, n ≤ j ∧ j < m ∧ p j = true ∧ p (j + 1) = false := by
  induction h with
  | refl => exact absurd (hn.symm.trans hm) (by decide)
  | @step m h ih =>
    cases hlast : p m with
    | true => exact ⟨m, h, Nat.lt_succ_self m, hlast, hm⟩
    | false =>
      obtain ⟨j, hle, hlt, hj⟩ := ih hlast
      exact ⟨j, hle, Nat.lt_succ_of_lt hlt, hj⟩

/-- **The end of an outage calls for all data**, whatever the source is, whatever others do, and wherever in the course
of a run they or the store itself post on the board, in three parts.
1. A connection is asked for right after the receiver decided on it; the selector is the empty one if a refresh was
   needed then, and otherwise that of the store.
2. If the end of an outage is posted while a connection is open or being opened, and still to be read at the next check,
   then that check leaves the connection, before which no more than the message that was being waited for is read from
   it; and no message is read before another connection is decided on, unless the receiver stops.
3. So if a refresh is needed at some moment, a connection decided on later resumes from the empty selector, or the need
   was ended in between. -/
theorem recovery (others : Others σ ω) (s : Session σ ς ω) :
    let stage n := (course others s n).1
    let found n := found others s n
    let board n := (course others s n).2.board
    let events n := (course others s n).2.receiver.tally.events
    let refreshNeeded n := (found n).board.health.refreshNeeded
    (∀ n resume, stage (n + 1) = .connecting resume → stage n = .opening ∧
        resume = if refreshNeeded n then .empty else DataStore.selector (found n).receiver.intake.site.store) ∧
      (∀ n k applied, n ≤ k → (∀ i, n ≤ i → i < k → (stage i).IsWaiting) → stage k = .listening applied →
        (board n).Recovers (found k).board →
          stage (k + 1) = .closing (!(found k).receiver.cancelled) applied ∧
            stage (k + 2) = (if (found k).receiver.cancelled then .stopped else .opening) ∧
            events (k + 2) = events n + if (stage n).isReading then 1 else 0) ∧
      ∀ n m resume, n ≤ m → refreshNeeded n → stage (m + 1) = .connecting resume →
        resume = .empty ∨ ∃ j, n ≤ j ∧ j < m ∧ refreshNeeded j = true ∧ refreshNeeded (j + 1) = false := by
  intro stage found board events refreshNeeded
  have hresume (n : Nat) (resume : Selector) (h : stage (n + 1) = .connecting resume) : stage n = .opening ∧
      resume = if refreshNeeded n then .empty else DataStore.selector (found n).receiver.intake.site.store :=
    resume_of_step h
  refine ⟨hresume, fun n k applied => left_at_check, ?_⟩
  intro n m resume hm hneeded hnext
  cases hlast : refreshNeeded m with
  | true => exact .inl ((hresume m resume hnext).2.trans (if_pos hlast))
  | false => exact .inr (exists_end hm hneeded hlast)

/-- A connection that brings all data and a sign of life, and another one. -/
def dataThenSign : List ScriptConnection :=
  [.accept ((Message.noData 1 "s" ++ [(⟨"heartbeat", .null⟩ : Message)]).map .message), .accept []]

/-- The end of an outage is posted while the sign of life is waited for, and its need of a refresh may be ended again. -/
def postingRecovery {σ : Type} (ended : Bool) : Others σ Unit := fun n _ =>
  if n = 7 then .posting .recovered else if n = 9 ∧ ended then .posting .good else .idle

/-- The session over a shared store that reads these connections. -/
def dataThenSignSession : Session (Layered (Attached (Guarded SharedMemory))) Script Unit :=
  ⟨.ofIntake .default (.ofSite (Settings.default.stores (some .empty)) .off), .ofConnections dataThenSign, ()⟩

/-- The sign of life is the last message of its connection. The next one asks for all data, although the store has the
selector of the data it got; if the need of a refresh was ended by then, it resumes from there. -/
theorem recovery_dataThenSign :
    let stage ended n := (course (postingRecovery ended) dataThenSignSession n).1
    let events n := (course (postingRecovery false) dataThenSignSession n).2.receiver.tally.events
    let refreshNeeded ended n := (found (postingRecovery ended) dataThenSignSession n).board.health.refreshNeeded
    (stage false 7 = .reading true ∧ stage false 8 = .listening true ∧ stage false 9 = .closing true true ∧
        stage false 10 = .opening ∧ events 10 = events 7 + 1) ∧
      (stage false 11 = .connecting .empty ∧
        (found (postingRecovery false) dataThenSignSession 10).receiver.intake.selector = .point 1 "s" ∧
        Selector.empty = if refreshNeeded false 10 then .empty else .point 1 "s") ∧
      stage true 11 = .connecting (.point 1 "s") ∧
        ∃ j, 8 ≤ j ∧ j < 10 ∧ refreshNeeded true j = true ∧ refreshNeeded true (j + 1) = false := by
  intro stage events refreshNeeded
  obtain ⟨hresume, hleft, -⟩ := recovery (postingRecovery false) dataThenSignSession
  obtain ⟨-, -, hended⟩ := recovery (postingRecovery true) dataThenSignSession
  have hreading : stage false 7 = .reading true := rfl
  have hcheck : stage false 8 = .listening true := rfl
  have hrecovers : (course (postingRecovery false) dataThenSignSession 7).2.board.Recovers
      (found (postingRecovery false) dataThenSignSession 8).board :=
    ⟨_, .refl _, by decide, Board.later_post .recovered _, rfl⟩
  have hwait (i : Nat) (hi : 7 ≤ i) (hi' : i < 8) : (stage false i).IsWaiting := by
    obtain rfl : i = 7 := by omega
    exact hreading ▸ trivial
  obtain ⟨hclosing, hopening, hevents⟩ := hleft 7 8 true (by decide) hwait hcheck hrecovers
  have hconnecting : stage false 11 = .connecting .empty := rfl
  have hresumed : stage true 11 = .connecting (.point 1 "s") := rfl
  have hneeded : refreshNeeded true 8 = true := rfl
  refine ⟨⟨hreading, hcheck, hclosing, hopening, hevents⟩, ⟨hconnecting, rfl, (hresume 10 _ hconnecting).2⟩, hresumed, ?_⟩
  rcases hended 8 10 _ (by decide) hneeded hresumed with hempty | hend
  · cases hempty
  · exact hend

end Session

end FlagDelivery
