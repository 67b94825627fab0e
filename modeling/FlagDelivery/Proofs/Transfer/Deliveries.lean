import FlagDelivery.Source.Script
import FlagDelivery.Transfer.Machine

/-!
# What a machine delivers

`Machine.delivered` collects the change sets that a machine gives out for a list of messages, and
`ScriptConnection.delivered` those of a whole connection, followed by a machine of its own up to the message or the
failure that ends it. `Machine.delivered_whole` says that a change set is either the one without changes or was closed
by the end of a payload, and then holds only changes that were buffered before it.
-/

namespace FlagDelivery

namespace Action

/-- The change set that is to be applied, if there is one. -/
def delivered? : Action → Option ChangeSet
  | .deliver c => some c
  | _ => none

/-- The connection is left: the server said goodbye, or the event could not be followed. -/
def ends : Action → Bool
  | .goodbye _ | .refuse _ => true
  | _ => false

end Action

/-- The change that a message makes to an item, if it is understood and makes one. -/
def Message.change? (msg : Message) : Option Change :=
  match Event.decode msg with
  | .ok (.put p) => some (Machine.ofPut p)
  | .ok (.delete d) => some (Machine.ofDelete d)
  | _ => none

namespace Machine

/-- The change sets given out for messages, in order. -/
def delivered (m : Machine) (msgs : List Message) : List ChangeSet := (m.receiveAll msgs).1.filterMap Action.delivered?

/-- The messages of a connection's items that are followed: up to the first that ends the connection or the first
failure. -/
def followed (m : Machine) : List ScriptItem → List Message
  | .message msg :: items => msg :: if (m.receive msg).1.ends then [] else (m.receive msg).2.followed items
  | .failure _ :: _ => []
  | [] => []

theorem delivered_nil (m : Machine) : m.delivered [] = [] := rfl

theorem delivered_cons (m : Machine) (msg : Message) (msgs : List Message) :
    m.delivered (msg :: msgs) = (m.receive msg).1.delivered?.toList ++ (m.receive msg).2.delivered msgs := by
  unfold delivered
  cases h : (m.receive msg).1.delivered? <;> simp [receiveAll, h]

/-! ## Change sets are whole -/

/-- What a machine holds back after a message was held back before, or is the change of the message. -/
theorem buffer_receive (m : Machine) (msg : Message) :
    (m.receive msg).2.buffer.Sublist (m.buffer ++ msg.change?.toList) := by
  unfold receive Message.change?
  cases Event.decode msg with
  | error e => simp
  | ok event =>
    cases event with
    | declare ds =>
      cases ds with
      | nil => simp [handle, declare]
      | cons d ds => cases hi : d.intent <;> simp [handle, declare, hi]
    | transferred t => cases hp : m.phase <;> simp [handle, complete, hp]
    | _ => simp [handle, hold]

/-- A change set answered to a message says that there is nothing to change, or the message is the end of a payload and
the changes are those held back. -/
theorem receive_deliver {m : Machine} {msg : Message} {d : ChangeSet} (h : (m.receive msg).1.delivered? = some d) :
    d = .upToDate ∨
      ∃ t, Event.decode msg = .ok (.transferred t) ∧ d.selector = .point t.version t.state ∧ d.changes = m.buffer := by
  unfold receive at h
  cases hm : Event.decode msg with
  | error e => simp [hm, Action.delivered?] at h
  | ok event =>
    simp only [hm] at h
    cases event with
    | declare ds =>
      cases ds with
      | nil => simp [handle, declare, Action.delivered?] at h
      | cons d ds =>
        cases hi : d.intent <;> simp [handle, declare, hi, Action.delivered?] at h
        exact .inl h.symm
    | transferred t =>
      cases hp : m.phase <;> simp [handle, complete, hp, Action.delivered?] at h
      all_goals exact .inr ⟨t, rfl, by simp [← h]⟩
    | _ => simp [handle, Action.delivered?] at h

/-- Every change set is whole: it says that there is nothing to change, or it was closed by the end of a payload, whose
point it leads to, and each of its changes was held back at the start or is the change of a message before that end. -/
theorem delivered_whole (m : Machine) (msgs : List Message) {d : ChangeSet} (h : d ∈ m.delivered msgs) :
    d = .upToDate ∨
      ∃ before msg t after, msgs = before ++ msg :: after ∧ Event.decode msg = .ok (.transferred t) ∧
        d.selector = .point t.version t.state ∧ d.changes.Sublist (m.buffer ++ before.filterMap Message.change?) := by
  induction msgs generalizing m with
  | nil => simp [delivered_nil] at h
  | cons msg msgs ih =>
    rw [delivered_cons, List.mem_append, Option.mem_toList] at h
    rcases h with h | h
    · refine (receive_deliver h).imp_right ?_
      rintro ⟨t, ht, hs, hc⟩
      exact ⟨[], msg, t, msgs, rfl, ht, hs, by simp [hc]⟩
    · refine (ih _ h).imp_right ?_
      rintro ⟨before, msg', t, after, rfl, ht, hs, hc⟩
      refine ⟨msg :: before, msg', t, after, rfl, ht, hs, hc.trans ?_⟩
      have hb := (m.buffer_receive msg).append_right (before.filterMap Message.change?)
      cases hd : msg.change? <;> simpa [hd] using hb

end Machine

namespace ScriptConnection

/-- The messages of a connection that are followed by a machine of its own. -/
def heard (c : ScriptConnection) : List Message := Machine.initial.followed c.items

/-- The change sets of a connection that is followed by a machine of its own. -/
def delivered (c : ScriptConnection) : List ChangeSet := Machine.initial.delivered c.heard

end ScriptConnection

end FlagDelivery
