import FlagDelivery.Item.Batching
import Mathlib.Data.List.DropRight

/-!
# Feeds in step with machines

A feed hands its machine fewer events than a connection does: it drops items while no payload is declared, and it resets
the machine where the payload in progress can no longer be reported. So the machine of a feed and one that saw every
message differ for stretches of a run. `Feed.InStep` says what they share at any moment: which declaration is in force
follows from the messages alone, and while one is in force the two machines are equal. `Feed.reports_iff_delivers`
compares what the two give out, message by message.
-/

namespace FlagDelivery

/-! ## Declarations in force -/

/-- A declaration that a feed takes up: its code has a meaning, and one with nothing to send has an id and a target. -/
def Declaration.counts (d : Declaration) : Bool :=
  match d.intent with
  | .full | .changes => true
  | .upToDate => d.id ≠ "" ∧ d.target ≠ 0
  | .other _ => false

/-- The first entry of a declaration, if it counts. -/
def Event.declared? : Event → Option Declaration
  | .declare (d :: _) => if d.counts then some d else none
  | _ => none

/-- The event ends what was declared: a farewell, or a declaration that does not count. -/
def Event.revokes : Event → Bool
  | .goodbye _ => true
  | .declare ds => (declare ds).declared?.isNone
  | _ => false

namespace Message

/-- The declaration of a message that is understood, if it counts. -/
def declared? (msg : Message) : Option Declaration :=
  match Event.decode msg with
  | .ok event => event.declared?
  | .error _ => none

/-- The message ends what was declared; the end of a payload does so too when it is not understood. -/
def revokes (msg : Message) : Bool :=
  match Event.decode msg with
  | .ok event => event.revokes
  | .error _ => msg.event = "payload-transferred"

/-- The declaration in force after a message, given the one before it. -/
def standing (msg : Message) (before : Option Declaration) : Option Declaration :=
  if msg.declared?.isSome then msg.declared? else if msg.revokes then none else before

end Message

namespace History

/-- The last declaration that counts. -/
def declared? (history : List Message) : Option Declaration := (history.filterMap Message.declared?).getLast?

/-- The messages after the last declaration that counts; all of them if there is none. -/
def sinceDeclared (history : List Message) : List Message := history.rtakeWhile fun msg => msg.declared?.isNone

/-- The declaration in force: the last one that counts, unless it was revoked since. -/
def standing? (history : List Message) : Option Declaration :=
  if (sinceDeclared history).any Message.revokes then none else declared? history

/-- The last message that declares something counts. -/
theorem declared?_concat (history : List Message) (msg : Message) :
    declared? (history ++ [msg]) = msg.declared?.or (declared? history) := by
  unfold declared?
  cases h : msg.declared? with
  | none => simp [h]
  | some d => simp [h]

/-- A declaration leaves no message since the last one. -/
theorem sinceDeclared_concat (history : List Message) (msg : Message) :
    sinceDeclared (history ++ [msg]) = if msg.declared?.isNone then sinceDeclared history ++ [msg] else [] := by
  unfold sinceDeclared
  rw [List.rtakeWhile_concat]

/-- What stands after one more message follows from what stood before it. -/
theorem standing?_concat (history : List Message) (msg : Message) :
    standing? (history ++ [msg]) = msg.standing (standing? history) := by
  unfold standing? Message.standing
  rw [sinceDeclared_concat, declared?_concat]
  cases h : msg.declared? with
  | some d => simp
  | none =>
    cases hr : msg.revokes with
    | true => simp [hr]
    | false => simp [hr]

end History

namespace Feed

/-! ## Batches -/

/-- Takes batches one after the other; gives what is reported in each. -/
def receiveBatches (feed : Feed) : List (List Message) → List (List Notice) × Feed
  | [] => ([], feed)
  | batch :: batches =>
    let (notices, feed) := feed.receiveAll batch
    let (reports, feed) := feed.receiveBatches batches
    (notices :: reports, feed)

/-- How messages are divided into batches makes no difference to the feed. -/
theorem receiveBatches_snd (feed : Feed) (batches : List (List Message)) :
    (feed.receiveBatches batches).2 = (feed.receiveAll batches.flatten).2 := by
  induction batches generalizing feed with
  | nil => rfl
  | cons batch batches ih =>
    simp only [receiveBatches, List.flatten_cons]
    rw [ih, receiveAll_append]

/-! ## In step -/

/-- What a feed and a machine have in common after the same messages: the feed knows the declaration in force, and has the
machine's state while there is one. -/
structure InStep (standing : Option Declaration) (feed : Feed) (m : Machine) : Prop where
  declared : feed.declared = standing.map .ofDeclaration
  machine : feed.declared.isSome → feed.machine = m

/-- With nothing in force a feed is in step with every machine. -/
theorem InStep.none {feed : Feed} (h : feed.declared = .none) (m : Machine) : InStep .none feed m :=
  ⟨h, by simp [h]⟩

variable {standing : Option Declaration} {feed : Feed} {m : Machine}

/-- A declaration puts the machine of a feed back in step, if it counts, and leaves nothing in force otherwise. -/
theorem inStep_take_declare (feed : Feed) (m : Machine) (ds : List Declaration) :
    InStep (Event.declare ds).declared? (feed.take (.declare ds)).2 (m.handle (.declare ds)).2 := by
  cases ds with
  | nil => exact InStep.none rfl _
  | cons d ds =>
    obtain ⟨id, target, intent, reason⟩ := d
    cases intent with
    | full => exact ⟨rfl, fun _ => rfl⟩
    | changes => exact ⟨rfl, fun _ => rfl⟩
    | other code => exact InStep.none rfl _
    | upToDate =>
      by_cases hc : id = "" ∨ target = 0
      · have hn : ¬(id ≠ "" ∧ target ≠ 0) := by tauto
        simp only [Event.declared?, Declaration.counts, decide_eq_false hn]
        refine InStep.none ?_ _
        simp [take, follow, Machine.handle, Machine.declare, deliver, ChangeSet.upToDate, Declared.ofDeclaration, hc]
      · have hn : id ≠ "" ∧ target ≠ 0 := not_or.mp hc
        simp only [Event.declared?, Declaration.counts, decide_eq_true hn]
        simp only [take, follow, Machine.handle, Machine.declare, deliver, ChangeSet.upToDate, Declared.ofDeclaration,
          List.head?_cons, Option.map_some, if_true, if_neg hc]
        exact ⟨rfl, fun _ => rfl⟩

/-- While nothing is in force, only a declaration puts something in force. -/
theorem declared_take_of_none {feed : Feed} (h : feed.declared = .none) {event : Event} (hd : ∀ ds, event ≠ .declare ds) :
    (feed.take event).2.declared = .none := by
  cases event with
  | declare ds => exact absurd rfl (hd ds)
  | put p => simp [take, h]
  | delete d => simp [take, h]
  | transferred t => simp [take, h, initial]
  | fault f => exact h
  | goodbye g => rfl
  | heartbeat => exact h
  | unknown name => exact h

/-- While a declaration is in force, a feed follows its machine through every event that neither declares nor revokes. -/
theorem take_of_some (m : Machine) (d : Declared) {event : Event} (hd : ∀ ds, event ≠ .declare ds)
    (hr : event.revokes = false) : (take ⟨m, some d⟩ event).2 = ⟨(m.handle event).2, some d⟩ := by
  cases event with
  | declare ds => exact absurd rfl (hd ds)
  | goodbye g => simp [Event.revokes] at hr
  | put p => rfl
  | delete d => rfl
  | fault f => rfl
  | heartbeat => rfl
  | unknown name => rfl
  | transferred t =>
    obtain ⟨phase, buffer⟩ := m
    cases phase <;> rfl

/-- After an event that revokes, nothing is in force. -/
theorem declared_take_of_revokes (feed : Feed) {event : Event} (hd : ∀ ds, event ≠ .declare ds) (hr : event.revokes = true) :
    (feed.take event).2.declared = .none := by
  cases event with
  | declare ds => exact absurd rfl (hd ds)
  | goodbye g => rfl
  | _ => simp [Event.revokes] at hr

/-- Only a declaration declares anything. -/
theorem declared?_of_not_declare {event : Event} (hd : ∀ ds, event ≠ .declare ds) : event.declared? = .none := by
  cases event with
  | declare ds => exact absurd rfl (hd ds)
  | _ => rfl

/-- An event that is no declaration leaves a feed in step; nothing is in force after it if it revokes. -/
theorem InStep.take (h : InStep standing feed m) {event : Event} (hd : ∀ ds, event ≠ .declare ds) :
    InStep (if event.revokes then .none else standing) (feed.take event).2 (m.handle event).2 := by
  cases hr : event.revokes with
  | true => exact InStep.none (declared_take_of_revokes feed hd hr) _
  | false =>
    obtain ⟨machine, declared⟩ := feed
    cases hs : standing with
    | none =>
      have hn : declared = .none := by simpa [hs] using h.declared
      exact InStep.none (declared_take_of_none hn hd) _
    | some d =>
      have hn : declared = some (.ofDeclaration d) := by simpa [hs] using h.declared
      subst hn
      obtain rfl : machine = m := h.machine rfl
      rw [take_of_some _ _ hd hr]
      exact ⟨rfl, fun _ => rfl⟩

/-- A message leaves a feed in step, whatever it is. -/
theorem InStep.receive (h : InStep standing feed m) (msg : Message) :
    InStep (msg.standing standing) (feed.receive msg).2 (m.receive msg).2 := by
  unfold Message.standing Message.declared? Message.revokes Feed.receive Machine.receive
  cases hm : Event.decode msg with
  | error e =>
    by_cases ht : msg.event = "payload-transferred"
    · simp only [ht, if_true]
      exact InStep.none rfl _
    · simpa [ht] using h
  | ok event =>
    by_cases hd : ∃ ds, event = .declare ds
    · obtain ⟨ds, rfl⟩ := hd
      have hs := inStep_take_declare feed m ds
      cases hc : (Event.declare ds).declared? with
      | none => simpa [Event.revokes, hc] using hc ▸ hs
      | some d => simpa [hc] using hc ▸ hs
    · have hd : ∀ ds, event ≠ .declare ds := not_exists.mp hd
      simpa [declared?_of_not_declare hd] using h.take hd

/-- After the same messages a feed and a machine are in step. -/
theorem inStep_receiveAll (msgs : List Message) :
    InStep (History.standing? msgs) (initial.receiveAll msgs).2 (Machine.initial.receiveAll msgs).2 := by
  induction msgs using List.reverseRecOn with
  | nil => exact InStep.none rfl _
  | append_singleton msgs msg ih =>
    rw [receiveAll_append, Machine.receiveAll_append, History.standing?_concat]
    exact ih.receive msg

/-! ## What is given out -/

/-- A machine that a message leaves active was active before, unless the message declares something; then the declaration
counts or revokes. -/
theorem isActive_receive {m : Machine} {msg : Message} (h : (m.receive msg).2.phase ≠ .inactive) :
    m.phase ≠ .inactive ∨ msg.declared?.isSome ∨ msg.revokes := by
  unfold Message.declared? Message.revokes
  unfold Machine.receive at h
  cases hm : Event.decode msg with
  | error e => simp_all
  | ok event =>
    simp only [hm] at h ⊢
    cases event with
    | declare ds =>
      right
      cases hc : (Event.declare ds).declared? with
      | none => simp [Event.revokes, hc]
      | some d => simp
    | transferred t =>
      left
      intro hp
      simp [Machine.handle, Machine.complete, hp] at h
    | _ => exact .inl h

/-- A machine is active with nothing in force only where a declaration was revoked or did not count. -/
theorem revoked_of_isActive (msgs : List Message) (h : (Machine.initial.receiveAll msgs).2.phase ≠ .inactive) :
    (History.standing? msgs).isSome ∨ (History.sinceDeclared msgs).any Message.revokes := by
  induction msgs using List.reverseRecOn with
  | nil => exact absurd rfl h
  | append_singleton msgs msg ih =>
    rw [Machine.receiveAll_append] at h
    rw [History.standing?_concat, History.sinceDeclared_concat, Message.standing]
    cases hd : msg.declared? with
    | some d => simp
    | none =>
      cases hr : msg.revokes with
      | true => simp [hr]
      | false =>
        have ha := (isActive_receive h).resolve_right (by simp [hd, hr])
        simpa [hr] using ih ha

/-- A payload is reported only of a declaration, or of the end of a payload that was declared. -/
theorem payload_take {feed : Feed} {event : Event} {p : Payload} (h : (feed.take event).1 = some (.payload p)) :
    (∃ ds, event = .declare ds) ∨ ∃ t d, event = .transferred t ∧ feed.declared = some d := by
  cases event with
  | declare ds => exact .inl ⟨ds, rfl⟩
  | transferred t =>
    cases hd : feed.declared with
    | none => simp [take, hd] at h
    | some d => exact .inr ⟨t, d, rfl, rfl⟩
  | put p => cases hd : feed.declared <;> simp [take, follow, Machine.handle, hd] at h
  | delete d => cases hd : feed.declared <;> simp [take, follow, Machine.handle, hd] at h
  | fault f => simp [take, follow, Machine.handle] at h
  | goodbye g => simp [take, follow, Machine.handle] at h
  | heartbeat => simp [take, follow, Machine.handle] at h
  | unknown name => simp [take] at h

/-- A change set that ends a payload is read back from the payload reported for it. -/
theorem ofPayload_payloadOf (d : Declared) {extent : Extent} (he : extent ≠ .none) (changes : List Change) (version : Int)
    (state : String) :
    ChangeSet.ofPayload (payloadOf d ⟨extent, changes, .point version state⟩) = ⟨extent, changes, .point version state⟩ := by
  have hc : (changes.map Update.ofChange).map Update.toChange = changes := by
    rw [List.map_map]
    exact List.map_id'' Update.toChange_ofChange changes
  cases extent with
  | none => exact absurd rfl he
  | full => simp [payloadOf, ChangeSet.ofPayload, Selector.version, Selector.state, hc]
  | incremental => simp [payloadOf, ChangeSet.ofPayload, Selector.version, Selector.state, hc]

/-- The end of a declared payload is reported exactly where the machine delivers it. -/
theorem take_transferred (m : Machine) (d : Declared) (t : Transferred) :
    (∃ r, (m.handle (.transferred t)).1 = .refuse r ∧ ∀ p, (take ⟨m, some d⟩ (.transferred t)).1 ≠ some (.payload p)) ∨
      ∃ c, (m.handle (.transferred t)).1 = .deliver c ∧
        (take ⟨m, some d⟩ (.transferred t)).1 = some (.payload (payloadOf d c)) ∧
          ChangeSet.ofPayload (payloadOf d c) = c := by
  obtain ⟨phase, buffer⟩ := m
  cases phase with
  | inactive => exact .inl ⟨_, rfl, nofun⟩
  | changes => exact .inr ⟨_, rfl, rfl, ofPayload_payloadOf d (by decide) _ _ _⟩
  | full => exact .inr ⟨_, rfl, rfl, ofPayload_payloadOf d (by decide) _ _ _⟩

/-- A declaration is reported as a payload exactly if it says that there is nothing to send and counts. -/
theorem take_declare (feed : Feed) (m : Machine) (ds : List Declaration) :
    (∃ d ds', ds = d :: ds' ∧ d.intent = .upToDate ∧ d.counts ∧
        (feed.take (.declare ds)).1 = some (.payload ⟨d.id, d.target, .none, false, []⟩) ∧
        (m.handle (.declare ds)).1 = .deliver .upToDate) ∨
      (∀ p, (feed.take (.declare ds)).1 ≠ some (.payload p)) ∧
        ∀ c, (m.handle (.declare ds)).1 = .deliver c →
          ∃ d ds', ds = d :: ds' ∧ d.intent = .upToDate ∧ (d.id = "" ∨ d.target = 0) := by
  cases ds with
  | nil => exact .inr ⟨nofun, nofun⟩
  | cons d ds =>
    obtain ⟨id, target, intent, reason⟩ := d
    cases intent with
    | full => exact .inr ⟨nofun, nofun⟩
    | changes => exact .inr ⟨nofun, nofun⟩
    | other code => exact .inr ⟨nofun, nofun⟩
    | upToDate =>
      by_cases hc : id = "" ∨ target = 0
      · refine .inr ⟨?_, fun _ _ => ⟨_, ds, rfl, rfl, hc⟩⟩
        simp [take, follow, Machine.handle, Machine.declare, deliver, ChangeSet.upToDate, Declared.ofDeclaration, hc]
      · refine .inl ⟨_, ds, rfl, rfl, ?_, ?_, rfl⟩
        · simpa [Declaration.counts] using hc
        · simp [take, follow, Machine.handle, Machine.declare, deliver, ChangeSet.upToDate, Declared.ofDeclaration, hc]

/-- What a feed reports of a message is what the machine delivers, under the declaration in force after it. -/
theorem InStep.deliver_of_payload (h : InStep standing feed m) {msg : Message} {p : Payload}
    (hp : (feed.receive msg).1 = some (.payload p)) :
    (m.receive msg).1 = .deliver (.ofPayload p) ∧ (msg.standing standing).map (·.id) = some p.id := by
  unfold Message.standing Message.declared? Message.revokes
  unfold Feed.receive at hp
  unfold Machine.receive
  cases hm : Event.decode msg with
  | error e => simp [hm] at hp
  | ok event =>
    simp only [hm] at hp ⊢
    rcases payload_take hp with ⟨ds, rfl⟩ | ⟨t, d, rfl, hd⟩
    · rcases take_declare feed m ds with ⟨d, ds', rfl, -, hc, hr, hdel⟩ | ⟨hn, -⟩
      · obtain rfl : _ = p := by simpa using hr.symm.trans hp
        exact ⟨hdel, by simp [Event.declared?, hc]⟩
      · exact absurd hp (hn p)
    · obtain ⟨machine, declared⟩ := feed
      obtain rfl : declared = some d := hd
      obtain rfl : machine = m := h.machine rfl
      have hs := h.declared
      rcases take_transferred machine d t with ⟨r, -, hn⟩ | ⟨c, hdel, hr, hc⟩
      · exact absurd hp (hn p)
      · obtain rfl : payloadOf d c = p := by simpa using hr.symm.trans hp
        refine ⟨hdel.trans (by rw [hc]), ?_⟩
        cases hst : standing with
        | none => simp [hst] at hs
        | some d' =>
          obtain rfl : d = .ofDeclaration d' := by simpa [hst] using hs
          rfl

/-- What the machine delivers and a feed does not report is either nothing to send, declared without an id or a target,
or the end of a payload with no declaration in force. -/
theorem InStep.silent_iff (h : InStep standing feed m) {msg : Message} {c : ChangeSet}
    (hc : (m.receive msg).1 = .deliver c) :
    (∀ p, (feed.receive msg).1 ≠ some (.payload p)) ↔
      (∃ d ds, Event.decode msg = .ok (.declare (d :: ds)) ∧ d.intent = .upToDate ∧ (d.id = "" ∨ d.target = 0)) ∨
        (∃ t, Event.decode msg = .ok (.transferred t)) ∧ standing = .none := by
  unfold Feed.receive
  unfold Machine.receive at hc
  cases hm : Event.decode msg with
  | error e => simp [hm] at hc
  | ok event =>
    simp only [hm] at hc ⊢
    cases event with
    | declare ds =>
      -- A declaration that delivers says that there is nothing to send, and is reported if it counts.
      rcases take_declare feed m ds with ⟨d, ds', rfl, hi, hcount, hr, -⟩ | ⟨hn, hd⟩
      · have hid : d.id ≠ "" ∧ d.target ≠ 0 := by simpa [Declaration.counts, hi] using hcount
        simp [hr, hid]
      · obtain ⟨d, ds', rfl, hi, hid⟩ := hd c hc
        exact ⟨fun _ => .inl ⟨d, ds', rfl, hi, hid⟩, fun _ => hn⟩
    | transferred t =>
      obtain ⟨machine, declared⟩ := feed
      have hs := h.declared
      cases declared with
      | none =>
        have hst : standing = .none := by simpa using hs.symm
        exact ⟨fun _ => .inr ⟨⟨t, rfl⟩, hst⟩, fun _ => by simp [Feed.take]⟩
      | some d =>
        obtain rfl : machine = m := h.machine rfl
        have hst : standing ≠ .none := by
          rintro rfl
          simp at hs
        rcases take_transferred machine d t with ⟨r, hr, -⟩ | ⟨c', -, hr, -⟩
        · simp [hr] at hc
        · simp [hr, hst]
    | put p => simp [Machine.handle] at hc
    | delete d => simp [Machine.handle] at hc
    | fault f => simp [Machine.handle] at hc
    | goodbye g => simp [Machine.handle] at hc
    | heartbeat => simp [Machine.handle] at hc
    | unknown name => simp [Machine.handle] at hc

/-- On an active machine, nothing is in force exactly if a message revoked since the last declaration that counts. -/
theorem standing?_eq_none_iff (history : List Message) (h : (Machine.initial.receiveAll history).2.phase ≠ .inactive) :
    History.standing? history = .none ↔ ∃ r ∈ History.sinceDeclared history, r.revokes := by
  rw [← List.any_eq_true]
  constructor
  · intro hn
    simpa [hn] using revoked_of_isActive history h
  · intro hr
    unfold History.standing?
    rw [if_pos hr]

/-- The end of a payload is delivered only by an active machine. -/
theorem isActive_of_deliver_transferred {m : Machine} {msg : Message} {t : Transferred} {c : ChangeSet}
    (hm : Event.decode msg = .ok (.transferred t)) (hc : (m.receive msg).1 = .deliver c) : m.phase ≠ .inactive := by
  intro hp
  simp [Machine.receive, hm, Machine.handle, Machine.complete, hp] at hc

/-- A feed and a machine that take the same messages give out the same. Whatever the division into batches, the notice
of a message stands in its batch's reports at the message's place. A reported payload is one that the machine delivers
at the same message, under the id of the last declaration that counts. What the machine delivers and the feed does not
report is nothing to send, declared without an id or a target, or the end of a payload after the declaration was
revoked. -/
theorem reports_iff_delivers (earlier : List (List Message)) (before : List Message) (msg : Message) :
    let history := earlier.flatten ++ before
    let start := (initial.receiveBatches earlier).2
    let feed := (start.receiveAll before).2
    let machine := (Machine.initial.receiveAll history).2
    (∀ after, (start.receiveAll (before ++ msg :: after)).1 =
        (start.receiveAll before).1 ++ ((feed.receive msg).1.toList ++ ((feed.receive msg).2.receiveAll after).1)) ∧
      (∀ p, (feed.receive msg).1 = some (.payload p) →
        (machine.receive msg).1 = .deliver (.ofPayload p) ∧
          (History.declared? (history ++ [msg])).map (·.id) = some p.id) ∧
      ∀ c, (machine.receive msg).1 = .deliver c →
        ((∀ p, (feed.receive msg).1 ≠ some (.payload p)) ↔
          (∃ d ds, Event.decode msg = .ok (.declare (d :: ds)) ∧ d.intent = .upToDate ∧ (d.id = "" ∨ d.target = 0)) ∨
            (∃ t, Event.decode msg = .ok (.transferred t)) ∧ ∃ r ∈ History.sinceDeclared history, r.revokes) := by
  intro history start feed machine
  have hfeed : feed = (initial.receiveAll history).2 := by
    rw [receiveAll_append, ← receiveBatches_snd]
  have h : InStep (History.standing? history) feed machine := hfeed ▸ inStep_receiveAll history
  refine ⟨?_, ?_, ?_⟩
  · intro after
    rw [receiveAll_append]
    rfl
  · intro p hp
    obtain ⟨hdel, hid⟩ := h.deliver_of_payload hp
    refine ⟨hdel, ?_⟩
    rw [← History.standing?_concat] at hid
    unfold History.standing? at hid
    split at hid
    · simp at hid
    · exact hid
  · intro c hc
    rw [h.silent_iff hc]
    refine or_congr_right (and_congr_right ?_)
    rintro ⟨t, ht⟩
    exact standing?_eq_none_iff history (isActive_of_deliver_transferred ht hc)

end Feed

end FlagDelivery
