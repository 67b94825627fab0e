import FlagDelivery.Proofs.Receiver.Runs
import FlagDelivery.Proofs.Store.Memory
import FlagDelivery.Proofs.Store.MemoryOnly

/-!
# What a run leaves in the store

A receiver reads its connections one after the other with one machine. `Session.InOrder` relates it, in whatever stage,
to machines of which each follows one connection: what was handed to the store and what the machine will still give out
for the open connection is what those machines deliver. Every step keeps this, so a run over a script leaves the store
that the connections' own machines account for, however the connections ended.
-/

namespace FlagDelivery

/-- The batch that a receiver with these settings makes of a change set. -/
def Settings.batch (s : Settings) (c : ChangeSet) : Batch := .ofChangeSet c s.environment s.persist

namespace Machine

/-- Where no message is next, none is followed. -/
theorem followed_of_head? (m : Machine) {items : List ScriptItem} (h : ∀ msg, items.head? ≠ some (.message msg)) :
    m.followed items = [] := by
  rcases items with _ | ⟨msg | f, items⟩
  · rfl
  · exact absurd rfl (h msg)
  · rfl

/-- The change sets of items that begin with a message. -/
theorem delivered_followed_message (m : Machine) (msg : Message) (items : List ScriptItem) :
    m.delivered (m.followed (.message msg :: items)) = (m.receive msg).1.delivered?.toList ++
      if (m.receive msg).1.ends then []
      else (m.receive msg).2.delivered ((m.receive msg).2.followed items) := by
  rw [followed, delivered_cons]
  split <;> simp [delivered_nil]

end Machine

namespace Receiver

variable {μ : Type} [DataStore μ]

/-- A change set is handed to a store with nothing beneath once, and changes the memory. -/
theorem core_deliver {r : Receiver (Layered μ)} (h : r.intake.site.store.beneath = none) (c : ChangeSet) :
    (deliver c r).2.core =
      { r.core with
        site := Layered.appliedToMemory (r.settings.batch c) r.intake.site
        handed := r.intake.handed ++ [r.settings.batch c] } := by
  obtain ⟨ha, hs, hh⟩ := Intake.apply_of_none h (r.settings.batch c)
  simp only [Settings.batch] at ha hs hh ⊢
  simp [deliver, onIntake, ha, hs, hh, core, count]

end Receiver

namespace Receiver

/-- What holds of a receiver whose store has nothing beneath and which nobody cancels: nothing is ever posted, so no
connection is left for the sake of the store, and memory holds what was handed to it. -/
structure Core.OnMemory {μ : Type} (settings : Settings) (c : Core (Layered μ)) : Prop where
  settings_eq : c.settings = settings
  cancelled : c.cancelled = false
  posts : c.site.board.posts = 0
  seen : c.seen = 0
  store : c.site.store = { Layered.memoryOnly with memory := Memory.empty.applyAll c.handed }

/-- Whatever the machine answers, the receiver goes on as before, and what was handed to the store grows by the change set
answered. -/
theorem act_onMemory {μ : Type} [DataStore μ] {settings : Settings} {r : Receiver (Layered μ)} (h : r.core.OnMemory settings)
    (applied : Bool) (a : Action) :
    (act applied a r).2.core.OnMemory settings ∧
      (act applied a r).2.core.handed = r.core.handed ++ a.delivered?.toList.map settings.batch ∧
      (act applied a r).2.core.machine = r.core.machine := by
  rw [core_act]
  cases a.delivered? with
  | none => exact ⟨h, by simp, rfl⟩
  | some c =>
    have hs : r.settings = settings := h.settings_eq
    have hstore : r.intake.site.store = { Layered.memoryOnly with memory := Memory.empty.applyAll r.intake.handed } :=
      h.store
    have hb : r.intake.site.store.beneath = none := by rw [hstore]; rfl
    simp only [core_deliver hb, hs]
    refine ⟨⟨h.settings_eq, h.cancelled, h.posts, h.seen, ?_⟩, by simp [core], trivial⟩
    simp [Layered.appliedToMemory, Layered.memoryOnly, Site.mapStore, Memory.applyAll_concat, hstore]

end Receiver

namespace Session

open Receiver

variable {μ ω : Type} {settings : Settings} {cs : List ScriptConnection} {stage : Stage} {c : Core (Layered μ)}
    {source : Script}

/-- The change sets that the machine will still give out for the open connection. -/
def pending (stage : Stage) (machine : Machine) (source : Script) : List ChangeSet :=
  match stage with
  | .listening _ | .reading _ => machine.delivered (machine.followed source.current)
  | _ => []

/-- The change sets that machines of their own deliver for the connections used up. -/
def owed (cs : List ScriptConnection) (source : Script) : List ChangeSet :=
  (cs.take source.selectors.length).flatMap ScriptConnection.delivered

/-- Between two actions, what was handed to the store and what is pending are the change sets owed. -/
structure InOrder (settings : Settings) (cs : List ScriptConnection) (stage : Stage) (c : Core (Layered μ))
    (source : Script) :
    Prop where
  core : c.OnMemory settings
  /-- Each attempt to connect uses up a connection. -/
  connections : source.connections = cs.drop source.selectors.length
  /-- Each connection starts with a fresh machine. -/
  machine : ∀ resume, stage = .connecting resume → c.machine = .initial
  connected : ∀ applied, stage = .listening applied ∨ stage = .reading applied → source.connected = true
  handed : c.handed ++ (pending stage c.machine source).map settings.batch = (owed cs source).map settings.batch

namespace InOrder

/-- Where nothing is pending, only what was handed to the store and the connections left matter. -/
theorem of_pending_nil (hc : c.OnMemory settings) (hs : source.connections = cs.drop source.selectors.length)
    (hh : c.handed = (owed cs source).map settings.batch)
    (hstage : stage = .opening ∨ stage = .stopped ∨ ∃ again applied, stage = .closing again applied) :
    InOrder settings cs stage c source := by
  obtain rfl | rfl | ⟨again, applied, rfl⟩ := hstage
  all_goals exact ⟨hc, hs, by simp, by simp, by simpa [pending] using hh⟩

end InOrder

variable [DataStore μ] {s : Session (Layered μ) Script ω}

/-- The environment of a session that nothing happens to. -/
def quiet : Environment (Layered μ) ω := fun _ => pure ()

/-- Deciding on a connection keeps the change sets in order. -/
theorem inOrder_opening (h : InOrder settings cs .opening s.receiver.core s.source) :
    InOrder settings cs (step quiet .opening s).1 (step quiet .opening s).2.receiver.core
      (step quiet .opening s).2.source := by
  have hh : s.receiver.core.handed = (owed cs s.source).map settings.batch := by simpa [pending] using h.handed
  rw [step_opening]
  rcases dial_cases s.receiver with ⟨hd, hc⟩ | ⟨resume, hd, hc⟩
  · simp only [hd, hc]
    exact .of_pending_nil h.core h.connections hh (.inr (.inl rfl))
  · simp only [hd, hc]
    exact ⟨⟨h.core.settings_eq, h.core.cancelled, h.core.posts, h.core.posts, h.core.store⟩, h.connections,
      fun _ _ => rfl, by simp, by simpa [pending] using hh⟩

/-- One attempt to connect more uses up one connection more. -/
theorem used_up {n : Nat} {c : ScriptConnection} {rest : List ScriptConnection} (h : cs.drop n = c :: rest) :
    cs.take (n + 1) = cs.take n ++ [c] ∧ cs.drop (n + 1) = rest := by
  have hn : n < cs.length := by
    refine Nat.lt_of_not_le ?_
    intro hn
    simp [List.drop_eq_nil_of_le hn] at h
  rw [List.drop_eq_getElem_cons hn] at h
  obtain ⟨rfl, rfl⟩ := List.cons.inj h
  exact ⟨by simp, rfl⟩

/-- The answer to an attempt to connect keeps the change sets in order; the machine starts anew. -/
theorem inOrder_connecting {resume : Selector} (h : InOrder settings cs (.connecting resume) s.receiver.core s.source) :
    InOrder settings cs (step quiet (.connecting resume) s).1 (step quiet (.connecting resume) s).2.receiver.core
      (step quiet (.connecting resume) s).2.source := by
  have hh : s.receiver.core.handed = (owed cs s.source).map settings.batch := by simpa [pending] using h.handed
  have hn := h.connections
  rw [step_connecting]
  simp only [quiet, StoreM.pure_apply]
  obtain ⟨items, rest, hc, ha⟩ | ⟨f, rest, hc, ha⟩ | ⟨hc, ha⟩ := Script.connect_cases resume s.source
  · obtain ⟨ht, hd⟩ := used_up (hn.symm.trans hc)
    obtain ⟨hs, hr⟩ := connected_ok s.receiver
    have hm : s.receiver.core.machine = .initial := h.machine resume rfl
    simp only [Source.connect, ha, hs, hr]
    refine ⟨h.core, by simp [hd], by simp, by simp, ?_⟩
    simp only [pending, owed, List.length_append, List.length_singleton, ht, hh, hm]
    simp [ScriptConnection.delivered, ScriptConnection.heard, ScriptConnection.items]
  · obtain ⟨ht, hd⟩ := used_up (hn.symm.trans hc)
    obtain ⟨hs, hr⟩ := connected_error f.error s.receiver
    simp only [Source.connect, ha, hr]
    refine .of_pending_nil h.core (by simp [hd]) ?_ (hs.imp_right .inl)
    -- A connection that is refused has no items, so nothing is owed for it.
    simp [hh, owed, ht, ScriptConnection.delivered, ScriptConnection.heard, ScriptConnection.items, Machine.followed,
      Machine.delivered_nil]
  · have hl : cs.length ≤ s.source.selectors.length := List.drop_eq_nil_iff.mp (hn.symm.trans hc)
    obtain ⟨hs, hr⟩ := connected_error .cancelled s.receiver
    simp only [Source.connect, ha, hr]
    refine .of_pending_nil h.core ?_ ?_ (hs.imp_right .inl)
    · simp only [hc, List.length_append]
      exact (List.drop_eq_nil_of_le (by omega)).symm
    · simp only [hh, owed, List.length_append]
      rw [List.take_of_length_le hl, List.take_of_length_le (by omega)]

/-- Deciding on the next message keeps the change sets in order. -/
theorem inOrder_listening {applied : Bool} (h : InOrder settings cs (.listening applied) s.receiver.core s.source) :
    InOrder settings cs (step quiet (.listening applied) s).1 (step quiet (.listening applied) s).2.receiver.core
      (step quiet (.listening applied) s).2.source := by
  rw [step_listening, listen_eq applied h.core.cancelled (h.core.seen.trans h.core.posts.symm)]
  exact ⟨h.core, h.connections, by simp, fun _ _ => h.connected applied (.inl rfl), h.handed⟩

/-- Closing the connection keeps the change sets in order; nothing of it is pending any more. -/
theorem inOrder_closing {again applied : Bool} (h : InOrder settings cs (.closing again applied) s.receiver.core s.source) :
    InOrder settings cs (step quiet (.closing again applied) s).1 (step quiet (.closing again applied) s).2.receiver.core
      (step quiet (.closing again applied) s).2.source := by
  have hh : s.receiver.core.handed = (owed cs s.source).map settings.batch := by simpa [pending] using h.handed
  rw [step_closing]
  simp only [quiet, StoreM.pure_apply]
  obtain ⟨hs, hc⟩ := closed_cases again applied s.receiver
  simp only [hc]
  exact .of_pending_nil h.core h.connections hh (hs.imp_right .inl)

/-- A message is followed by the machine of the open connection: what it answers is no longer pending but handed to the
store. -/
theorem inOrder_message {applied : Bool} {msg : Message} {items : List ScriptItem}
    (h : InOrder settings cs (.reading applied) s.receiver.core s.source) (hi : s.source.current = .message msg :: items) :
    InOrder settings cs (received applied (.ok (some msg)) s.receiver).1
      (received applied (.ok (some msg)) s.receiver).2.core
      { s.source with current := items } := by
  have hafter : (s.receiver.afterMessage msg).core.OnMemory settings :=
    ⟨h.core.settings_eq, h.core.cancelled, h.core.posts, h.core.seen, h.core.store⟩
  obtain ⟨hm, hh, hmachine⟩ := act_onMemory hafter applied (s.receiver.machine.receive msg).1
  have hs := act_fst applied (s.receiver.machine.receive msg).1 (s.receiver.afterMessage msg)
  have hp : s.receiver.core.handed ++ (s.receiver.machine.delivered
      (s.receiver.machine.followed (.message msg :: items))).map settings.batch = (owed cs s.source).map settings.batch := by
    have hp := h.handed
    simp only [pending, hi] at hp
    exact hp
  rw [Machine.delivered_followed_message, List.map_append, ← List.append_assoc] at hp
  rw [received_some]
  split at hs
  · next he =>
    simp only [he, if_true, List.map_nil, List.append_nil] at hp
    rw [hs]
    exact .of_pending_nil hm h.connections (hh.trans hp) (.inr (.inr ⟨true, applied, rfl⟩))
  · next he =>
    obtain ⟨applied', hs⟩ := hs
    rw [if_neg he] at hp
    rw [hs]
    refine ⟨hm, h.connections, by simp, fun _ _ => h.connected applied (.inr rfl), ?_⟩
    rw [hh, hmachine]
    exact hp

/-- The answer to a wait keeps the change sets in order: one that is completed is handed to the store and owed no
longer. -/
theorem inOrder_reading {applied : Bool} (h : InOrder settings cs (.reading applied) s.receiver.core s.source) :
    InOrder settings cs (step quiet (.reading applied) s).1 (step quiet (.reading applied) s).2.receiver.core
      (step quiet (.reading applied) s).2.source := by
  have hc := h.connected applied (.inr rfl)
  rw [step_reading]
  simp only [quiet, StoreM.pure_apply, Source.next]
  by_cases hm : ∃ msg items, s.source.current = .message msg :: items
  · obtain ⟨msg, items, hi⟩ := hm
    rw [Script.next_message hc hi]
    exact inOrder_message h hi
  · have ho : ∀ msg, s.source.current.head? ≠ some (.message msg) := by
      intro msg hi
      obtain ⟨items, hi⟩ := List.head?_eq_some_iff.mp hi
      exact hm ⟨msg, items, hi⟩
    obtain ⟨ha, hn, hl, -⟩ := Script.next_over fun _ => ho
    have hh : s.receiver.core.handed = (owed cs s.source).map settings.batch := by
      simpa [pending, Machine.followed_of_head? _ ho, Machine.delivered_nil] using h.handed
    obtain ⟨again, hs, hr⟩ := received_over applied ha s.receiver
    simp only [hs, hr]
    refine .of_pending_nil h.core ?_ ?_ (.inr (.inr ⟨again, applied, rfl⟩))
    · rw [hn, hl, h.connections]
    · simpa [owed, hl] using hh

/-- Every step keeps the order. -/
theorem inOrder_step (stage : Stage) (h : InOrder settings cs stage s.receiver.core s.source) :
    InOrder settings cs (step quiet stage s).1 (step quiet stage s).2.receiver.core (step quiet stage s).2.source := by
  cases stage with
  | opening => exact inOrder_opening h
  | connecting resume => exact inOrder_connecting h
  | listening applied => exact inOrder_listening h
  | reading applied => exact inOrder_reading h
  | closing again applied => exact inOrder_closing h
  | stopped => exact h

/-- A receiver for a store in memory that reads the connections of a script. -/
def overScript {β : Type} (settings : Settings) (announcing : Announcing) (cs : List ScriptConnection) :
    Session (Layered (Attached (Guarded β))) Script Unit :=
  ⟨.ofIntake settings (.ofSite (settings.stores none) announcing), .ofConnections cs, ()⟩

/-- **No splicing.** A run over a script stops, and leaves in the store what the connections that were used up account
for one by one: the memory is that of an empty one to which the batches were applied that machines of their own make of
each connection's messages, up to the message or the failure that ends the connection. Each of these change sets is the
one that changes nothing, or its payload was closed by its own connection and holds only changes of that connection. -/
theorem run_overScript {β : Type} [Backend β] (settings : Settings) (announcing : Announcing) (cs : List ScriptConnection)
    (extra : Nat) :
    let start : Session (Layered (Attached (Guarded β))) Script Unit := overScript settings announcing cs
    let ended := run quiet ((Script.ofConnections cs).patience + extra) start
    let consumed := cs.take ended.2.source.selectors.length
    ended.1 = .stopped ∧ cs = consumed ++ ended.2.source.connections ∧
      ended.2.receiver.intake.site.store =
        { Layered.memoryOnly with
          memory := Memory.empty.applyAll (consumed.flatMap fun c => c.delivered.map settings.batch) } ∧
      ∀ c ∈ consumed, ∀ d ∈ c.delivered, d = .upToDate ∨
        ∃ before msg t after, c.heard = before ++ msg :: after ∧ Event.decode msg = .ok (.transferred t) ∧
          d.selector = .point t.version t.state ∧ d.changes.Sublist (before.filterMap Message.change?) := by
  intro start ended consumed
  have hstart : InOrder settings cs .opening start.receiver.core start.source :=
    ⟨⟨rfl, rfl, rfl, rfl, rfl⟩, rfl, by simp, by simp, rfl⟩
  -- The change sets are in order all along the run, and none is pending once the receiver has stopped.
  have hend : InOrder settings cs ended.1 ended.2.receiver.core ended.2.source :=
    runFrom_preserves (P := fun stage s => InOrder settings cs stage s.receiver.core s.source)
      (fun stage s h => inOrder_step stage h) _ hstart
  have hstop : ended.1 = .stopped := run_fst quiet extra _
  have hh := hend.handed
  rw [hstop] at hh
  simp only [pending, List.map_nil, List.append_nil] at hh
  refine ⟨hstop, ?_, ?_, ?_⟩
  · rw [hend.connections]
    exact (List.take_append_drop _ cs).symm
  · have hstore := hend.core.store
    rw [hh, owed, List.map_flatMap] at hstore
    exact hstore
  · rintro c - d hd
    exact Machine.delivered_whole .initial c.heard hd

end Session

end FlagDelivery
