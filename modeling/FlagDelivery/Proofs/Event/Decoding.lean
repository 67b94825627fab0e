import FlagDelivery.Proofs.Schema.Stable

/-!
# Events read as they were written

`Event.Understood` says, event by event, what a message is that is understood as it, `Event.decode_eq_ok_iff`. The
formats of all bodies are stable, so an event that was understood from any message, however its body was laid out, is
understood from the body that it is written as, `Event.decode_body`.
-/

namespace FlagDelivery

namespace Format

/-- The intent that a code stands for is written as that code. -/
theorem stable_intent : intent.Stable := stable_text.map Intent.ofCode Intent.code Intent.code_ofCode

/-- A declaration reads as it was written. -/
theorem stable_declaration : declaration.Stable := by
  refine Stable.map (stable_record "PayloadIntent" (by decide) ?_) _ _ fun _ => rfl
  exact ⟨.required "id" stable_text, .required "target" stable_version,
    .required "intentCode" stable_intent, .omissible "reason", trivial⟩

theorem stable_declarations : declarations.Stable := by
  refine Stable.map (stable_record "ServerIntent" (by decide) ?_) _ _ fun _ => rfl
  exact ⟨.required "payloads" (stable_list stable_declaration), trivial⟩

theorem stable_put : put.Stable := by
  refine Stable.map (stable_record "PutObject" (by decide) ?_) _ _ fun _ => rfl
  exact ⟨.required "kind" stable_text, .required "key" stable_text,
    .required "version" stable_version, .required "object" stable_any, trivial⟩

theorem stable_delete : delete.Stable := by
  refine Stable.map (stable_record "DeleteObject" (by decide) ?_) _ _ fun _ => rfl
  exact ⟨.required "kind" stable_text, .required "key" stable_text,
    .required "version" stable_version, trivial⟩

theorem stable_transferred : transferred.Stable := by
  refine Stable.map (stable_record "PayloadTransferred" (by decide) ?_) _ _ fun _ => rfl
  exact ⟨.required "state" stable_text, .required "version" stable_version, trivial⟩

theorem stable_fault : fault.Stable := by
  refine Stable.map (stable_record "ErrorEvent" (by decide) ?_) _ _ fun _ => rfl
  exact ⟨.optional "id", .required "reason" stable_text, trivial⟩

theorem stable_farewell : farewell.Stable := by
  refine Stable.map (stable_record "Goodbye" (by decide) ?_) _ _ fun _ => rfl
  exact ⟨.optional "reason", trivial⟩

end Format

namespace Format

/-- The intent of a declaration that is read comes from a code. -/
theorem intent_of_read_declaration {v : Json} {d : Declaration} (h : declaration.read v = .ok d) :
    ∃ code, d.intent = Intent.ofCode code := by
  obtain ⟨⟨id, target, intent, reason, u⟩, hrow, rfl⟩ := ok_of_map h
  obtain ⟨-, -, hintent, -⟩ := from_record hrow
  obtain ⟨w, -, hw⟩ := hintent.resolve_right nofun
  obtain ⟨code, -, hcode⟩ := ok_of_map hw
  exact ⟨code, hcode.symm⟩

/-- The intents of all declarations that are read come from codes. -/
theorem intents_of_read_declarations {v : Json} {ds : List Declaration} (h : declarations.read v = .ok ds) :
    ∀ d ∈ ds, ∃ code, d.intent = Intent.ofCode code := by
  obtain ⟨⟨payloads, u⟩, hrow, rfl⟩ := ok_of_map h
  obtain ⟨hpayloads, -⟩ := from_record hrow
  obtain ⟨w, -, hw⟩ := hpayloads.resolve_right nofun
  exact forall_of_read_list (fun _ _ => intent_of_read_declaration) hw

end Format

/-- A body of the form of an event is read, and no other is. -/
theorem Message.read_eq_ok_iff {α : Type} {m : Message} {f : Format α} {a : α} :
    m.read f = .ok a ↔ f.read m.data = .ok a := by
  unfold Message.read
  cases f.read m.data with
  | error e =>
    constructor
    · intro h
      cases h
    · intro h
      cases h
  | ok a' =>
    constructor
    · intro h
      exact congrArg Except.ok (Except.ok.inj h)
    · intro h
      exact congrArg Except.ok (Except.ok.inj h)

namespace Event

/-- What a message is that is understood as an event. -/
def Understood (m : Message) : Event → Prop
  | .declare ds => m.event = "server-intent" ∧ Format.declarations.read m.data = .ok ds
  | .put p => m.event = "put-object" ∧ Format.put.read m.data = .ok p ∧ p.object ≠ .null
  | .delete d => m.event = "delete-object" ∧ Format.delete.read m.data = .ok d
  | .transferred t => m.event = "payload-transferred" ∧ Format.transferred.read m.data = .ok t
  | .fault f => m.event = "error" ∧ Format.fault.read m.data = .ok f
  | .goodbye g => m.event = "goodbye" ∧ if m.data = .null then g = ⟨none⟩ else Format.farewell.read m.data = .ok g
  | .heartbeat => m.event = "heartbeat"
  | .unknown name => m.event = name ∧ name ∉ names

/-- A message that is decoded is understood as the event that it is decoded to. -/
theorem understood_of_decode {m : Message} {e : Event} (h : decode m = .ok e) : e.Understood m := by
  unfold decode at h
  split at h
  · next hname =>
    obtain ⟨ds, hds, rfl⟩ := Format.ok_of_map h
    exact ⟨hname, Message.read_eq_ok_iff.mp hds⟩
  next hdeclare =>
  split at h
  · next hname =>
    obtain ⟨p, hp, h⟩ := Format.ok_of_bind h
    simp only at h
    split at h
    · cases h
    · next hnull =>
      obtain rfl := Except.ok.inj h
      exact ⟨hname, Message.read_eq_ok_iff.mp hp, hnull⟩
  next hput =>
  split at h
  · next hname =>
    obtain ⟨d, hd, rfl⟩ := Format.ok_of_map h
    exact ⟨hname, Message.read_eq_ok_iff.mp hd⟩
  next hdelete =>
  split at h
  · next hname =>
    obtain ⟨t, ht, rfl⟩ := Format.ok_of_map h
    exact ⟨hname, Message.read_eq_ok_iff.mp ht⟩
  next htransferred =>
  split at h
  · next hname =>
    obtain ⟨f, hf, rfl⟩ := Format.ok_of_map h
    exact ⟨hname, Message.read_eq_ok_iff.mp hf⟩
  next hfault =>
  split at h
  · next hname =>
    split at h
    · next hnull =>
      obtain rfl := Except.ok.inj h
      exact ⟨hname, by rw [if_pos hnull]⟩
    · next hnull =>
      obtain ⟨g, hg, rfl⟩ := Format.ok_of_map h
      exact ⟨hname, by rw [if_neg hnull]; exact Message.read_eq_ok_iff.mp hg⟩
  next hgoodbye =>
  split at h
  · next hname =>
    obtain rfl := Except.ok.inj h
    exact hname
  · next hheartbeat =>
    obtain rfl := Except.ok.inj h
    exact ⟨rfl, by simp [names, *]⟩

/-- A message that is understood as an event is decoded to this event. -/
theorem decode_of_understood {m : Message} {e : Event} (h : e.Understood m) : decode m = .ok e := by
  cases e with
  | declare ds =>
    rw [decode, if_pos h.1, Message.read_eq_ok_iff.mpr h.2]
    rfl
  | put p =>
    simp only [decode, h.1, Message.read_eq_ok_iff.mpr h.2.1, h.2.2, bind, Except.bind]
    rfl
  | delete d =>
    simp only [decode, h.1, Message.read_eq_ok_iff.mpr h.2]
    rfl
  | transferred t =>
    simp only [decode, h.1, Message.read_eq_ok_iff.mpr h.2]
    rfl
  | fault f =>
    simp only [decode, h.1, Message.read_eq_ok_iff.mpr h.2]
    rfl
  | goodbye g =>
    obtain ⟨hname, h⟩ := h
    simp only [decode, hname]
    split at h
    · next hnull =>
      rw [h, if_pos hnull]
      rfl
    · next hnull =>
      rw [if_neg hnull, Message.read_eq_ok_iff.mpr h]
      rfl
  | heartbeat =>
    simp only [decode, show m.event = "heartbeat" from h]
    rfl
  | unknown name =>
    obtain ⟨rfl, hnames⟩ := h
    simp only [names, List.mem_cons, not_or] at hnames
    simp only [decode, hnames, if_false]
    rfl

/-- A message is understood as an event exactly if it has the event's name and a body of its form. -/
theorem decode_eq_ok_iff {m : Message} {e : Event} : decode m = .ok e ↔ e.Understood m :=
  ⟨understood_of_decode, decode_of_understood⟩

/-- An event has the name of each message that is understood as it. -/
theorem Understood.name_eq {m : Message} {e : Event} (h : e.Understood m) : e.name = m.event := by
  cases e with
  | heartbeat => exact h.symm
  | _ => exact h.1.symm

/-- An event that was understood is understood from its name and the body that it is written as. -/
theorem Understood.body {m : Message} {e : Event} (h : e.Understood m) : e.Understood ⟨e.name, e.body⟩ := by
  cases e with
  | declare ds => exact ⟨rfl, Format.stable_declarations _ _ h.2⟩
  | put p => exact ⟨rfl, Format.stable_put _ _ h.2.1, h.2.2⟩
  | delete d => exact ⟨rfl, Format.stable_delete _ _ h.2⟩
  | transferred t => exact ⟨rfl, Format.stable_transferred _ _ h.2⟩
  | fault f => exact ⟨rfl, Format.stable_fault _ _ h.2⟩
  | goodbye g =>
    -- a farewell with a null body has no reason, and an object with the reason null reads as that
    have hread : Format.farewell.read (Format.farewell.write g) = .ok g := by
      have h := h.2
      split at h
      · rw [h]
        rfl
      · exact Format.stable_farewell _ _ h
    refine ⟨rfl, ?_⟩
    rw [if_neg nofun]
    exact hread
  | heartbeat => rfl
  | unknown name => exact ⟨rfl, h.2⟩

/-- **Decoding an event again.** Let a message be understood, however its body was laid out.

1. The event is understood again as itself from its name and the body that it is written as.
2. Its name is the name of the message.
3. The codes of its intents stand for the same intents.
4. If it is a put, then its object is not null.
5. If it is a sign of life or has a name outside the protocol, then it is understood again from its name with any body. -/
theorem decode_body {m : Message} {e : Event} (h : decode m = .ok e) :
    decode ⟨e.name, e.body⟩ = .ok e ∧
      e.name = m.event ∧
      (∀ ds, e = .declare ds → ∀ d ∈ ds, Intent.ofCode d.intent.code = d.intent) ∧
      (∀ p, e = .put p → p.object ≠ .null) ∧
      (e = .heartbeat ∨ (∃ name, e = .unknown name) → ∀ body, decode ⟨e.name, body⟩ = .ok e) := by
  have hm := decode_eq_ok_iff.mp h
  refine ⟨decode_eq_ok_iff.mpr hm.body, hm.name_eq, ?_, ?_, ?_⟩
  · rintro ds rfl d hd
    obtain ⟨code, hcode⟩ := Format.intents_of_read_declarations hm.2 d hd
    rw [hcode, Intent.code_ofCode]
  · rintro p rfl
    exact hm.2.2
  · rintro (rfl | ⟨name, rfl⟩) body
    · exact decode_eq_ok_iff.mpr rfl
    · exact decode_eq_ok_iff.mpr ⟨rfl, hm.2⟩

/-- A declaration that came as arrays, with a code outside the protocol and no reason. It is written as objects. -/
theorem decode_body_positional :
    decode ⟨"server-intent", .arr [.arr [.arr [.str "p1", .int 4, .str "xfer-sideways"]]]⟩ =
        .ok (.declare [⟨"p1", 4, .other "xfer-sideways", none⟩]) ∧
      decode ⟨"server-intent", .obj [("payloads", .arr [
        .obj [("id", .str "p1"), ("intentCode", .str "xfer-sideways"), ("target", .int 4)]])]⟩ =
        .ok (.declare [⟨"p1", 4, .other "xfer-sideways", none⟩]) := by
  have h : decode ⟨"server-intent", .arr [.arr [.arr [.str "p1", .int 4, .str "xfer-sideways"]]]⟩ =
      .ok (.declare [⟨"p1", 4, .other "xfer-sideways", none⟩]) := by rfl
  exact ⟨h, (decode_body h).1⟩

end Event

end FlagDelivery
