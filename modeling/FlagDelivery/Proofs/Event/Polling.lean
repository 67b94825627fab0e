import FlagDelivery.Event.Polling
import FlagDelivery.Proofs.Json.Nesting
import FlagDelivery.Proofs.Schema.Records
import Mathlib.Data.List.Forall2

/-!
# Polling responses that are accepted

`Polling.parse` accepts exactly the texts of objects whose events all carry a message, `Polling.Carries`, and gives
these messages. Any other text is refused, `ResponseError.Stands`; if its events are an array, for what is wrong with
the first of them that carries none. `Polling.parse_exact` says so, and that a response that was written is accepted.
-/

namespace FlagDelivery.Polling

/-- A value is an object with a message's event as a string and with its data, which are not null, whatever else it
has. -/
def Carries (v : Json) (m : Message) : Prop :=
  ∃ fs, v = .obj fs ∧ Fields.find? "event" fs = some (.str m.event) ∧ Fields.find? "data" fs = some m.data ∧ m.data ≠ .null

/-- What is wrong with a value that carries no message: the first that applies of its being null, its being no object,
its having no event that is a string, and its having no data or null for them. -/
def Flawed (v : Json) : Flaw → Prop
  | .null => v = .null
  | .notAnObject => v ≠ .null ∧ ∀ fs, v ≠ .obj fs
  | .missing property => ∃ fs, v = .obj fs ∧
    ((property = "event" ∧ ∀ event, Fields.find? "event" fs ≠ some (.str event)) ∨
      (property = "data" ∧ (∃ event, Fields.find? "event" fs = some (.str event)) ∧
        (Fields.find? "data" fs = none ∨ Fields.find? "data" fs = some .null)))

/-- A text is the one of an object whose events carry messages, one each. -/
def Accepts (text : String) (ms : List Message) : Prop :=
  ∃ fs vs, Json.parse? text = some (.obj fs) ∧ Fields.find? "events" fs = some (.arr vs) ∧ List.Forall₂ Carries vs ms

/-- When a response's text is refused with an error. -/
def ResponseError.Stands (text : String) : ResponseError → Prop
  | .unreadable => Json.parse? text = none
  | .noEvents => ∃ response, Json.parse? text = some response ∧ response.field? "events" = none
  | .notAnArray => ∃ response events, Json.parse? text = some response ∧ response.field? "events" = some events ∧
      ∀ vs, events ≠ .arr vs
  | .element index flaw => ∃ response before v after, Json.parse? text = some response ∧
      response.field? "events" = some (.arr (before ++ v :: after)) ∧ before.length = index ∧
      (∀ w ∈ before, ∃ m, Carries w m) ∧ Flawed v flaw

/-! ## Elements -/

variable {v : Json} {m : Message} {vs : List Json} {ms : List Message}

/-- What is no string gives none. -/
theorem bind_string?_eq_none {value : Option Json} (h : ∀ s, value ≠ some (.str s)) : value.bind Json.string? = none := by
  cases value with
  | none => rfl
  | some v =>
    cases v with
    | str s => exact absurd rfl (h s)
    | _ => rfl

/-- A value that carries a message is read as this message. -/
theorem readElement_of_carries (h : Carries v m) : readElement v = .ok m := by
  obtain ⟨fs, rfl, hevent, hdata, hnull⟩ := h
  obtain ⟨event, data⟩ := m
  cases data with
  | null => exact absurd rfl hnull
  | _ =>
    simp only [readElement, hevent, hdata]
    rfl

/-- A flawed value is refused for its flaw. -/
theorem readElement_of_flawed {flaw : Flaw} (h : Flawed v flaw) : readElement v = .error flaw := by
  cases flaw with
  | null =>
    obtain rfl : v = .null := h
    rfl
  | notAnObject =>
    obtain ⟨hnull, hobject⟩ := h
    cases v with
    | null => exact absurd rfl hnull
    | obj fs => exact absurd rfl (hobject fs)
    | _ => rfl
  | missing property =>
    obtain ⟨fs, rfl, ⟨rfl, hevent⟩ | ⟨rfl, ⟨event, hevent⟩, hdata⟩⟩ := h
    · simp only [readElement, bind_string?_eq_none hevent]
      rfl
    · rcases hdata with hdata | hdata
      all_goals
        simp only [readElement, hevent, hdata]
        rfl

/-- Every value carries a message or is flawed. -/
theorem carries_or_flawed (v : Json) : (∃ m, Carries v m) ∨ ∃ flaw, Flawed v flaw := by
  cases v with
  | null => exact .inr ⟨.null, rfl⟩
  | obj fs =>
    by_cases hevent : ∃ event, Fields.find? "event" fs = some (.str event)
    · cases hdata : Fields.find? "data" fs with
      | none => exact .inr ⟨.missing "data", fs, rfl, .inr ⟨rfl, hevent, .inl hdata⟩⟩
      | some data =>
        by_cases hnull : data = .null
        · exact .inr ⟨.missing "data", fs, rfl, .inr ⟨rfl, hevent, .inr (hnull ▸ hdata)⟩⟩
        · obtain ⟨event, hevent⟩ := hevent
          exact .inl ⟨⟨event, data⟩, fs, rfl, hevent, hdata, hnull⟩
    · exact .inr ⟨.missing "event", fs, rfl, .inl ⟨rfl, not_exists.mp hevent⟩⟩
  | _ =>
    refine .inr ⟨.notAnObject, ?_, ?_⟩
    · rintro ⟨⟩
    · rintro fs ⟨⟩

/-! ## Lists of elements -/

/-- Values that carry messages are read as these messages, in the same order. -/
theorem readElements_of_carries (h : List.Forall₂ Carries vs ms) (index : Nat) : readElements index vs = .ok ms := by
  induction h generalizing index with
  | nil => rfl
  | cons hv _ ih =>
    rw [readElements, readElement_of_carries hv, ih]
    rfl

/-- The first element that carries no message stops the reading, at its place. -/
theorem readElements_of_flawed {before after : List Json} (hbefore : ∀ w ∈ before, ∃ m, Carries w m) {flaw : Flaw}
    (hv : Flawed v flaw) (index : Nat) :
    readElements index (before ++ v :: after) = .error (.element (index + before.length) flaw) := by
  induction before generalizing index with
  | nil =>
    rw [List.nil_append, readElements, readElement_of_flawed hv]
    rfl
  | cons w before ih =>
    obtain ⟨⟨m, hm⟩, hbefore⟩ := List.forall_mem_cons.mp hbefore
    rw [List.cons_append, readElements, readElement_of_carries hm, ih hbefore (index + 1), List.length_cons,
      Nat.add_right_comm, Nat.add_assoc]
    rfl

/-- Either all of some values carry a message or one of them is the first that does not. -/
theorem all_carry_or_first_flawed (vs : List Json) :
    (∃ ms, List.Forall₂ Carries vs ms) ∨
      ∃ before v after flaw, vs = before ++ v :: after ∧ (∀ w ∈ before, ∃ m, Carries w m) ∧ Flawed v flaw := by
  induction vs with
  | nil => exact .inl ⟨[], .nil⟩
  | cons v vs ih =>
    rcases carries_or_flawed v with ⟨m, hm⟩ | ⟨flaw, hflaw⟩
    · rcases ih with ⟨ms, hms⟩ | ⟨before, w, after, flaw, rfl, hbefore, hw⟩
      · exact .inl ⟨m :: ms, .cons hm hms⟩
      · exact .inr ⟨v :: before, w, after, flaw, rfl, List.forall_mem_cons.mpr ⟨⟨m, hm⟩, hbefore⟩, hw⟩
    · exact .inr ⟨[], v, vs, flaw, rfl, by simp, hflaw⟩

/-! ## Texts -/

variable {text : String}

/-- A body that is accepted is parsed. -/
theorem parse_of_accepts (h : Accepts text ms) : parse text = .ok ms := by
  obtain ⟨fs, vs, htext, hevents, hvs⟩ := h
  simp only [parse, htext, read, Json.field?, hevents]
  exact readElements_of_carries hvs 0

/-- What stands against a body is the error that parsing gives. -/
theorem parse_of_stands {e : ResponseError} (h : e.Stands text) : parse text = .error e := by
  cases e with
  | unreadable => simp only [parse, show Json.parse? text = none from h]
  | noEvents =>
    obtain ⟨response, htext, hevents⟩ := h
    simp only [parse, htext, read, hevents]
  | notAnArray =>
    obtain ⟨response, events, htext, hevents, harray⟩ := h
    cases events with
    | arr vs => exact absurd rfl (harray vs)
    | _ => simp only [parse, htext, read, hevents]
  | element index flaw =>
    obtain ⟨response, before, v, after, htext, hevents, rfl, hbefore, hv⟩ := h
    simp only [parse, htext, read, hevents]
    rw [readElements_of_flawed hbefore hv 0, Nat.zero_add]

/-- Every body is accepted, or an error stands against it. -/
theorem accepts_or_stands (text : String) : (∃ ms, Accepts text ms) ∨ ∃ e : ResponseError, e.Stands text := by
  cases htext : Json.parse? text with
  | none => exact .inr ⟨.unreadable, htext⟩
  | some response =>
    cases hevents : response.field? "events" with
    | none => exact .inr ⟨.noEvents, response, htext, hevents⟩
    | some events =>
      by_cases harray : ∃ vs, events = .arr vs
      · obtain ⟨vs, rfl⟩ := harray
        rcases all_carry_or_first_flawed vs with ⟨ms, hms⟩ | ⟨before, v, after, flaw, rfl, hbefore, hv⟩
        · cases response with
          | obj fs => exact .inl ⟨ms, fs, vs, htext, hevents, hms⟩
          | _ => cases hevents
        · exact .inr ⟨.element before.length flaw, response, before, v, after, htext, hevents, rfl, hbefore, hv⟩
      · exact .inr ⟨.notAnArray, response, events, htext, hevents, not_exists.mp harray⟩

/-- Exactly the bodies that are accepted are parsed, to the messages that they are accepted with. -/
theorem parse_eq_ok_iff : parse text = .ok ms ↔ Accepts text ms := by
  refine ⟨?_, parse_of_accepts⟩
  intro h
  rcases accepts_or_stands text with ⟨ms', hms⟩ | ⟨e, he⟩
  · obtain rfl : ms' = ms := Except.ok.inj ((parse_of_accepts hms).symm.trans h)
    exact hms
  · cases (parse_of_stands he).symm.trans h

/-- Parsing fails exactly with the error that stands against the body. -/
theorem parse_eq_error_iff {e : ResponseError} : parse text = .error e ↔ e.Stands text := by
  refine ⟨?_, parse_of_stands⟩
  intro h
  rcases accepts_or_stands text with ⟨ms, hms⟩ | ⟨e', he⟩
  · cases (parse_of_accepts hms).symm.trans h
  · obtain rfl : e' = e := Except.error.inj ((parse_of_stands he).symm.trans h)
    exact he

/-! ## Responses that were written -/

/-- The message with its data as they are read where they were written. -/
def reread (m : Message) : Message := ⟨m.event, m.data.reread⟩

/-- The element that a message is written as. -/
def element (m : Message) : Json := .obj [("data", m.data), ("event", .str m.event)]

/-- Written messages are the elements of one list, under one property. -/
theorem write_eq (ms : List Message) : write ms = .obj [("events", .arr (ms.map element))] := by
  have hlt : "data" < "event" := by decide
  have helement : (fun m : Message => Json.mkObj [("event", .str m.event), ("data", m.data)]) = element := by
    funext m
    simp [Json.mkObj, Fields.ofList, Fields.set, element, hlt]
  rw [write, helement]
  rfl

/-- The elements of a response that carries messages with data carry them. -/
theorem carries_written (h : ∀ m ∈ ms, m.data ≠ .null) :
    List.Forall₂ Carries (ms.map element) ms := by
  induction ms with
  | nil => exact .nil
  | cons m ms ih =>
    obtain ⟨hm, hms⟩ := List.forall_mem_cons.mp h
    exact .cons ⟨_, rfl, rfl, rfl, hm⟩ (ih hms)

/-- A text that is read as written messages is accepted with these messages, if none is without data. -/
theorem accepts_of_parse?_eq (h : ∀ m ∈ ms, m.data ≠ .null) (htext : Json.parse? text = some (write ms)) : Accepts text ms :=
  ⟨_, _, write_eq ms ▸ htext, rfl, carries_written h⟩

/-- What elements are read back as are the elements of the messages with their data read back. -/
theorem rereadItems_element (ms : List Message) : Json.rereadItems (ms.map element) = (ms.map reread).map element := by
  induction ms with
  | nil => rfl
  | cons m ms ih =>
    rw [List.map_cons, Json.rereadItems, ih]
    rfl

/-- A response is read as the one that carries the messages with their data as they are read. -/
theorem reread_write (ms : List Message) : (write ms).reread = write (ms.map reread) := by
  simp only [write_eq, Json.reread, Json.rereadFields, rereadItems_element]

/-- Written messages can be held, if their data can. -/
theorem wellFormed_write (h : ∀ m ∈ ms, m.data.WellFormed) : (write ms).WellFormed := by
  have hitems : ∀ v ∈ ms.map element, v.WellFormed := by
    intro v hv
    obtain ⟨m, hm, rfl⟩ := List.mem_map.mp hv
    refine ⟨?_, h m hm, trivial, trivial⟩
    unfold Fields.Ascending
    simp only [List.pairwise_cons, List.mem_singleton, forall_eq]
    decide
  rw [write_eq]
  exact ⟨List.pairwise_singleton _ _, Json.wellFormedItems_iff.mpr hitems, trivial⟩

/-- A response nests three levels deeper than the data in it. -/
theorem depth_write_le_iff : (write ms).depth ≤ Json.maxDepth ↔ ∀ m ∈ ms, m.data.depth + 3 ≤ Json.maxDepth := by
  have helement (m : Message) : (element m).depth = m.data.depth + 1 := by
    simp [element, Json.depth, Json.depthFields]
  have hwrite : (write ms).depth = Json.depthItems (ms.map element) + 2 := by
    simp [write_eq, Json.depth, Json.depthFields]
  have hmax : Json.maxDepth = 125 + 2 := rfl
  rw [hwrite, hmax, Nat.add_le_add_iff_right, Json.depthItems_le_iff, List.forall_mem_map]
  simp only [helement]
  constructor
  · intro h m hm
    exact Nat.add_le_add_right (h m hm) 2
  · intro h m hm
    have hle := h m hm
    omega

/-- Data that is there is there when it is read back. -/
theorem reread_ne_null {v : Json} (h : v ≠ .null) : v.reread ≠ .null := by
  cases v with
  | null => exact absurd rfl h
  | _ => rintro ⟨⟩

/-- Written messages that do not nest too deeply are parsed again, with their data as it is read back. -/
theorem parse_text_write (hnull : ∀ m ∈ ms, m.data ≠ .null) (hwf : ∀ m ∈ ms, m.data.WellFormed)
    (hd : ∀ m ∈ ms, m.data.depth + 3 ≤ Json.maxDepth) : parse (write ms).text = .ok (ms.map reread) := by
  have htext := Json.parse?_text (wellFormed_write hwf) (depth_write_le_iff.mpr hd)
  rw [reread_write] at htext
  refine parse_of_accepts (accepts_of_parse?_eq ?_ htext)
  rw [List.forall_mem_map]
  intro m hm
  exact reread_ne_null (hnull m hm)

/-- If the data of one message nests too deeply, no written message is read back. -/
theorem parse_text_write_of_deep (hwf : ∀ m ∈ ms, m.data.WellFormed) (hd : ∃ m ∈ ms, Json.maxDepth < m.data.depth + 3) :
    parse (write ms).text = .error .unreadable := by
  obtain ⟨m, hm, hdeep⟩ := hd
  have hdepth : Json.maxDepth < (write ms).depth := by
    apply Nat.lt_of_not_le
    intro hle
    exact Nat.not_le_of_lt hdeep (depth_write_le_iff.mp hle m hm)
  exact parse_of_stands (Json.parse?_text_eq_none (wellFormed_write hwf) hdepth)

/-- **Polling responses are accepted exactly**, and as a whole or not at all.

1. A text is accepted exactly if it is the one of an object whose `events` are an array of objects, each with a string
   as its `event` and with `data` that are not null. The result is their messages, in order; other properties do not
   matter.
2. Any other text is refused. Where the events are an array, the refusal is for the first of them that carries no
   message, with its index, and for the first thing that is wrong with it.
3. The wording of such a refusal names the index and what is wrong.
4. A response that was written for messages with data is accepted and gives them back, if its text is read as it was
   written.
5. That is so but for doubles that are read as others, if the data nest at most 124 levels; if some nest deeper, then
   the text is not read. -/
theorem parse_exact :
    (∀ text ms, parse text = .ok ms ↔ Accepts text ms) ∧
      (∀ text e, parse text = .error e ↔ e.Stands text) ∧
      (∀ index property,
        (ResponseError.element index .null).message =
          "malformed polling response: " ++ ("null event at index " ++ toString index) ∧
          (ResponseError.element index .notAnObject).message =
            "malformed polling response: " ++ ("event at index " ++ toString index ++ " is not an object") ∧
          (ResponseError.element index (.missing property)).message =
            "malformed polling response: " ++
              ("event at index " ++ toString index ++ " missing required property '" ++ property ++ "'")) ∧
      (∀ ms : List Message, (∀ m ∈ ms, m.data ≠ .null) → Json.parse? (write ms).text = some (write ms) →
        parse (write ms).text = .ok ms) ∧
      (∀ ms : List Message, (∀ m ∈ ms, m.data ≠ .null) → (∀ m ∈ ms, m.data.WellFormed) →
        ((∀ m ∈ ms, m.data.depth + 3 ≤ Json.maxDepth) → parse (write ms).text = .ok (ms.map reread)) ∧
          ((∃ m ∈ ms, Json.maxDepth < m.data.depth + 3) → parse (write ms).text = .error .unreadable)) := by
  refine ⟨?_, ?_, ?_, ?_, ?_⟩
  · intro text ms
    exact parse_eq_ok_iff
  · intro text e
    exact parse_eq_error_iff
  · intro index property
    exact ⟨rfl, rfl, rfl⟩
  · intro ms hnull htext
    exact parse_of_accepts (accepts_of_parse?_eq hnull htext)
  · intro ms hnull hwf
    exact ⟨parse_text_write hnull hwf, parse_text_write_of_deep hwf⟩

/-- A response with a message that has one more property, then null, then a string. -/
def mixed : Json :=
  .obj [("events", .arr [.obj [("data", .obj []), ("event", .str "heartbeat"), ("id", .str "7")], .null, .str "goodbye"])]

theorem wellFormed_mixed : mixed.WellFormed := by
  have hascending : Fields.Ascending [("data", .obj []), ("event", .str "heartbeat"), ("id", .str "7")] := by
    unfold Fields.Ascending
    decide
  have hmessage : Json.WellFormed (.obj [("data", .obj []), ("event", .str "heartbeat"), ("id", .str "7")]) :=
    ⟨hascending, ⟨List.Pairwise.nil, trivial⟩, trivial, trivial, trivial⟩
  exact ⟨List.pairwise_singleton _ _, ⟨hmessage, trivial, trivial, trivial⟩, trivial⟩

/-- It is refused for the null, although a message comes before it and the string is no message either. The message
alone is taken. -/
theorem parse_exact_mixed :
    parse mixed.text = .error (.element 1 .null) ∧
      parse (write [⟨"heartbeat", .obj []⟩]).text = .ok [⟨"heartbeat", .obj []⟩] := by
  constructor
  · refine (parse_exact.2.1 _ _).mpr
      ⟨mixed, [.obj [("data", .obj []), ("event", .str "heartbeat"), ("id", .str "7")]], .null,
      [.str "goodbye"], Json.parse?_text wellFormed_mixed (by decide), rfl, rfl, ?_, rfl⟩
    exact List.forall_mem_singleton.mpr ⟨⟨"heartbeat", .obj []⟩, _, rfl, rfl, rfl, nofun⟩
  · refine (parse_exact.2.2.2.2 [⟨"heartbeat", .obj []⟩] ?_ ?_).1 ?_
    · exact List.forall_mem_singleton.mpr nofun
    · exact List.forall_mem_singleton.mpr ⟨List.Pairwise.nil, trivial⟩
    · decide

end FlagDelivery.Polling
