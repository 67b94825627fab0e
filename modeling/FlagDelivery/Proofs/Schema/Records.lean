import FlagDelivery.Event.Body

/-!
# What a record is read from

`Format.record` reads an object or an array. Either way each of the record's values was read in its column's format from
a part of the value, or is what the column has where nothing is there: `Format.from_record`. For a put this says that
its object is a part of the body, `Format.of_read_put`.
-/

namespace FlagDelivery

/-- A part of an object or of an array. -/
def Json.HasPart : Json → Json → Prop
  | .obj fs, part => ∃ key, (key, part) ∈ fs
  | .arr vs, part => part ∈ vs
  | _, _ => False

/-- A field that is found is one of the fields. -/
theorem Fields.mem_of_find? {key : String} {value : Json} {fs : Fields} (h : Fields.find? key fs = some value) :
    (key, value) ∈ fs := by
  obtain ⟨before, after, rfl, -⟩ := List.lookup_eq_some_iff.mp h
  simp

namespace Format

variable {ε α β : Type}

/-- A reader that goes on with what another one read succeeds only if both do. -/
theorem ok_of_bind {x : Except ε α} {f : α → Except ε β} {b : β} (h : x >>= f = .ok b) : ∃ a, x = .ok a ∧ f a = .ok b := by
  cases x with
  | error e => cases h
  | ok a => exact ⟨a, rfl, h⟩

/-- A function of a result succeeds only on a success. -/
theorem ok_of_map {x : Except ε α} {f : α → β} {b : β} (h : f <$> x = .ok b) : ∃ a, x = .ok a ∧ f a = b := by
  cases x with
  | error e => cases h
  | ok a => exact ⟨a, rfl, Except.ok.inj h⟩

end Format

namespace Columns

/-- Each value of a row was read in its column's format from a value with a property, or is what the column has for
nothing. -/
def From (p : Json → Prop) : {αs : List Type} → Columns αs → Row αs → Prop
  | [], _, _ => True
  | _ :: _, (c, cs), (a, row) => ((∃ v, p v ∧ c.format.read v = .ok a) ∨ c.absent = some a) ∧ From p cs row

variable {p : Json → Prop} {αs : List Type}

/-- The cells of a row that is read from fields come from their values. -/
theorem from_readFields {fs : Fields} (hp : ∀ f ∈ fs, p f.2) {cs : Columns αs} {row : Row αs}
    (h : readFields fs cs = .ok row) : From p cs row := by
  induction αs with
  | nil => trivial
  | cons α αs ih =>
    obtain ⟨c, cs⟩ := cs
    simp only [readFields] at h
    cases hf : Fields.find? c.name fs with
    | some v =>
      simp only [hf] at h
      obtain ⟨a, ha, h⟩ := Format.ok_of_bind h
      obtain ⟨rest, hrest, h⟩ := Format.ok_of_bind h
      obtain rfl := Except.ok.inj h
      exact ⟨.inl ⟨v, hp _ (Fields.mem_of_find? hf), ha⟩, ih hrest⟩
    | none =>
      cases hc : c.absent with
      | none =>
        simp only [hf, hc] at h
        cases h
      | some a =>
        simp only [hf, hc] at h
        obtain ⟨a, ha, h⟩ := Format.ok_of_bind h
        obtain ⟨rest, hrest, h⟩ := Format.ok_of_bind h
        obtain rfl := Except.ok.inj ha
        obtain rfl := Except.ok.inj h
        exact ⟨.inr hc, ih hrest⟩

/-- A row is read from items cell by cell; the cell of a missing item is absent, or the items are too few. -/
theorem readItems_cons {α : Type} (record : String) (width done : Nat) (c : Column α) (cs : Columns αs) (vs : List Json) :
    @readItems record width done (α :: αs) (c, cs) vs =
      (match vs, c.absent with
        | v :: _, _ => c.format.read v
        | [], some a => .ok a
        | [], none => .error (.tooShort done record width)) >>= fun a =>
      readItems record width (done + 1) cs vs.tail >>= fun read => .ok ((a, read.1), read.2) := by
  cases vs with
  | cons v vs => rfl
  | nil => cases hc : c.absent <;> simp only [readItems, hc] <;> rfl

/-- The cells of a row that is read from items come from these items. -/
theorem from_readItems {record : String} {width done : Nat} {vs : List Json} (hp : ∀ v ∈ vs, p v) {cs : Columns αs}
    {row : Row αs} {extra : Nat} (h : readItems record width done cs vs = .ok (row, extra)) : From p cs row := by
  induction αs generalizing vs done extra with
  | nil => trivial
  | cons α αs ih =>
    obtain ⟨c, cs⟩ := cs
    obtain ⟨a, ha, h⟩ := Format.ok_of_bind ((readItems_cons record width done c cs vs).symm.trans h)
    obtain ⟨⟨rest, left⟩, hrest, h⟩ := Format.ok_of_bind h
    obtain ⟨rfl, -⟩ := Prod.mk.inj (Except.ok.inj h)
    refine ⟨?_, ih (fun v hv => hp v (List.mem_of_mem_tail hv)) hrest⟩
    cases vs with
    | cons v vs => exact .inl ⟨v, hp v List.mem_cons_self, ha⟩
    | nil =>
      cases hc : c.absent with
      | none =>
        simp only [hc] at ha
        cases ha
      | some a' =>
        simp only [hc] at ha
        exact .inr (congrArg some (Except.ok.inj ha))

end Columns

namespace Format

/-- The values of a record were read from the parts of a value. -/
theorem from_record {name : String} {αs : List Type} {cs : Columns αs} {v : Json} {row : Row αs}
    (h : (record name αs cs).read v = .ok row) : cs.From v.HasPart row := by
  cases v with
  | obj fs =>
    obtain ⟨-, -, h⟩ := ok_of_bind h
    exact Columns.from_readFields (fun f hf => ⟨f.1, hf⟩) h
  | arr vs =>
    obtain ⟨⟨row', extra⟩, hitems, h⟩ := ok_of_bind h
    simp only at h
    split at h
    · obtain rfl := Except.ok.inj h
      exact Columns.from_readItems (fun v hv => hv) hitems
    · cases h
  | _ => cases h

/-- What is read as a version is one. -/
theorem isVersion_of_read {v : Json} {n : Int} (h : version.read v = .ok n) : Json.IsVersion n := by
  cases v with
  | num x =>
    cases x with
    | int m =>
      simp only [version] at h
      split at h
      · next hm => exact Except.ok.inj h ▸ hm
      · cases h
    | float _ => cases h
  | _ => cases h

/-- A put has a version that fits, and its object is a part of the body. -/
theorem of_read_put {v : Json} {p : Put} (h : put.read v = .ok p) : Json.IsVersion p.version ∧ v.HasPart p.object := by
  obtain ⟨⟨kind, key, version, object, u⟩, hrow, rfl⟩ := ok_of_map h
  obtain ⟨-, -, hversion, hobject, -⟩ := from_record hrow
  obtain ⟨w, -, hw⟩ := hversion.resolve_right nofun
  obtain ⟨object', hpart, hobject⟩ := hobject.resolve_right nofun
  obtain rfl : object' = object := Except.ok.inj hobject
  exact ⟨isVersion_of_read hw, hpart⟩

/-- A deletion has a version that fits. -/
theorem of_read_delete {v : Json} {d : Delete} (h : delete.read v = .ok d) : Json.IsVersion d.version := by
  obtain ⟨row, hrow, rfl⟩ := ok_of_map h
  obtain ⟨-, -, hversion, -⟩ := from_record hrow
  obtain ⟨w, -, hw⟩ := hversion.resolve_right nofun
  exact isVersion_of_read hw

end Format

end FlagDelivery
