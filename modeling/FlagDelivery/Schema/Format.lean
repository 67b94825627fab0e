import FlagDelivery.Schema.Mismatch

/-!
# Formats of values and records

A `Format` reads a type from JSON and writes it back. A record is given by its columns; it is read from an
object, whose entries are checked in ascending order of key before a missing column is looked for, or from
an array of its columns' values in order. `Format.Stable` says that writing what was read and reading it again
gives the same.
-/

namespace FlagDelivery

/-- How a type is read from JSON and written to it. -/
structure Format (α : Type) where
  read : Json → Except Mismatch α
  write : α → Json

namespace Format

variable {α : Type}

/-- What was read once is written so that it reads the same again. -/
def Stable (f : Format α) : Prop := ∀ v a, f.read v = .ok a → f.read (f.write a) = .ok a

/-- Any JSON value. -/
def any : Format Json where
  read v := .ok v
  write v := v

/-- A string. -/
def text : Format String where
  read
    | .str s => .ok s
    | v => .error (.wrongType v "a string")
  write := .str

/-- A string, or null for none. -/
def optionalText : Format (Option String) where
  read
    | .null => .ok none
    | v => some <$> text.read v
  write
    | none => .null
    | some s => .str s

/-- An integer of signed 64 bits. -/
def version : Format Int where
  read
    | .num (.int n) => if Json.IsVersion n then .ok n else .error (.outOfRange n)
    | v => .error (.wrongType v "i64")
  write := .int

/-- An array whose items have one format. -/
def list (f : Format α) : Format (List α) where
  read
    | .arr vs => vs.mapM f.read
    | v => .error (.wrongType v "a sequence")
  write as := .arr (as.map f.write)

/-- The format of a type with the same content as another. -/
def map {β : Type} (f : Format α) (get : α → β) (put : β → α) : Format β where
  read v := get <$> f.read v
  write b := f.write (put b)

end Format

namespace Format

/-- Any value reads as it was written. -/
theorem stable_any : any.Stable := fun _ _ _ => rfl

theorem stable_text : text.Stable := fun _ _ _ => rfl

theorem stable_optionalText : optionalText.Stable := by
  intro _ s _
  cases s <;> rfl

theorem stable_version : version.Stable := by
  intro v n h
  cases v with
  | num x =>
    cases x with
    | int m =>
      by_cases hm : Json.IsVersion m
      · simp only [version, hm, if_true, Except.ok.injEq] at h
        subst h
        simp [version, hm]
      · simp [version, hm] at h
    | float _ => simp [version] at h
  | null | bool _ | str _ | arr _ | obj _ => simp [version] at h

/-- A format seen through a change of type is stable if going there and back changes nothing. -/
theorem Stable.map {α β : Type} {f : Format α} (hf : f.Stable) (get : α → β) (put : β → α)
    (hput : ∀ a, put (get a) = a) : (f.map get put).Stable := by
  intro v b h
  simp only [Format.map] at h ⊢
  cases ha : f.read v with
  | error e => simp [ha, Functor.map, Except.map] at h
  | ok a =>
    simp only [ha, Functor.map, Except.map, Except.ok.injEq] at h
    subst h
    rw [hput, hf v a ha]
    rfl

end Format

/-- A named part of a record. A column with an `absent` value may be left out, and is left out on writing
where `omits` holds. -/
structure Column (α : Type) where
  name : String
  format : Format α
  absent : Option α
  omits : α → Bool

namespace Column

/-- A column that is always there. -/
def required {α : Type} (name : String) (format : Format α) : Column α := ⟨name, format, none, fun _ => false⟩

/-- A column that may be left out for none, and is written as null then. -/
def optional (name : String) : Column (Option String) := ⟨name, .optionalText, some none, fun _ => false⟩

/-- A column that may be left out for none, and is left out then. -/
def omissible (name : String) : Column (Option String) := ⟨name, .optionalText, some none, Option.isNone⟩

end Column

/-- The values of a record's columns. -/
def Row : List Type → Type
  | [] => Unit
  | α :: αs => α × Row αs

/-- The columns of a record, in declaration order. -/
def Columns : List Type → Type
  | [] => Unit
  | α :: αs => Column α × Columns αs

namespace Columns

/-- What is wrong with the value of an entry, if its key is a column's name. -/
def check (key : String) (value : Json) : {αs : List Type} → Columns αs → Except Mismatch Unit
  | [], _ => .ok ()
  | _ :: _, (c, cs) => if c.name = key then (fun _ => ()) <$> c.format.read value else check key value cs

/-- The columns' values from the fields of an object. -/
def readFields (fs : Fields) : {αs : List Type} → Columns αs → Except Mismatch (Row αs)
  | [], _ => .ok ()
  | _ :: _, (c, cs) => do
    let value ← match Fields.find? c.name fs, c.absent with
      | some v, _ => c.format.read v
      | none, some a => .ok a
      | none, none => .error (.missing c.name)
    return (value, ← readFields fs cs)

/-- The columns' values from the first items of an array, and the number of items left over. The record has
`width` columns, `done` of which come before these. -/
def readItems (record : String) (width done : Nat) :
    {αs : List Type} → Columns αs → List Json → Except Mismatch (Row αs × Nat)
  | [], _, vs => .ok ((), vs.length)
  | _ :: _, (c, cs), vs => do
    let value ← match vs, c.absent with
      | v :: _, _ => c.format.read v
      | [], some a => .ok a
      | [], none => .error (.tooShort done record width)
    let (row, extra) ← readItems record width (done + 1) cs vs.tail
    return ((value, row), extra)

/-- The fields that a record is written as, in declaration order. -/
def write : {αs : List Type} → Columns αs → Row αs → List (String × Json)
  | [], _, _ => []
  | _ :: _, (c, cs), (a, row) =>
    if c.omits a then write cs row else (c.name, c.format.write a) :: write cs row

end Columns

namespace Format

/-- The format of a record: an object with the columns' names as keys, other keys being ignored, or an array
of the columns' values. -/
def record (name : String) (αs : List Type) (columns : Columns αs) : Format (Row αs) where
  read
    | .obj fs => do
      fs.forM fun f => columns.check f.1 f.2
      columns.readFields fs
    | .arr vs => do
      let (row, extra) ← columns.readItems name αs.length 0 vs
      if extra = 0 then return row else throw (.tooLong vs.length)
    | v => .error (.wrongType v ("struct " ++ name))
  write row := Json.mkObj (columns.write row)

end Format

end FlagDelivery
