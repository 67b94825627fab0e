import FlagDelivery.Decimal.Binary

/-!
# JSON values

A `Json` value holds its numbers as exact integers or as doubles, and its objects as lists of fields in
ascending order of key with one field a key. `Fields.set` keeps that order: it puts a new key in its place
and gives an old key its new value, so a later field wins over an earlier one of the same name.
-/

namespace FlagDelivery

/-- A number: an integer, or a double written with a point or an exponent. -/
inductive Number where
  | int (value : Int)
  | float (value : Double)
  deriving DecidableEq, Inhabited

/-- A JSON value. -/
inductive Json where
  | null
  | bool (value : Bool)
  | num (value : Number)
  | str (value : String)
  | arr (items : List Json)
  | obj (fields : List (String × Json))
  deriving Inhabited

/-- The fields of an object in ascending order of key. -/
abbrev Fields := List (String × Json)

namespace Fields

/-- The value of a key. -/
def find? (key : String) (fs : Fields) : Option Json := fs.lookup key

/-- The fields with a key's value set; a new key goes to its place in the order. -/
def set (key : String) (value : Json) : Fields → Fields
  | [] => [(key, value)]
  | (k, v) :: fs =>
    if key < k then (key, value) :: (k, v) :: fs
    else if key = k then (key, value) :: fs
    else (k, v) :: set key value fs

/-- The fields of a list in any order; of two fields with one key the later wins. -/
def ofList (fs : List (String × Json)) : Fields := fs.foldl (fun acc f => set f.1 f.2 acc) []

/-- The first field decides, if it has the key. -/
theorem find?_cons (k : String) (f : String × Json) (fs : Fields) :
    find? k (f :: fs) = if k = f.1 then some f.2 else find? k fs := by
  obtain ⟨k', v⟩ := f
  by_cases h : k = k'
  · simp [find?, h]
  · simp [find?, List.lookup_cons, h, beq_false_of_ne h]

/-- Setting a key changes its value and no other. -/
theorem find?_set (key k : String) (value : Json) (fs : Fields) :
    find? k (set key value fs) = if k = key then some value else find? k fs := by
  induction fs with
  | nil => simp [set, find?_cons]
  | cons f fs ih =>
    obtain ⟨k', v⟩ := f
    unfold set
    split
    · simp only [find?_cons]
    · split
      · next h => subst h; simp only [find?_cons]; split <;> rfl
      · next h =>
        have h := Ne.symm h
        simp only [find?_cons, ih]
        split <;> simp_all

/-- Each field's key is below the keys of all later fields. -/
def Ascending (fs : Fields) : Prop := fs.Pairwise fun f g => f.1 < g.1

/-- A field after a key was set is the one that was set, or was there before. -/
theorem mem_of_mem_set {key : String} {value : Json} {fs : Fields} {f : String × Json} (h : f ∈ set key value fs) :
    f = (key, value) ∨ f ∈ fs := by
  induction fs with
  | nil => simpa [set] using h
  | cons g fs ih =>
    obtain ⟨k, v⟩ := g
    unfold set at h
    split at h
    · exact List.mem_cons.mp h
    · split at h
      · exact (List.mem_cons.mp h).imp id (List.mem_cons_of_mem _)
      · rcases List.mem_cons.mp h with rfl | h
        · exact .inr List.mem_cons_self
        · exact (ih h).imp id (List.mem_cons_of_mem _)

/-- Setting a key keeps the fields in order. -/
theorem Ascending.set {fs : Fields} (h : Ascending fs) (key : String) (value : Json) :
    Ascending (Fields.set key value fs) := by
  induction fs with
  | nil => simp [Fields.set, Ascending]
  | cons f fs ih =>
    obtain ⟨k, v⟩ := f
    obtain ⟨hk, hfs⟩ := List.pairwise_cons.mp h
    unfold Fields.set
    split
    · next hlt =>
      refine List.pairwise_cons.mpr ⟨fun g hg => ?_, h⟩
      rcases List.mem_cons.mp hg with rfl | hg
      · exact hlt
      · exact String.lt_trans hlt (hk g hg)
    · next hge =>
      split
      · next heq => subst heq; exact List.pairwise_cons.mpr ⟨hk, hfs⟩
      · next hne =>
        refine List.pairwise_cons.mpr ⟨fun g hg => ?_, ih hfs⟩
        rcases mem_of_mem_set hg with rfl | hg
        · exact Std.lt_of_le_of_ne (String.not_lt.mp hge) (Ne.symm hne)
        · exact hk g hg

/-- Fields taken from a list are in order. -/
theorem ascending_ofList (fs : List (String × Json)) : Ascending (ofList fs) := by
  suffices h : ∀ acc, Ascending acc → Ascending (fs.foldl (fun acc f => set f.1 f.2 acc) acc) from
    h [] List.Pairwise.nil
  induction fs with
  | nil => exact fun acc h => h
  | cons f fs ih => exact fun acc h => ih _ (h.set f.1 f.2)

/-- An object made of a list of fields has no other fields. -/
theorem mem_of_mem_ofList {fs : List (String × Json)} {f : String × Json} (h : f ∈ ofList fs) : f ∈ fs := by
  suffices hfold : ∀ acc : Fields, f ∈ fs.foldl (fun acc f => set f.1 f.2 acc) acc → f ∈ acc ∨ f ∈ fs from
    (hfold [] h).resolve_left List.not_mem_nil
  clear h
  induction fs with
  | nil => exact fun acc h => .inl h
  | cons g fs ih =>
    intro acc h
    rcases ih _ h with hset | hfs
    · rcases mem_of_mem_set hset with rfl | hacc
      · exact .inr List.mem_cons_self
      · exact .inl hacc
    · exact .inr (List.mem_cons_of_mem _ hfs)

end Fields

namespace Json

/-- An integer. -/
abbrev int (n : Int) : Json := .num (.int n)

/-- An object from fields in any order. -/
def mkObj (fs : List (String × Json)) : Json := .obj (Fields.ofList fs)

/-- The value under a key, if the value is an object that has it. -/
def field? (key : String) : Json → Option Json
  | .obj fs => Fields.find? key fs
  | _ => none

/-- The string, if the value is one. -/
def string? : Json → Option String
  | .str s => some s
  | _ => none

/-- The Boolean, if the value is one. -/
def bool? : Json → Option Bool
  | .bool b => some b
  | _ => none

/-- The integer fits 64 bits with a sign, as versions do. -/
def IsVersion (n : Int) : Prop := -9223372036854775808 ≤ n ∧ n ≤ 9223372036854775807

instance (n : Int) : Decidable (IsVersion n) := by unfold IsVersion; infer_instance

/-- The integer, if the value is one of signed 64 bits. -/
def version? : Json → Option Int
  | .num (.int n) => if IsVersion n then some n else none
  | _ => none

mutual

/-- Equality of values is decided by comparing them part by part. -/
def decEq : (a b : Json) → Decidable (a = b)
  | .null, b => match b with
    | .null => .isTrue rfl
    | .bool _ | .num _ | .str _ | .arr _ | .obj _ => .isFalse nofun
  | .bool x, b => match b with
    | .bool y => decidable_of_iff (x = y) (by simp)
    | .null | .num _ | .str _ | .arr _ | .obj _ => .isFalse nofun
  | .num x, b => match b with
    | .num y => decidable_of_iff (x = y) (by simp)
    | .null | .bool _ | .str _ | .arr _ | .obj _ => .isFalse nofun
  | .str x, b => match b with
    | .str y => decidable_of_iff (x = y) (by simp)
    | .null | .bool _ | .num _ | .arr _ | .obj _ => .isFalse nofun
  | .arr xs, b => match b with
    | .arr ys => match decEqItems xs ys with
      | .isTrue h => .isTrue (by rw [h])
      | .isFalse h => .isFalse (by simpa using h)
    | .null | .bool _ | .num _ | .str _ | .obj _ => .isFalse nofun
  | .obj xs, b => match b with
    | .obj ys => match decEqFields xs ys with
      | .isTrue h => .isTrue (by rw [h])
      | .isFalse h => .isFalse (by simpa using h)
    | .null | .bool _ | .num _ | .str _ | .arr _ => .isFalse nofun

/-- Equality of the items of two arrays. -/
def decEqItems : (xs ys : List Json) → Decidable (xs = ys)
  | [], ys => match ys with
    | [] => .isTrue rfl
    | _ :: _ => .isFalse nofun
  | x :: xs, ys => match ys with
    | [] => .isFalse nofun
    | y :: ys => match decEq x y, decEqItems xs ys with
      | .isTrue h, .isTrue h' => .isTrue (by rw [h, h'])
      | .isFalse h, _ => .isFalse (by simp [h])
      | _, .isFalse h => .isFalse (by simp [h])

/-- Equality of the fields of two objects. -/
def decEqFields : (xs ys : List (String × Json)) → Decidable (xs = ys)
  | [], ys => match ys with
    | [] => .isTrue rfl
    | _ :: _ => .isFalse nofun
  | (k, x) :: xs, ys => match ys with
    | [] => .isFalse nofun
    | (k', y) :: ys => match decEq x y, decEqFields xs ys with
      | .isTrue h, .isTrue h' => if hk : k = k' then .isTrue (by rw [h, h', hk]) else .isFalse (by simp [hk])
      | .isFalse h, _ => .isFalse (by simp [h])
      | _, .isFalse h => .isFalse (by simp [h])

end

instance : DecidableEq Json := decEq

end Json

end FlagDelivery
