import FlagDelivery.Json.Text
import FlagDelivery.Proofs.Json.Doubles

/-!
# What is written is read

`Json.parse?_text` says that a value's text is read as the value, except that a double may be read as another one, where
the value is one that a program can hold, `Json.WellFormed`, and does not nest too deeply.
-/

namespace FlagDelivery

namespace Fields

/-- A key above all others goes to the end. -/
theorem set_of_below {fs : Fields} {key : String} (h : ∀ f ∈ fs, f.1 < key) (value : Json) :
    set key value fs = fs ++ [(key, value)] := by
  induction fs with
  | nil => rfl
  | cons f fs ih =>
    obtain ⟨k, v⟩ := f
    have hk : k < key := h (k, v) List.mem_cons_self
    have hn : ¬key < k := fun h => String.lt_irrefl _ (String.lt_trans hk h)
    have hne : key ≠ k := fun h => String.lt_irrefl k (h ▸ hk)
    rw [set, if_neg hn, if_neg hne, ih fun f hf => h f (List.mem_cons_of_mem _ hf)]
    rfl

/-- Fields that are in order are taken as they are. -/
theorem ofList_of_ascending {fs : Fields} (h : Ascending fs) : ofList fs = fs := by
  suffices ∀ (fs acc : Fields), Ascending (acc ++ fs) → fs.foldl (fun acc f => set f.1 f.2 acc) acc = acc ++ fs from
    this fs [] h
  intro fs
  induction fs with
  | nil =>
    intro acc _
    exact (List.append_nil acc).symm
  | cons f fs ih =>
    intro acc h
    have hb : ∀ g ∈ acc, g.1 < f.1 := fun g hg => (List.pairwise_append.mp h).2.2 g hg f List.mem_cons_self
    rw [List.foldl_cons, set_of_below hb, ih, List.append_assoc]
    · rfl
    · rwa [List.append_assoc]

end Fields

namespace Json

mutual

/-- The value that is read where a value was written. -/
def reread : Json → Json
  | .num n => .num n.reread
  | .arr vs => .arr (rereadItems vs)
  | .obj fs => .obj (rereadFields fs)
  | v => v

def rereadItems : List Json → List Json
  | [] => []
  | v :: vs => v.reread :: rereadItems vs

def rereadFields : List (String × Json) → List (String × Json)
  | [] => []
  | (k, v) :: fs => (k, v.reread) :: rereadFields fs

end

mutual

/-- The fields of all objects are in order, and all numbers fit 64 bits. -/
def WellFormed : Json → Prop
  | .num n => n.Fits
  | .arr vs => WellFormedItems vs
  | .obj fs => Fields.Ascending fs ∧ WellFormedFields fs
  | _ => True

def WellFormedItems : List Json → Prop
  | [] => True
  | v :: vs => v.WellFormed ∧ WellFormedItems vs

def WellFormedFields : List (String × Json) → Prop
  | [] => True
  | (_, v) :: fs => v.WellFormed ∧ WellFormedFields fs

end

/-! ## Tokens -/

open Token

/-- The tokens of further items begin with a character that ends the token before them. -/
theorem breaks_itemTokens (vs : List Json) (rest : List Char) : Breaks ((itemTokens vs).flatMap Token.chars ++ rest) := by
  cases vs <;> rintro c cs ⟨⟩ <;> exact ⟨rfl, rfl⟩

theorem breaks_fieldTokens (fs : List (String × Json)) (rest : List Char) :
    Breaks ((fieldTokens fs).flatMap Token.chars ++ rest) := by
  rcases fs with _ | ⟨⟨k, v⟩, fs⟩ <;> rintro c cs ⟨⟩ <;> exact ⟨rfl, rfl⟩

/-- A token alone, and what follows it. -/
theorem scan?_single {t : Token} (ht : t.Legible) {rest : List Char} (hr : t.isGreedy = true → Breaks rest) {ts : List Token}
    (hs : scan? rest = some ts) : scan? ([t].flatMap Token.chars ++ rest) = some (t.reread :: ts) := by
  simpa using scan?_chars_append ht hr hs

/-- A mark is scanned as itself, whatever follows. -/
theorem scan?_cons {t : Token} (hl : t.Legible) (hg : t.isGreedy = false) {us : List Token} {rest : List Char}
    {ts : List Token} (hs : scan? (us.flatMap Token.chars ++ rest) = some ts) :
    scan? ((t :: us).flatMap Token.chars ++ rest) = some (t.reread :: ts) := by
  rw [List.flatMap_cons, List.append_assoc]
  exact scan?_chars_append hl (by simp [hg]) hs

mutual

/-- A value's text is scanned into the tokens of what is read for it. -/
theorem scan?_tokens :
    ∀ (v : Json), v.WellFormed → ∀ {rest : List Char} {ts : List Token}, Breaks rest → scan? rest = some ts →
    scan? (v.tokens.flatMap Token.chars ++ rest) = some (v.reread.tokens ++ ts)
  | .null, _, _, _, hr, hs => scan?_single (t := .null) trivial (fun _ => hr) hs
  | .bool b, _, _, _, hr, hs => scan?_single (t := .bool b) trivial (fun _ => hr) hs
  | .num n, hv, _, _, hr, hs => scan?_single (t := .num n) hv.legible (fun _ => hr) hs
  | .str s, _, _, _, hr, hs => scan?_single (t := .str s) trivial (fun _ => hr) hs
  | .arr [], _, _, _, hr, hs =>
    scan?_cons (t := .openArray) trivial rfl (scan?_single (t := .closeArray) trivial (fun _ => hr) hs)
  | .arr (v :: vs), hv, rest, ts, _, hs => by
    have hi := scan?_tokens v hv.1 (breaks_itemTokens vs rest) (scan?_itemTokens vs hv.2 hs)
    simp only [tokens, reread, rereadItems, List.cons_append, List.append_assoc]
    refine scan?_cons (t := .openArray) trivial rfl ?_
    rw [List.flatMap_append, List.append_assoc]
    exact hi
  | .obj [], _, _, _, hr, hs =>
    scan?_cons (t := .openObject) trivial rfl (scan?_single (t := .closeObject) trivial (fun _ => hr) hs)
  | .obj ((k, v) :: fs), hv, rest, ts, _, hs => by
    have hi := scan?_tokens v hv.2.1 (breaks_fieldTokens fs rest) (scan?_fieldTokens fs hv.2.2 hs)
    simp only [tokens, reread, rereadFields, List.cons_append, List.append_assoc]
    refine scan?_cons (t := .openObject) trivial rfl ?_
    refine scan?_cons (t := .str k) trivial rfl ?_
    refine scan?_cons (t := .colon) trivial rfl ?_
    rw [List.flatMap_append, List.append_assoc]
    exact hi

/-- The text of items is scanned as the tokens of the items that are read back. -/
theorem scan?_itemTokens :
    ∀ (vs : List Json), WellFormedItems vs → ∀ {rest : List Char} {ts : List Token}, scan? rest = some ts →
    scan? ((itemTokens vs).flatMap Token.chars ++ rest) = some (itemTokens (rereadItems vs) ++ ts)
  | [], _, _, _, hs => scan?_single (t := .closeArray) trivial nofun hs
  | v :: vs, hv, rest, ts, hs => by
    have hi := scan?_tokens v hv.1 (breaks_itemTokens vs rest) (scan?_itemTokens vs hv.2 hs)
    simp only [itemTokens, rereadItems, List.cons_append, List.append_assoc]
    refine scan?_cons (t := .comma) trivial rfl ?_
    rw [List.flatMap_append, List.append_assoc]
    exact hi

/-- The text of fields is scanned as the tokens of the fields that are read back. -/
theorem scan?_fieldTokens : ∀ (fs : List (String × Json)), WellFormedFields fs → ∀ {rest : List Char} {ts : List Token},
    scan? rest = some ts → scan? ((fieldTokens fs).flatMap Token.chars ++ rest) = some (fieldTokens (rereadFields fs) ++ ts)
  | [], _, _, _, hs => scan?_single (t := .closeObject) trivial nofun hs
  | (k, v) :: fs, hv, rest, ts, hs => by
    have hi := scan?_tokens v hv.1 (breaks_fieldTokens fs rest) (scan?_fieldTokens fs hv.2 hs)
    simp only [fieldTokens, rereadFields, List.cons_append, List.append_assoc]
    refine scan?_cons (t := .comma) trivial rfl ?_
    refine scan?_cons (t := .str k) trivial rfl ?_
    refine scan?_cons (t := .colon) trivial rfl ?_
    rw [List.flatMap_append, List.append_assoc]
    exact hi

end

/-! ## Values -/

/-- Fields are read back one by one, under their own keys. -/
theorem rereadFields_eq_map (fs : Fields) : rereadFields fs = fs.map fun f => (f.1, f.2.reread) := by
  induction fs with
  | nil => rfl
  | cons f fs ih => rw [rereadFields, ih, List.map_cons]

/-- Fields that are read back stay in order. -/
theorem ascending_rereadFields {fs : Fields} (h : Fields.Ascending fs) : Fields.Ascending (rereadFields fs) := by
  rw [rereadFields_eq_map]
  exact List.pairwise_map.mpr h

/-- No value starts with the end of an array. -/
theorem tokens_cons (v : Json) : ∃ t ts, v.tokens = t :: ts ∧ t ≠ .closeArray := by
  rcases v with _ | b | n | s | (_ | ⟨v, vs⟩) | (_ | ⟨⟨k, v⟩, fs⟩) <;> exact ⟨_, _, rfl, nofun⟩

/-- There is at least one token for each item. -/
theorem length_itemTokens (vs : List Json) : vs.length ≤ (itemTokens vs).length := by
  induction vs with
  | nil => simp
  | cons v vs ih =>
    simp only [itemTokens, List.length_cons, List.length_append]
    omega

theorem length_fieldTokens (fs : List (String × Json)) : fs.length ≤ (fieldTokens fs).length := by
  induction fs with
  | nil => simp
  | cons f fs ih =>
    simp only [fieldTokens, List.length_cons, List.length_append]
    omega

theorem length_rereadItems (vs : List Json) : (rereadItems vs).length = vs.length := by
  induction vs with
  | nil => rfl
  | cons v vs ih => rw [rereadItems, List.length_cons, List.length_cons, ih]

theorem length_rereadFields (fs : List (String × Json)) : (rereadFields fs).length = fs.length := by
  rw [rereadFields_eq_map, List.length_map]

mutual

/-- The tokens of a value that does not nest too deeply are read as the value. -/
theorem readValue_tokens : ∀ (v : Json), v.WellFormed → ∀ (bound : Nat), v.depth ≤ bound → ∀ (ts : List Token),
    readValue bound (v.reread.tokens ++ ts) = some (v.reread, ts)
  | .null, _, _, _, _ => by simp [reread, tokens, readValue]
  | .bool b, _, _, _, _ => by simp [reread, tokens, readValue]
  | .num n, _, _, _, _ => by simp [reread, tokens, readValue]
  | .str s, _, _, _, _ => by simp [reread, tokens, readValue]
  | .arr [], _, bound + 1, _, _ => rfl
  | .arr (v :: vs), hv, bound + 1, hd, ts => by
    simp only [depth, depthItems] at hd
    have hf := readValue_tokens v hv.1 bound (by omega) (itemTokens (rereadItems vs) ++ ts)
    have hl := length_itemTokens (rereadItems vs)
    rw [length_rereadItems] at hl
    have hi := readItems_tokens vs hv.2 bound (itemTokens (rereadItems vs) ++ ts).length (by omega)
      (by rw [List.length_append]; omega) ts
    -- No value begins with a closing bracket, so that the array is not taken for the empty one.
    obtain ⟨t, us, ht, hne⟩ := tokens_cons v.reread
    simp only [reread, rereadItems, tokens, List.cons_append, List.append_assoc]
    rw [readValue, hf]
    · simp only [Option.bind_eq_bind, Option.bind_some, hi]
      rfl
    · intro us' hus
      rw [ht] at hus
      exact hne (List.cons.inj hus).1
  | .obj [], _, bound + 1, _, _ => rfl
  | .obj ((k, v) :: fs), hv, bound + 1, hd, ts => by
    simp only [depth, depthFields] at hd
    have hf := readValue_tokens v hv.2.1 bound (by omega) (fieldTokens (rereadFields fs) ++ ts)
    have hl := length_fieldTokens (rereadFields fs)
    rw [length_rereadFields] at hl
    have hi := readFields_tokens fs hv.2.2 bound (fieldTokens (rereadFields fs) ++ ts).length (by omega)
      (by rw [List.length_append]; omega) ts
    have ho := Fields.ofList_of_ascending (ascending_rereadFields hv.1)
    simp only [reread, rereadFields, tokens, List.cons_append, List.append_assoc] at ho ⊢
    rw [readValue, readField, hf]
    · simp only [Option.map_some, Option.bind_eq_bind, Option.bind_some, hi, mkObj, ho]
      rfl
    · exact nofun

/-- Items that nest within the bound are read from their tokens. -/
theorem readItems_tokens :
    ∀ (vs : List Json), WellFormedItems vs → ∀ (bound fuel : Nat), depthItems vs ≤ bound → vs.length ≤ fuel →
    ∀ (ts : List Token), readItems (readValue bound) fuel (itemTokens (rereadItems vs) ++ ts) = some (rereadItems vs, ts)
  | [], _, _, _, _, _, _ => by simp [rereadItems, itemTokens, readItems]
  | v :: vs, hv, bound, fuel + 1, hd, hl, ts => by
    simp only [depthItems] at hd
    have hf := readValue_tokens v hv.1 bound (by omega) (itemTokens (rereadItems vs) ++ ts)
    have hi := readItems_tokens vs hv.2 bound fuel (by omega) (Nat.le_of_succ_le_succ hl) ts
    simp only [rereadItems, itemTokens, List.cons_append, List.append_assoc]
    rw [readItems, hf]
    simp only [Option.bind_eq_bind, Option.bind_some, hi]
    rfl

/-- Fields that nest within the bound are read from their tokens. -/
theorem readFields_tokens :
    ∀ (fs : List (String × Json)), WellFormedFields fs → ∀ (bound fuel : Nat), depthFields fs ≤ bound →
    fs.length ≤ fuel → ∀ (ts : List Token),
    readFields (readValue bound) fuel (fieldTokens (rereadFields fs) ++ ts) = some (rereadFields fs, ts)
  | [], _, _, _, _, _, _ => by simp [rereadFields, fieldTokens, readFields]
  | (k, v) :: fs, hv, bound, fuel + 1, hd, hl, ts => by
    simp only [depthFields] at hd
    have hf := readValue_tokens v hv.1 bound (by omega) (fieldTokens (rereadFields fs) ++ ts)
    have hi := readFields_tokens fs hv.2 bound fuel (by omega) (Nat.le_of_succ_le_succ hl) ts
    simp only [rereadFields, fieldTokens, List.cons_append, List.append_assoc]
    rw [readFields, readField, hf]
    simp only [Option.map_some, Option.bind_eq_bind, Option.bind_some, hi]
    rfl

end

/-- A value's text is read as the value, but for doubles that are read as others. -/
theorem parse?_text {v : Json} (hv : v.WellFormed) (hd : v.depth ≤ maxDepth) : parse? v.text = some v.reread := by
  have hs : Token.scan? v.chars = some v.reread.tokens := by
    simpa [chars] using scan?_tokens v hv breaks_nil scan?_nil
  have hr := readValue_tokens v hv maxDepth hd []
  rw [List.append_nil] at hr
  simp only [parse?, parseWithin?, text, String.toList_ofList, hs, Option.bind_eq_bind, Option.bind_some, hr]
  rfl

end Json

end FlagDelivery
