import FlagDelivery.Json.Token

/-!
# What is written is scanned

`Token.scan?_chars_append` says that the text of a token is cut off a text that goes on with something else: a string is
read as it was written, and so is an integer that fits 64 bits. A double is read as `Number.reread` says, which may be
another one; `Number.Legible` says that it is read as some number at all.
-/

namespace FlagDelivery

/-- A run of characters of one sort ends where another sort begins. -/
theorem span_append (p : Char → Bool) (cs rest : List Char) (hc : ∀ c ∈ cs, p c = true)
    (hr : ∀ c cs', rest = c :: cs' → p c = false) :
    (cs ++ rest).takeWhile p = cs ∧ (cs ++ rest).dropWhile p = rest := by
  rw [List.takeWhile_append_of_pos hc, List.dropWhile_append_of_pos hc]
  cases rest with
  | nil => simp
  | cons c cs' => simp [hr c cs' rfl]

namespace Number

/-! ## Number literals -/

/-- The number that is read where a number was written. -/
def reread (n : Number) : Number := (ofChars? n.chars).getD n

/-- What is written for the number is read as some number. -/
def Legible (n : Number) : Prop := (ofChars? n.chars).isSome

instance (n : Number) : Decidable n.Legible := by unfold Legible; infer_instance

/-- The digits of a number are digits of this number. -/
theorem ofDigits_toDigits (n : Nat) : ofDigits (Nat.toDigits 10 n) = n := Nat.ofDigitChars_ten_toDigits

theorem isDigit_toDigits (n : Nat) : ∀ c ∈ Nat.toDigits 10 n, c.isDigit = true :=
  fun _ h => Nat.isDigit_of_mem_toDigits (by decide) (by decide) h

/-- The digits of a number begin with zero only if it is zero. -/
theorem head?_toDigits {n : Nat} (h : (Nat.toDigits 10 n).head? = some '0') : Nat.toDigits 10 n = ['0'] := by
  induction n using Nat.strongRecOn with
  | ind n ih =>
    by_cases hn : n < 10
    · rw [Nat.toDigits_of_lt_base hn] at h ⊢
      simpa using h
    · rw [Nat.toDigits_of_base_le (by decide) (by omega)] at h ⊢
      have hne : Nat.toDigits 10 (n / 10) ≠ [] := Nat.toDigits_ne_nil
      rw [List.head?_append, List.head?_eq_some_head hne, Option.some_or, ← List.head?_eq_some_head hne] at h
      have hz := ih (n / 10) (by omega) h
      have hv := ofDigits_toDigits (n / 10)
      rw [hz] at hv
      have : ofDigits ['0'] = 0 := rfl
      omega

/-- The parts of a literal after its sign. -/
def unsigned? (negative : Bool) (cs : List Char) : Option Literal := do
  let whole ← digits? (cs.takeWhile Char.isDigit)
  if whole.head? = some '0' ∧ whole ≠ ['0'] then none
  else match cs.dropWhile Char.isDigit with
    | '.' :: cs =>
      let fraction ← digits? (cs.takeWhile Char.isDigit)
      let exponent ← exponentPart? (cs.dropWhile Char.isDigit)
      return ⟨negative, whole, some fraction, exponent⟩
    | cs =>
      let exponent ← exponentPart? cs
      return ⟨negative, whole, none, exponent⟩

/-- A minus sign makes the number negative. -/
theorem literal?_neg (cs : List Char) : literal? ('-' :: cs) = unsigned? true cs := rfl

/-- Without a minus sign the number is not negative. -/
theorem literal?_pos {cs : List Char} (h : cs.head? ≠ some '-') : literal? cs = unsigned? false cs := by
  unfold literal?
  split
  next heq =>
    split at heq
    · exact absurd rfl h
    · cases heq
      rfl

/-- Digits that are read are one or more, and all that there is. -/
theorem digits?_eq_some {cs ds : List Char} (h : digits? cs = some ds) :
    ds = cs ∧ cs ≠ [] ∧ ∀ c ∈ cs, c.isDigit = true := by
  unfold digits? at h
  split at h
  · next hc => exact ⟨(Option.some.inj h).symm, hc.1, List.all_eq_true.mp hc.2⟩
  · cases h

/-- Digits alone are a literal without point and exponent. -/
theorem unsigned?_digits (negative : Bool) {cs : List Char} (hne : cs ≠ []) (hd : ∀ c ∈ cs, c.isDigit = true)
    (hz : cs.head? = some '0' → cs = ['0']) : unsigned? negative cs = some ⟨negative, cs, none, none⟩ := by
  obtain ⟨ht, hr⟩ := span_append Char.isDigit cs [] hd nofun
  rw [List.append_nil] at ht hr
  have hs : digits? cs = some cs := by simpa [digits?, hne] using hd
  have hl : ¬(cs.head? = some '0' ∧ cs ≠ ['0']) := fun h => h.2 (hz h.1)
  unfold unsigned?
  rw [ht, hr, hs]
  simp only [Option.bind_eq_bind, Option.bind_some, if_neg hl]
  rfl

/-! ## Literals are numeric -/

/-- A digit may stand in a number. -/
theorem isNumeric_of_isDigit {c : Char} (h : c.isDigit = true) : Token.isNumeric c = true := by
  simp [Token.isNumeric, h]

theorem isNumeric_exponent? {cs : List Char} {n : Int} (h : exponent? cs = some n) : ∀ c ∈ cs, Token.isNumeric c = true := by
  unfold exponent? at h
  split at h <;> obtain ⟨ds, hd, -⟩ := Option.map_eq_some_iff.mp h <;> obtain ⟨-, -, hc⟩ := digits?_eq_some hd
  · rintro c (_ | ⟨_, h⟩)
    · rfl
    · exact isNumeric_of_isDigit (hc c h)
  · rintro c (_ | ⟨_, h⟩)
    · rfl
    · exact isNumeric_of_isDigit (hc c h)
  · intro c h
    exact isNumeric_of_isDigit (hc c h)

theorem isNumeric_exponentPart? {cs : List Char} {e : Option Int} (h : exponentPart? cs = some e) :
    ∀ c ∈ cs, Token.isNumeric c = true := by
  cases cs with
  | nil =>
    intro c h
    exact absurd h List.not_mem_nil
  | cons d ds =>
    simp only [exponentPart?] at h
    split at h
    · next hd =>
      obtain ⟨n, hn, -⟩ := Option.map_eq_some_iff.mp h
      intro c hc
      rcases List.mem_cons.mp hc with rfl | hc
      · rcases hd with rfl | rfl <;> rfl
      · exact isNumeric_exponent? hn c hc
    · cases h

/-- A literal after its sign starts with a digit and is made of the characters of numbers. -/
theorem isNumeric_unsigned? {negative : Bool} {cs : List Char} {l : Literal} (h : unsigned? negative cs = some l) :
    (∃ c cs', cs = c :: cs' ∧ c.isDigit = true) ∧ ∀ c ∈ cs, Token.isNumeric c = true := by
  obtain ⟨whole, hw, h⟩ := Option.bind_eq_some_iff.mp h
  obtain ⟨-, hne, hd⟩ := digits?_eq_some hw
  have hcs : cs = cs.takeWhile Char.isDigit ++ cs.dropWhile Char.isDigit := List.takeWhile_append_dropWhile.symm
  have hrest : ∀ c ∈ cs.dropWhile Char.isDigit, Token.isNumeric c = true := by
    split at h
    · cases h
    · split at h
      · next ds hds =>
        obtain ⟨fraction, hf, h⟩ := Option.bind_eq_some_iff.mp h
        obtain ⟨e, he, -⟩ := Option.bind_eq_some_iff.mp h
        obtain ⟨-, -, hfd⟩ := digits?_eq_some hf
        intro c hc
        rw [hds] at hc
        rcases List.mem_cons.mp hc with rfl | hc
        · rfl
        · rw [← List.takeWhile_append_dropWhile (p := Char.isDigit) (l := ds)] at hc
          rcases List.mem_append.mp hc with hc | hc
          · exact isNumeric_of_isDigit (hfd c hc)
          · exact isNumeric_exponentPart? he c hc
      · obtain ⟨e, he, -⟩ := Option.bind_eq_some_iff.mp h
        exact isNumeric_exponentPart? he
  refine ⟨?_, ?_⟩
  · obtain ⟨c, cs', hc⟩ := List.exists_cons_of_ne_nil hne
    exact ⟨c, cs' ++ cs.dropWhile Char.isDigit, by rw [← List.cons_append, ← hc, ← hcs], hd c (by simp [hc])⟩
  · intro c hc
    rw [hcs] at hc
    rcases List.mem_append.mp hc with hc | hc
    · exact isNumeric_of_isDigit (hd c hc)
    · exact hrest c hc

/-- A literal starts with a digit or a sign and is made of the characters of numbers. -/
theorem isNumeric_ofChars? {cs : List Char} {n : Number} (h : ofChars? cs = some n) :
    (∃ c cs', cs = c :: cs' ∧ (c.isDigit = true ∨ c = '-')) ∧ ∀ c ∈ cs, Token.isNumeric c = true := by
  obtain ⟨l, hl, -⟩ := Option.bind_eq_some_iff.mp h
  by_cases hs : cs.head? = some '-'
  · obtain ⟨cs', rfl⟩ := List.head?_eq_some_iff.mp hs
    rw [literal?_neg] at hl
    obtain ⟨-, hc⟩ := isNumeric_unsigned? hl
    refine ⟨⟨'-', cs', rfl, .inr rfl⟩, ?_⟩
    rintro c (_ | ⟨_, h⟩)
    · rfl
    · exact hc c h
  · rw [literal?_pos hs] at hl
    obtain ⟨⟨c, cs', hcs, hd⟩, hc⟩ := isNumeric_unsigned? hl
    exact ⟨⟨c, cs', hcs, .inl hd⟩, hc⟩

/-! ## Integers are read as they were written -/

/-- The digits of a number that fits 64 bits are read as it. -/
theorem ofChars?_toDigits {n : Nat} (h : n ≤ greatest) : ofChars? (Nat.toDigits 10 n) = some (.int n) := by
  have hs : (Nat.toDigits 10 n).head? ≠ some '-' := by
    intro hs
    have := isDigit_toDigits n _ (List.mem_of_head? hs)
    exact absurd this (by decide)
  rw [ofChars?, literal?_pos hs, unsigned?_digits false Nat.toDigits_ne_nil (isDigit_toDigits n) head?_toDigits]
  simp [Literal.number?, ofDigits_toDigits, h]

/-- An integer that fits 64 bits is read as it was written. -/
theorem ofChars?_int {n : Int} (hl : -9223372036854775808 ≤ n) (hg : n ≤ 18446744073709551615) :
    ofChars? (Number.int n).chars = some (.int n) := by
  cases n with
  | ofNat n =>
    rw [Int.ofNat_eq_natCast] at hg
    exact ofChars?_toDigits (by rw [greatest]; omega)
  | negSucc n =>
    rw [ofChars?, chars, literal?_neg,
      unsigned?_digits true Nat.toDigits_ne_nil (isDigit_toDigits (n + 1)) head?_toDigits]
    simp only [Literal.number?, ofDigits_toDigits, Option.bind_eq_bind, Option.bind_some]
    rw [if_pos (by simp; omega)]
    rfl

end Number

namespace Token

/-! ## Strings are read as they were written -/

/-- The code of a control character is read from its last two hexadecimal digits. -/
theorem hex4?_hexDigit : ∀ n < 32, hex4? '0' '0' (hexDigit (n / 16)) (hexDigit (n % 16)) = some n := by decide

/-- A backslash and a letter are read as the character that they stand for. -/
theorem codes?_shortEscape {c e : Char} (h : shortEscape? e = some c) (hu : e ≠ 'u') (rest : List Char) :
    codes? ('\\' :: e :: rest) = (codes? rest).map fun r => (c.toNat :: r.1, r.2) := by
  cases hr : codes? rest <;> simp [codes?, h, hu, hr]

/-- A character of a string is read with its own code, however it is written. -/
theorem codes?_escape (c : Char) (rest : List Char) :
    codes? (escape c ++ rest) = (codes? rest).map fun r => (c.toNat :: r.1, r.2) := by
  by_cases hq : c = '"'
  · subst hq
    exact codes?_shortEscape rfl (by decide) rest
  by_cases hs : c = '\\'
  · subst hs
    exact codes?_shortEscape rfl (by decide) rest
  by_cases hb : c = '\x08'
  · subst hb
    exact codes?_shortEscape rfl (by decide) rest
  by_cases hf : c = '\x0c'
  · subst hf
    exact codes?_shortEscape rfl (by decide) rest
  by_cases hn : c = '\n'
  · subst hn
    exact codes?_shortEscape rfl (by decide) rest
  by_cases hr : c = '\r'
  · subst hr
    exact codes?_shortEscape rfl (by decide) rest
  by_cases ht : c = '\t'
  · subst ht
    exact codes?_shortEscape rfl (by decide) rest
  simp only [escape, hq, hs, hb, hf, hn, hr, ht, if_false]
  by_cases hc : c < ' '
  · have hlt : c.toNat < 32 := hc
    cases h : codes? rest <;> simp [codes?, hc, h, hex4?_hexDigit c.toNat hlt]
  · cases h : codes? rest <;> simp [codes?, hs, hc, h]

/-- Escaped characters are read up to the closing quotation mark, as their codes. -/
theorem codes?_chars (cs rest : List Char) :
    codes? (cs.flatMap escape ++ '"' :: rest) = some (cs.map Char.toNat, rest) := by
  induction cs with
  | nil => simp [codes?]
  | cons c cs ih =>
    rw [List.flatMap_cons, List.append_assoc, codes?_escape, ih]
    rfl

/-- No character is half a surrogate pair. -/
theorem not_isSurrogate (c : Char) : ¬IsSurrogate c.toNat := by
  have hv : c.toNat.isValidChar := c.valid
  intro h
  unfold IsSurrogate at h
  unfold Nat.isValidChar at hv
  omega

/-- Characters are made of their own codes. -/
theorem ofCodes?_map (cs : List Char) : ofCodes? (cs.map Char.toNat) = some cs := by
  induction cs with
  | nil => rfl
  | cons c cs ih =>
    rw [List.map_cons, ofCodes?.eq_def]
    simp [not_isSurrogate, ih]

/-- A string is read as it was written. -/
theorem stringTail?_append (s : String) (rest : List Char) :
    stringTail? (s.toList.flatMap escape ++ '"' :: rest) = some (s, rest) := by
  simp [stringTail?, codes?_chars, ofCodes?_map]

/-! ## Tokens are cut off one by one -/

/-- The token that is read where a token was written. -/
def reread : Token → Token
  | .num n => .num n.reread
  | t => t

/-- What is written for the token is read as some token. -/
def Legible : Token → Prop
  | .num n => n.Legible
  | _ => True

/-- Words and numbers go on for as long as they can. -/
def isGreedy : Token → Bool
  | .null | .bool _ | .num _ => true
  | _ => false

/-- The text does not go on with a word or a number. -/
def Breaks (cs : List Char) : Prop := ∀ c cs', cs = c :: cs' → c.isAlpha = false ∧ isNumeric c = false

theorem breaks_nil : Breaks [] := nofun

theorem not_isAlpha_of_isDigit {c : Char} (h : c.isDigit = true) : c.isAlpha = false := by
  have hd : 48 ≤ c.toNat ∧ c.toNat ≤ 57 := by simpa [Char.isDigit, UInt32.le_iff_toNat_le] using h
  rw [Bool.eq_false_iff]
  intro ha
  have ha : (65 ≤ c.toNat ∧ c.toNat ≤ 90) ∨ (97 ≤ c.toNat ∧ c.toNat ≤ 122) := by
    have hc : (decide (65 ≤ c.val ∧ c.val ≤ 90) || (decide (97 ≤ c.val) && decide (c.val ≤ 122))) = true := ha
    simpa [UInt32.le_iff_toNat_le] using hc
  omega

/-- A character that a number starts with starts nothing else. -/
theorem starts_number {c : Char} (h : c.isDigit = true ∨ c = '-') :
    ofMark? c = none ∧ c ≠ '"' ∧ c.isAlpha = false ∧ isBlank c = false := by
  rcases h with h | rfl
  · have hne (d : Char) (hd : d.isDigit = false) : c ≠ d := by
      rintro rfl
      exact absurd h (by simp [hd])
    refine ⟨?_, hne _ rfl, not_isAlpha_of_isDigit h, ?_⟩
    · simp [ofMark?, hne '[' rfl, hne ']' rfl, hne '\x7b' rfl, hne '\x7d' rfl, hne ',' rfl, hne ':' rfl]
    · simp [isBlank, hne ' ' rfl, hne '\t' rfl, hne '\n' rfl, hne '\r' rfl]
  · decide

/-- The text of a number is cut off and read. -/
theorem next?_num {n : Number} (hn : n.Legible) {rest : List Char} (hr : Breaks rest) :
    ∃ c cs, n.chars = c :: cs ∧ isBlank c = false ∧ next? c (cs ++ rest) = some (.num n.reread, rest) := by
  obtain ⟨n', hn'⟩ := Option.isSome_iff_exists.mp hn
  obtain ⟨⟨c, cs, hcs, hc⟩, hnum⟩ := Number.isNumeric_ofChars? hn'
  obtain ⟨hm, hq, ha, hb⟩ := starts_number hc
  obtain ⟨ht, hd⟩ := span_append isNumeric cs rest (fun d hd => hnum d (by simp [hcs, hd]))
    (fun d ds hd => (hr d ds hd).2)
  have hre : n.reread = n' := by simp [Number.reread, hn']
  refine ⟨c, cs, hcs, hb, ?_⟩
  rw [hcs] at hn'
  simp [next?, hm, hq, ha, ht, hd, hn', hre]

/-- The text of a word is cut off and read. -/
theorem next?_word {c : Char} {cs : List Char} {t : Token} (hw : ofWord? (c :: cs) = some t)
    (ha : (c :: cs).all Char.isAlpha = true) (hm : ofMark? c = none) (hq : c ≠ '"') {rest : List Char} (hr : Breaks rest) :
    next? c (cs ++ rest) = some (t, rest) := by
  have ha := List.all_eq_true.mp ha
  obtain ⟨ht, hd⟩ := span_append Char.isAlpha cs rest (fun d hd => ha d (List.mem_cons_of_mem _ hd))
    (fun d ds hd => (hr d ds hd).1)
  simp [next?, hm, hq, ha c List.mem_cons_self, ht, hd, hw]

/-- The text of a token is cut off a text that does not seem to continue it. -/
theorem next?_chars {t : Token} (ht : t.Legible) {rest : List Char} (hr : t.isGreedy = true → Breaks rest) :
    ∃ c cs, t.chars = c :: cs ∧ isBlank c = false ∧ next? c (cs ++ rest) = some (t.reread, rest) := by
  cases t with
  | openArray | closeArray | openObject | closeObject | comma | colon => exact ⟨_, _, rfl, rfl, rfl⟩
  | null => exact ⟨'n', _, rfl, rfl, next?_word rfl rfl rfl (by decide) (hr rfl)⟩
  | bool b =>
    cases b with
    | true => exact ⟨'t', _, rfl, rfl, next?_word rfl rfl rfl (by decide) (hr rfl)⟩
    | false => exact ⟨'f', _, rfl, rfl, next?_word rfl rfl rfl (by decide) (hr rfl)⟩
  | num n => exact next?_num ht (hr rfl)
  | str s =>
    refine ⟨'"', _, rfl, rfl, ?_⟩
    rw [List.append_assoc, List.singleton_append]
    simp [next?, ofMark?, stringTail?_append, reread]

/-- With more fuel the same tokens are found. -/
theorem scanFrom?_mono {fuel fuel' : Nat} (h : fuel ≤ fuel') {cs : List Char} {ts : List Token}
    (hs : scanFrom? fuel cs = some ts) : scanFrom? fuel' cs = some ts := by
  induction fuel generalizing fuel' cs ts with
  | zero =>
    cases cs with
    | nil => cases fuel' <;> exact hs
    | cons c cs => cases hs
  | succ fuel ih =>
    obtain ⟨fuel', rfl⟩ : ∃ n, fuel' = n + 1 := ⟨fuel' - 1, by omega⟩
    cases cs with
    | nil => exact hs
    | cons c cs =>
      simp only [scanFrom?] at hs ⊢
      split
      · next hb =>
        rw [if_pos hb] at hs
        exact ih (by omega) hs
      · next hb =>
        rw [if_neg hb] at hs
        obtain ⟨⟨t, rest⟩, hn, hs⟩ := Option.bind_eq_some_iff.mp hs
        obtain ⟨ts', hr, hs⟩ := Option.bind_eq_some_iff.mp hs
        rw [hn]
        simp only [Option.bind_eq_bind, Option.bind_some]
        rw [ih (by omega) hr]
        exact hs

theorem scan?_nil : scan? [] = some [] := rfl

/-- The text of a token, and of more tokens after it, is scanned into the token and those after it. -/
theorem scan?_chars_append {t : Token} (ht : t.Legible) {rest : List Char} (hr : t.isGreedy = true → Breaks rest)
    {ts : List Token} (hs : scan? rest = some ts) : scan? (t.chars ++ rest) = some (t.reread :: ts) := by
  obtain ⟨c, cs, hc, hb, hn⟩ := next?_chars ht hr
  have hs : scanFrom? (cs.length + rest.length) rest = some ts := scanFrom?_mono (by omega) hs
  rw [hc]
  simp [scan?, scanFrom?, hb, hn, hs]

end Token

end FlagDelivery
