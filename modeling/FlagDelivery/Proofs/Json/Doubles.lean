import FlagDelivery.Proofs.Decimal.Scaling
import FlagDelivery.Proofs.Json.Scanning

/-!
# What is written for a double is read as some double

`Number.legible_float` says that the text of every double is a literal that is not refused, which is not plain to see
for the largest doubles: reading rounds more than once. The literal has the value of the shortest decimal,
`Number.literal?_floatChars`, which the roundings do not lead beyond the largest double.
-/

namespace FlagDelivery

namespace Number

/-! ## Runs of digits -/

/-- Digits pushed onto a number are its last ones. -/
theorem foldl_push (n : Nat) (cs : List Char) : cs.foldl push n = n * 10 ^ cs.length + ofDigits cs := by
  induction cs generalizing n with
  | nil => simp [ofDigits]
  | cons c cs ih =>
    rw [ofDigits, List.foldl_cons, List.foldl_cons, ih, ih (push 0 c), push, push, List.length_cons]
    ring

theorem ofDigits_append (cs ds : List Char) : ofDigits (cs ++ ds) = ofDigits cs * 10 ^ ds.length + ofDigits ds := by
  rw [ofDigits, List.foldl_append, foldl_push]
  rfl

theorem ofDigits_zeros (n : Nat) : ofDigits (List.replicate n '0') = 0 := by
  induction n with
  | zero => rfl
  | succ n ih =>
    have hz : ofDigits ['0'] = 0 := rfl
    rw [List.replicate_succ, ← List.singleton_append, ofDigits_append, ih, hz, Nat.zero_mul]

/-- A number has no more digits than are written. -/
theorem ofDigits_lt {cs : List Char} (h : ∀ c ∈ cs, c.isDigit = true) : ofDigits cs < 10 ^ cs.length := by
  induction cs with
  | nil => decide
  | cons c cs ih =>
    have hc : 48 ≤ c.toNat ∧ c.toNat ≤ 57 := by simpa [Char.isDigit, UInt32.le_iff_toNat_le] using h c List.mem_cons_self
    have hcs := ih fun d hd => h d (List.mem_cons_of_mem _ hd)
    have hone : ofDigits [c] = c.toNat - 48 := by simp [ofDigits, push]
    rw [← List.singleton_append, ofDigits_append, hone, List.length_append, List.length_singleton, pow_add, pow_one]
    have : (c.toNat - 48) * 10 ^ cs.length ≤ 9 * 10 ^ cs.length := Nat.mul_le_mul_right _ (by omega)
    omega

/-- What is gathered fits 64 bits, and does so at once if all of it does. -/
theorem gather_le {n : Nat} (h : n ≤ greatest) (cs : List Char) : (gather n cs).1 ≤ greatest := by
  induction cs generalizing n with
  | nil => exact h
  | cons c cs ih =>
    rw [gather]
    split
    · next hc => exact ih hc
    · exact h

/-- Digits that fit are all gathered. -/
theorem gather_of_le {n : Nat} {cs : List Char} (h : cs.foldl push n ≤ greatest) : gather n cs = (cs.foldl push n, []) := by
  induction cs generalizing n with
  | nil => rfl
  | cons c cs ih =>
    have hc : push n c ≤ greatest := by
      refine le_trans ?_ h
      rw [List.foldl_cons, foldl_push]
      exact le_trans (Nat.le_mul_of_pos_right _ (Nat.pow_pos (by decide))) (Nat.le_add_right _ _)
    rw [gather, if_pos hc]
    exact ih h

/-- The digits left over are not counted. -/
theorem gather_mul_le (n : Nat) (cs : List Char) :
    (gather n cs).2.length ≤ cs.length ∧ (gather n cs).1 * 10 ^ (gather n cs).2.length ≤ cs.foldl push n := by
  induction cs generalizing n with
  | nil => simp [gather]
  | cons c cs ih =>
    rw [gather]
    split
    · obtain ⟨hlen, hle⟩ := ih (push n c)
      exact ⟨le_trans hlen (by simp), hle⟩
    · refine ⟨le_refl _, ?_⟩
      rw [foldl_push]
      exact Nat.le_add_right _ _

/-- The leading digits of a literal are no more than the literal, whose digits before the point fit 64 bits. -/
theorem Literal.leading_le {l : Literal} (h : ofDigits l.whole ≤ greatest) :
    l.leading.digits ≤ greatest ∧
      l.leading.value ≤
        ofDigits (l.whole ++ l.fraction.getD []) * 10 ^ (l.exponent.getD 0 - (l.fraction.getD []).length : ℤ) := by
  set fraction := l.fraction.getD [] with hf
  have hwhole : gather 0 l.whole = (ofDigits l.whole, []) := gather_of_le h
  obtain ⟨hlen, hle⟩ := gather_mul_le (ofDigits l.whole) fraction
  have hleading : l.leading = ⟨(gather (ofDigits l.whole) fraction).1,
      l.exponent.getD 0 + (0 : Nat) - (fraction.length - (gather (ofDigits l.whole) fraction).2.length : Nat)⟩ := by
    rw [leading, hwhole]
    rfl
  rw [hleading]
  refine ⟨gather_le h fraction, ?_⟩
  set out := gather (ofDigits l.whole) fraction with hout
  have hexp : l.exponent.getD 0 + (0 : Nat) - (fraction.length - out.2.length : Nat) =
      (out.2.length : ℤ) + (l.exponent.getD 0 - fraction.length) := by
    push_cast [hlen]
    ring
  have hle' : (out.1 : ℚ) * 10 ^ out.2.length ≤ (ofDigits (l.whole ++ fraction) : Nat) := by
    rw [ofDigits, List.foldl_append]
    exact_mod_cast hle
  rw [Decimal.value, hexp, zpow_add₀ (by norm_num), zpow_natCast, ← mul_assoc]
  exact mul_le_mul_of_nonneg_right hle' (by positivity)

/-! ## Literals -/

/-- One or more digits are a part of a number. -/
theorem digits?_of_digits {cs : List Char} (hne : cs ≠ []) (hd : ∀ c ∈ cs, c.isDigit = true) : digits? cs = some cs := by
  simpa [digits?, hne] using hd

/-- Digits, a point and more digits, and what an exponent may follow. -/
theorem unsigned?_point (negative : Bool) {whole fraction tail : List Char} {e : Option Int} (hw : whole ≠ [])
    (hwd : ∀ c ∈ whole, c.isDigit = true) (hz : whole.head? = some '0' → whole = ['0']) (hf : fraction ≠ [])
    (hfd : ∀ c ∈ fraction, c.isDigit = true) (ht : ∀ c cs, tail = c :: cs → c.isDigit = false)
    (he : exponentPart? tail = some e) :
    unsigned? negative (whole ++ '.' :: (fraction ++ tail)) = some ⟨negative, whole, some fraction, e⟩ := by
  obtain ⟨hwt, hwr⟩ := span_append Char.isDigit whole ('.' :: (fraction ++ tail)) hwd (by rintro c cs ⟨⟩; rfl)
  obtain ⟨hft, hfr⟩ := span_append Char.isDigit fraction tail hfd ht
  have hl : ¬(whole.head? = some '0' ∧ whole ≠ ['0']) := fun h => h.2 (hz h.1)
  unfold unsigned?
  rw [hwt, hwr, digits?_of_digits hw hwd]
  simp only [Option.bind_eq_bind, Option.bind_some, if_neg hl, hft, hfr, digits?_of_digits hf hfd, he]
  rfl

/-- Digits, a point and more digits. -/
theorem unsigned?_decimal (negative : Bool) {whole fraction : List Char} (hw : whole ≠ [])
    (hwd : ∀ c ∈ whole, c.isDigit = true) (hz : whole.head? = some '0' → whole = ['0']) (hf : fraction ≠ [])
    (hfd : ∀ c ∈ fraction, c.isDigit = true) :
    unsigned? negative (whole ++ '.' :: fraction) = some ⟨negative, whole, some fraction, none⟩ := by
  have hend : exponentPart? [] = some none := rfl
  have h := unsigned?_point negative hw hwd hz hf hfd (by simp) hend
  rwa [List.append_nil] at h

/-- Digits and an exponent. -/
theorem unsigned?_exponent (negative : Bool) {whole tail : List Char} {e : Option Int} (hw : whole ≠ [])
    (hwd : ∀ c ∈ whole, c.isDigit = true) (hz : whole.head? = some '0' → whole = ['0'])
    (he : exponentPart? ('e' :: tail) = some e) :
    unsigned? negative (whole ++ 'e' :: tail) = some ⟨negative, whole, none, e⟩ := by
  obtain ⟨hwt, hwr⟩ := span_append Char.isDigit whole ('e' :: tail) hwd (by rintro c cs ⟨⟩; rfl)
  have hl : ¬(whole.head? = some '0' ∧ whole ≠ ['0']) := fun h => h.2 (hz h.1)
  unfold unsigned?
  rw [hwt, hwr, digits?_of_digits hw hwd]
  simp only [Option.bind_eq_bind, Option.bind_some, if_neg hl]
  split
  · next heq => exact absurd (List.cons.inj heq).1 (by decide)
  · rw [he]
    rfl

theorem isDigit_zero : ∀ c ∈ ['0'], c.isDigit = true := fun _ h => List.mem_singleton.mp h ▸ rfl

theorem isDigit_zeros (n : Nat) : ∀ c ∈ List.replicate n '0', c.isDigit = true := by
  intro c hc
  rw [List.eq_of_mem_replicate hc]
  rfl

/-- An exponent is read as it is written. -/
theorem exponentPart?_chars (top : Int) :
    exponentPart? ('e' :: (if top < 0 then '-' else '+') :: Nat.toDigits 10 top.natAbs) = some (some top) := by
  have hd := digits?_of_digits (Nat.toDigits_ne_nil (b := 10) (n := top.natAbs)) (isDigit_toDigits top.natAbs)
  by_cases h : top < 0
  · have habs : |top| = -top := abs_of_neg h
    simp [exponentPart?, exponent?, h, hd, ofDigits_toDigits, habs]
  · have habs : |top| = top := abs_of_nonneg (by omega)
    simp [exponentPart?, exponent?, h, hd, ofDigits_toDigits, habs]

/-- A literal with a point or an exponent whose digits before the point fit 64 bits, with its value. -/
structure Literal.Says (l : Literal) (value : ℚ) : Prop where
  marked : l.fraction.isSome ∨ l.exponent.isSome
  whole_le : ofDigits l.whole ≤ greatest
  value_eq :
    ofDigits (l.whole ++ l.fraction.getD []) * (10 : ℚ) ^ (l.exponent.getD 0 - (l.fraction.getD []).length : ℤ) = value

/-- The first digits, as many as are asked for, with zeros for those that are missing. -/
def padded (digits : List Char) (count : Nat) : List Char := digits.take count ++ List.replicate (count - digits.length) '0'

theorem length_padded (digits : List Char) (count : Nat) : (padded digits count).length = count := by
  rw [padded, List.length_append, List.length_take, List.length_replicate]
  omega

theorem padded_ne_nil (digits : List Char) {count : Nat} (h : 0 < count) : padded digits count ≠ [] := by
  rw [← List.length_pos_iff, length_padded]
  exact h

/-- Where no digits are left over, the digits are multiplied by a power of ten. -/
theorem ofDigits_padded {digits : List Char} {count : Nat} (h : digits.length ≤ count) :
    ofDigits (padded digits count) = ofDigits digits * 10 ^ (count - digits.length) := by
  rw [padded, List.take_of_length_le h, ofDigits_append, ofDigits_zeros, List.length_replicate, Nat.add_zero]

/-- Where digits are left over, they follow. -/
theorem padded_append_drop {digits : List Char} {count : Nat} (h : count ≤ digits.length) :
    padded digits count ++ digits.drop count = digits := by
  rw [padded, Nat.sub_eq_zero_of_le h, List.replicate_zero, List.append_nil, List.take_append_drop]

/-- A padded part has digits only. -/
theorem isDigit_padded {digits : List Char} (hd : ∀ c ∈ digits, c.isDigit = true) (count : Nat) :
    ∀ c ∈ padded digits count, c.isDigit = true := by
  intro c hc
  rcases List.mem_append.mp hc with hc | hc
  · exact hd c (List.mem_of_mem_take hc)
  · exact isDigit_zeros _ c hc

/-- Few digits fit 64 bits. -/
theorem ofDigits_padded_le {digits : List Char} (hd : ∀ c ∈ digits, c.isDigit = true) {count : Nat} (h : count ≤ 16) :
    ofDigits (padded digits count) ≤ greatest := by
  have hlt := ofDigits_lt (isDigit_padded hd count)
  rw [length_padded] at hlt
  have hpow : 10 ^ count ≤ 10 ^ 16 := Nat.pow_le_pow_right (by decide) h
  exact le_trans hlt.le (le_trans hpow (by decide))

/-- Zeros up to the digits. -/
theorem unsigned?_zeros (negative : Bool) {digits : List Char} (hne : digits ≠ []) (hd : ∀ c ∈ digits, c.isDigit = true)
    (count : Nat) :
    ∃ l, unsigned? negative ('0' :: '.' :: (List.replicate count '0' ++ digits)) = some l ∧
      l.Says (ofDigits digits * 10 ^ (-count - digits.length : ℤ)) := by
  have hfd : ∀ c ∈ List.replicate count '0' ++ digits, c.isDigit = true := by
    intro c hc
    exact (List.mem_append.mp hc).elim (isDigit_zeros count c) (hd c)
  have hl := unsigned?_decimal negative (List.cons_ne_nil '0' []) isDigit_zero (fun _ => rfl)
    (List.append_ne_nil_of_right_ne_nil _ hne) hfd
  refine ⟨_, hl, .inl rfl, show ofDigits ['0'] ≤ greatest by decide, ?_⟩
  have hvalue : ofDigits (['0'] ++ (List.replicate count '0' ++ digits)) = ofDigits digits := by
    have hz : ofDigits ['0'] = 0 := rfl
    rw [ofDigits_append, ofDigits_append, ofDigits_zeros, hz]
    simp
  have hexp : (0 : Int) - ((List.replicate count '0' ++ digits).length : Nat) = -count - digits.length := by
    rw [List.length_append, List.length_replicate]
    omega
  simp only [Option.getD_some, Option.getD_none, hvalue, hexp]

variable {digits : List Char} (hne : digits ≠ []) (hd : ∀ c ∈ digits, c.isDigit = true)
  (hz : digits.head? = some '0' → digits = ['0'])

include hne hd hz

/-- One digit, a point if there are more, and an exponent. -/
theorem unsigned?_scientific (negative : Bool) (top : Int) :
    ∃ l, unsigned? negative (scientific digits top) = some l ∧
      l.Says (ofDigits digits * 10 ^ (top + 1 - digits.length)) := by
  obtain ⟨c, cs, rfl⟩ := List.exists_cons_of_ne_nil hne
  have hc : ∀ d ∈ [c], d.isDigit = true := fun d h => hd d (by simpa using .inl (List.mem_singleton.mp h))
  have hone : ofDigits [c] ≤ greatest := le_trans (ofDigits_lt hc).le (show 10 ^ 1 ≤ greatest by decide)
  cases cs with
  | nil =>
    refine ⟨_, unsigned?_exponent negative (List.cons_ne_nil c []) hc hz (exponentPart?_chars top), .inr rfl, hone, ?_⟩
    simp
  | cons d ds =>
    have hfd : ∀ e ∈ d :: ds, e.isDigit = true := fun e h => hd e (List.mem_cons_of_mem _ h)
    have hcz : [c].head? = some '0' → [c] = ['0'] := by
      intro h
      have := hz h
      cases this
    refine ⟨_, unsigned?_point negative (List.cons_ne_nil c []) hc hcz (List.cons_ne_nil d ds) hfd ?_
      (exponentPart?_chars top), .inl rfl, hone, ?_⟩
    · rintro _ _ ⟨⟩
      rfl
    · simp only [Option.getD_some, List.singleton_append, List.length_cons]
      congr 2
      push_cast
      ring

/-- A point after so many digits. -/
theorem unsigned?_padded (negative : Bool) {count : Nat} (hpos : 0 < count) (hle : count ≤ 16)
    (hzero : digits.head? = some '0' → count = 1) :
    ∃ l, unsigned? negative
      (padded digits count ++ '.' :: if (digits.drop count).isEmpty then ['0'] else digits.drop count) =
      some l ∧ l.Says (ofDigits digits * 10 ^ (count - digits.length : ℤ)) := by
  have hwz : (padded digits count).head? = some '0' → padded digits count = ['0'] := by
    intro h
    obtain ⟨c, cs, rfl⟩ := List.exists_cons_of_ne_nil hne
    obtain ⟨n, rfl⟩ := Nat.exists_eq_succ_of_ne_zero hpos.ne'
    have hc : (c :: cs).head? = some '0' := h
    rw [hz hc, hzero hc]
    rfl
  have hwd := isDigit_padded hd count
  have hfits := ofDigits_padded_le hd hle
  by_cases hrest : digits.length ≤ count
  · have hl := unsigned?_decimal negative (padded_ne_nil digits hpos) hwd hwz (List.cons_ne_nil '0' []) isDigit_zero
    have hexp : (count : Int) - digits.length = ((count - digits.length : Nat) : Int) := by omega
    have hvalue : ofDigits (padded digits count ++ ['0']) = ofDigits digits * 10 ^ (count - digits.length) * 10 := by
      have hz : ofDigits ['0'] = 0 := rfl
      rw [ofDigits_append, ofDigits_padded hrest, hz]
      rfl
    rw [List.drop_eq_nil_iff.mpr hrest]
    refine ⟨_, hl, .inl rfl, hfits, ?_⟩
    simp only [Option.getD_some, Option.getD_none, hvalue, hexp, zpow_natCast]
    push_cast
    simp
  · have hlt : count < digits.length := not_le.mp hrest
    have hleft : digits.drop count ≠ [] := fun h => hrest (List.drop_eq_nil_iff.mp h)
    have hl := unsigned?_decimal negative (padded_ne_nil digits hpos) hwd hwz hleft
      (fun c hc => hd c (List.mem_of_mem_drop hc))
    have hexp : (0 : Int) - ((digits.drop count).length : Nat) = count - digits.length := by
      rw [List.length_drop]
      omega
    rw [if_neg (by simpa using hleft)]
    refine ⟨_, hl, .inl rfl, hfits, ?_⟩
    simp only [Option.getD_some, Option.getD_none, padded_append_drop hlt.le, hexp]

/-- A point between the digits, or zeros up to the point. -/
theorem unsigned?_plain (negative : Bool) {top : Int} (htop : top < 16) (hzero : digits.head? = some '0' → top = 0) :
    ∃ l, unsigned? negative (plain digits top) = some l ∧ l.Says (ofDigits digits * 10 ^ (top + 1 - digits.length)) := by
  by_cases hneg : top < 0
  · have hexp : top + 1 - digits.length = -(-top - 1).toNat - digits.length := by omega
    rw [plain, if_pos hneg, hexp]
    exact unsigned?_zeros negative hne hd _
  · have hexp : top + 1 - digits.length = (top.toNat + 1 : Nat) - digits.length := by omega
    have hone : digits.head? = some '0' → top.toNat + 1 = 1 := fun h => by rw [hzero h]; rfl
    rw [plain, if_neg hneg, hexp]
    exact unsigned?_padded hne hd hz negative (Nat.succ_pos _) (by omega) hone

omit hne hd hz

/-! ## Texts of doubles -/

/-- The text of a double is a literal with the value of its shortest decimal. -/
theorem literal?_floatChars (x : Double) :
    ∃ l, literal? (floatChars x) = some l ∧ l.Says x.shortest.value := by
  set d := x.shortest with hdef
  set digits := Nat.toDigits 10 d.digits with hdigits
  have hne : digits ≠ [] := Nat.toDigits_ne_nil
  have hd : ∀ c ∈ digits, c.isDigit = true := isDigit_toDigits d.digits
  have hz : digits.head? = some '0' → digits = ['0'] := head?_toDigits
  have hvalue : ofDigits digits * (10 : ℚ) ^ (d.exponent + digits.length - 1 + 1 - digits.length) = d.value := by
    rw [hdigits, ofDigits_toDigits, Decimal.value]
    congr 2
    ring
  -- Zero is the only double whose shortest decimal begins with a zero.
  have hzero : digits.head? = some '0' → d.exponent + digits.length - 1 = 0 := by
    intro h
    have hrank : x.rank = 0 := by
      by_contra hrank
      refine (Double.shortest_spec hrank).1 ?_
      rw [← ofDigits_toDigits x.shortest.digits, ← hdef, ← hdigits, hz h]
      rfl
    rw [hz h, hdef, Double.shortest, if_pos hrank]
    rfl
  have hbody : ∃ l, unsigned? x.negative (if -5 ≤ d.exponent + digits.length - 1 ∧ d.exponent + digits.length - 1 < 16 then
      plain digits (d.exponent + digits.length - 1) else scientific digits (d.exponent + digits.length - 1)) = some l ∧
      l.Says d.value := by
    rw [← hvalue]
    split
    · next htop =>
      exact unsigned?_plain hne hd hz x.negative htop.2 hzero
    · exact unsigned?_scientific hne hd hz x.negative (d.exponent + digits.length - 1)
  obtain ⟨l, hl, hliteral⟩ := hbody
  refine ⟨l, ?_, hliteral⟩
  rw [floatChars]
  simp only [← hdef, ← hdigits]
  cases hneg : x.negative with
  | true =>
    rw [hneg] at hl
    exact hl
  | false =>
    rw [hneg] at hl
    obtain ⟨⟨c, cs, hcs, hc⟩, -⟩ := isNumeric_unsigned? hl
    refine (literal?_pos ?_).trans hl
    rw [if_neg (by decide), List.nil_append, hcs]
    rintro ⟨⟩
    exact absurd hc (by decide)

/-- The three largest doubles are read, which is found by reading them. -/
theorem legible_largest : ∀ (negative : Bool) (k : Fin 3),
    Legible (.float ⟨negative, Double.ranks - 1 - k, by unfold Double.ranks Double.block; omega⟩) := by
  decide +kernel

/-- What is written for a double is read as some double. -/
theorem legible_float (x : Double) : Legible (.float x) := by
  by_cases hx : x.rank + 3 < Double.ranks
  · obtain ⟨l, hl, hliteral⟩ := literal?_floatChars x
    obtain ⟨hdigits, hle⟩ := l.leading_le hliteral.whole_le
    rw [hliteral.value_eq] at hle
    have hscaled : (l.leading.scaled? l.negative).isSome := by
      refine Decimal.isSome_scaled? l.negative (Nat.lt_succ_of_le hdigits) ?_
      intro _
      exact lt_of_le_of_lt (mul_le_mul_of_nonneg_right hle (by positivity)) (Double.shortest_lt hx)
    have hnumber : l.number? = l.float? := by
      rw [Literal.number?]
      refine if_neg ?_
      intro h
      rcases hliteral.marked with hm | hm
      · rw [Option.isNone_iff_eq_none.mp h.1] at hm
        cases hm
      · rw [Option.isNone_iff_eq_none.mp h.2.1] at hm
        cases hm
    rw [Legible, chars, ofChars?, hl]
    simp only [Option.bind_eq_bind, Option.bind_some, hnumber, Literal.float?, Option.isSome_map, hscaled]
  · obtain ⟨negative, rank, hlt⟩ := x
    have hlargest := legible_largest negative ⟨Double.ranks - 1 - rank, by simp only at hx; omega⟩
    have hrank : Double.ranks - 1 - (Double.ranks - 1 - rank) = rank := by omega
    simp only [hrank] at hlargest
    exact hlargest

/-- A number that is held in 64 bits. -/
def Fits : Number → Prop
  | .int n => -9223372036854775808 ≤ n ∧ n ≤ 18446744073709551615
  | .float _ => True

/-- A number that fits is legible. -/
theorem Fits.legible {n : Number} (h : n.Fits) : n.Legible := by
  cases n with
  | int n =>
    rw [Legible, ofChars?_int h.1 h.2]
    rfl
  | float x => exact legible_float x

end Number

end FlagDelivery
