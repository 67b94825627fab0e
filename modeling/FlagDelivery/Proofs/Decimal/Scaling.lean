import FlagDelivery.Decimal.Scaled
import FlagDelivery.Decimal.Shortest
import FlagDelivery.Proofs.Decimal.Rounding

/-!
# Scaling does not lead beyond the largest double

`Decimal.scaled?` rounds three times. `Decimal.isSome_scaled?` says that it gives a double unless the decimal is so
large that the roundings together could lead beyond the largest one; `Double.shortest_lt` says of a double's shortest
decimal that it is no larger than that but for the three largest doubles.
-/

namespace FlagDelivery

namespace Double

/-- The rank of a fraction that is not beyond the largest double. -/
theorem isSome_ofFraction? (negative : Bool) {num den : Nat} (hd : 0 < den) (h : (num : ℚ) / den < beyond) :
    ∃ x, ofFraction? negative num den = some x := by
  have hlt : (if num = 0 then 0 else Decimal.nearestRank num den) < ranks := by
    split
    · decide
    · next hn => exact Decimal.nearestRank_lt (Nat.pos_of_ne_zero hn) hd h
  exact ⟨⟨negative, _, hlt⟩, by rw [ofFraction?]; exact dif_pos hlt⟩

end Double

namespace Decimal

open Double

/-- A decimal of a rank that is in range is read as the number of this rank. -/
theorem toDouble?_of_lt {d : Decimal} (h : d.rank < ranks) (negative : Bool) :
    d.toDouble? negative = some ⟨negative, d.rank, h⟩ :=
  dif_pos h

/-- The rank of a natural number, written with an exponent that is not too large. -/
theorem rank_natural {n k : Nat} (hn : 0 < n) (hk : k ≤ 400) : rank ⟨n, k⟩ = nearestRank (n * 10 ^ k) 1 := by
  have hsmall : ¬(k : ℤ) < -400 - (Nat.log2 n : ℤ) := by omega
  have hlarge : ¬400 < (k : ℤ) := by omega
  have hneg : (-(k : ℤ)).toNat = 0 := by omega
  rw [rank, if_neg hn.ne', if_neg hlarge, if_neg hsmall]
  simp only [fraction, Int.toNat_natCast, hneg]
  rfl

/-- The powers of ten among the doubles. -/
theorem exists_power {k : Nat} (hk : k ≤ 308) :
    ∃ p, toDouble? false ⟨1, k⟩ = some p ∧ 1 ≤ p.value ∧ p.value ≤ 10 ^ k * (1 + 1 / 2 ^ 53) := by
  have hpow : (10 : ℚ) ^ k ≤ 10 ^ 308 := pow_le_pow_right₀ (by norm_num) hk
  have hrank : rank ⟨1, k⟩ = nearestRank (10 ^ k) 1 := by
    have h := rank_natural one_pos (show k ≤ 400 by omega)
    rwa [one_mul] at h
  have hlt : rank ⟨1, k⟩ < ranks := by
    rw [hrank]
    refine nearestRank_lt (Nat.pow_pos (by decide)) one_pos ?_
    rw [Nat.cast_one, div_one, Nat.cast_pow]
    exact lt_of_le_of_lt hpow pow_308_lt_beyond
  refine ⟨_, toDouble?_of_lt hlt false, ?_⟩
  have hvalue := value_of_nearestRank (Nat.pow_pos (show 0 < 10 by decide)) (x := ⟨false, rank ⟨1, k⟩, hlt⟩) hrank
  rwa [Nat.cast_pow] at hvalue

/-- Digits that fit 64 bits, as a double. -/
theorem exists_digits (negative : Bool) {n : Nat} (hn : 0 < n) (h : n < 2 ^ 64) :
    ∃ x, toDouble? negative ⟨n, 0⟩ = some x ∧ x.value ≤ n * (1 + 1 / 2 ^ 53) := by
  have hrank : rank ⟨n, 0⟩ = nearestRank n 1 := by
    have h := rank_natural hn (Nat.zero_le 400)
    rwa [pow_zero, mul_one] at h
  have hlt : rank ⟨n, 0⟩ < ranks := by
    rw [hrank]
    refine nearestRank_lt hn one_pos ?_
    rw [Nat.cast_one, div_one]
    calc (n : ℚ) ≤ 10 ^ 20 := by exact_mod_cast (show n ≤ 10 ^ 20 by omega)
      _ ≤ 10 ^ 308 := pow_le_pow_right₀ (by norm_num) (by decide)
      _ < beyond := pow_308_lt_beyond
  refine ⟨_, toDouble?_of_lt hlt negative, ?_⟩
  exact (value_of_nearestRank hn (x := ⟨negative, rank ⟨n, 0⟩, hlt⟩) hrank).2

/-- A double scaled down, or up but not too far. -/
theorem exists_scale10? (x : Double) {e : ℤ} (he : -308 ≤ e) (he' : e ≤ 308)
    (h : 0 ≤ e → x.value * (10 ^ e * (1 + 1 / 2 ^ 53)) < beyond) : ∃ y, x.scale10? e = some y := by
  obtain ⟨p, hp, hone, hle⟩ := exists_power (k := e.natAbs) (by omega)
  have hx : 0 ≤ x.value := mul_nonneg (Nat.cast_nonneg _) (by positivity)
  have hxm : (0 : ℚ) < x.magnitude.2 := by exact_mod_cast x.magnitude_pos
  have hpm : (0 : ℚ) < p.magnitude.2 := by exact_mod_cast p.magnitude_pos
  have hscale : x.scale10? e =
      if 0 ≤ e then
        ofFraction? x.negative (x.magnitude.1 * p.magnitude.1) (x.magnitude.2 * p.magnitude.2)
      else ofFraction? x.negative (x.magnitude.1 * p.magnitude.2) (x.magnitude.2 * p.magnitude.1) := by
    rw [scale10?, hp]
    rfl
  rw [hscale]
  split
  · next hpos =>
    refine isSome_ofFraction? _ (Nat.mul_pos x.magnitude_pos p.magnitude_pos) ?_
    have habs : (10 : ℚ) ^ e.natAbs = 10 ^ e := by
      rw [← zpow_natCast, Int.natAbs_of_nonneg hpos]
    rw [habs] at hle
    rw [Nat.cast_mul, Nat.cast_mul, mul_div_mul_comm, ← Double.value_eq_div, ← Double.value_eq_div]
    exact lt_of_le_of_lt (mul_le_mul_of_nonneg_left hle hx) (h hpos)
  · have hp1 : (0 : ℚ) < p.magnitude.1 := by
      rw [Double.value_eq_div, le_div_iff₀ hpm] at hone
      linarith
    refine isSome_ofFraction? _ (Nat.mul_pos x.magnitude_pos (by exact_mod_cast hp1)) ?_
    have hquot : ((x.magnitude.1 * p.magnitude.2 : Nat) : ℚ) / ((x.magnitude.2 * p.magnitude.1 : Nat) : ℚ) =
        x.value / p.value := by
      rw [Double.value_eq_div, Double.value_eq_div]
      push_cast
      field_simp
    rw [hquot]
    exact lt_of_le_of_lt (div_le_self hx hone) (value_lt_beyond x)

/-- A decimal whose digits fit 64 bits is read as a double, unless it is as large as the largest ones. -/
theorem isSome_scaled? (negative : Bool) {d : Decimal} (hd : d.digits < 2 ^ 64)
    (h : 0 ≤ d.exponent → d.value * (1 + 1 / 2 ^ 53) ^ 2 < beyond) : (d.scaled? negative).isSome := by
  rcases Nat.eq_zero_or_pos d.digits with hz | hpos
  · have hrank : rank ⟨d.digits, 0⟩ = 0 := by rw [rank, if_pos hz]
    have hlt : rank ⟨d.digits, 0⟩ < ranks := by
      rw [hrank]
      decide
    rw [scaled?, toDouble?_of_lt hlt]
    simp [hrank]
  · obtain ⟨x, hx, hle⟩ := exists_digits negative hpos hd
    have hone : (1 : ℚ) ≤ d.digits := by exact_mod_cast hpos
    rw [scaled?, hx]
    simp only [Option.bind_eq_bind, Option.bind_some]
    split
    · rfl
    · rw [steps]
      split
      · next he =>
        -- With more than 308 zeros to add a decimal of at least one digit is out of range.
        have hsmall : d.exponent ≤ 308 := by
          by_contra hne
          have h := h (by omega)
          have hlarge : (10 : ℚ) ^ 309 ≤ d.value := by
            calc (10 : ℚ) ^ 309 ≤ 10 ^ d.exponent := by
                  rw [← zpow_natCast]
                  exact zpow_le_zpow_right₀ (by norm_num) (by push_cast; omega)
              _ ≤ d.digits * 10 ^ d.exponent := le_mul_of_one_le_left (by positivity) hone
          have hbig : d.value ≤ d.value * (1 + 1 / 2 ^ 53) ^ 2 :=
            le_mul_of_one_le_right ((by positivity : (0 : ℚ) ≤ 10 ^ 309).trans hlarge) (by norm_num)
          exact lt_asymm h (lt_of_lt_of_le beyond_lt_pow_309 (hlarge.trans hbig))
        obtain ⟨y, hy⟩ := exists_scale10? x he hsmall fun hnonneg => by
          calc x.value * (10 ^ d.exponent * (1 + 1 / 2 ^ 53))
              ≤ d.digits * (1 + 1 / 2 ^ 53) * (10 ^ d.exponent * (1 + 1 / 2 ^ 53)) := by gcongr
            _ = d.value * (1 + 1 / 2 ^ 53) ^ 2 := by rw [value]; ring
            _ < beyond := h hnonneg
        simp [hy]
      · -- A small exponent is taken off in two steps, of which neither makes the number larger.
        obtain ⟨y, hy⟩ := exists_scale10? x (le_refl (-308)) (by omega) (by omega)
        obtain ⟨z, hz⟩ := exists_scale10? y (le_max_left (-308) (d.exponent + 308)) (by omega) (by omega)
        simp [hy, hz]

end Decimal

/-! ## Shortest decimals -/

namespace Decimal

open Double

/-- Trailing zeros do not count for the value. -/
theorem value_trim (fuel : Nat) (d : Decimal) : (d.trim fuel).value = d.value := by
  induction fuel generalizing d with
  | zero => rfl
  | succ fuel ih =>
    rw [trim]
    split
    · next h =>
      have hdigits : d.digits = 10 * (d.digits / 10) := by omega
      rw [ih, value, value, zpow_add_one₀ (by norm_num)]
      conv_rhs => rw [hdigits]
      push_cast
      ring
    · rfl

/-- Without its trailing zeros a decimal that is not zero is still not zero. -/
theorem digits_trim {d : Decimal} (h : d.digits ≠ 0) (fuel : Nat) : (d.trim fuel).digits ≠ 0 := by
  induction fuel generalizing d with
  | zero => exact h
  | succ fuel ih =>
    rw [trim]
    split
    · exact ih (by simp only; omega)
    · exact h

/-- A decimal with an exponent that rounds it to zero is no more than one. -/
theorem value_le_one {d : Decimal} (h : d.exponent < -400 - (Nat.log2 d.digits : ℤ)) : d.value ≤ 1 := by
  have hlog : d.digits ≤ 10 ^ (d.digits.log2 + 1) :=
    Nat.lt_log2_self.le.trans (Nat.pow_le_pow_left (by decide) _)
  calc d.value ≤ 10 ^ (d.digits.log2 + 1) * 10 ^ (-(d.digits.log2 + 1 : Nat) : ℤ) := by
        rw [value]
        gcongr
        · exact_mod_cast hlog
        · norm_num
        · push_cast
          omega
    _ = 1 := by rw [zpow_neg, zpow_natCast, mul_inv_cancel₀ (by positivity)]

/-- A decimal whose rank is below the last `k` ones lies below them. -/
theorem value_le_of_rank_add_lt {d : Decimal} {k : Nat} (hk : k < block) (h : d.rank + k < ranks) :
    d.value ≤ (2 ^ 53 - k - 1 / 2) * 2 ^ (971 : ℤ) := by
  have hk' : (k : ℚ) + 1 ≤ 2 ^ 52 := by rw [← block_eq]; exact_mod_cast hk
  have hone : (1 : ℚ) ≤ (2 ^ 53 - k - 1 / 2) * 2 ^ (971 : ℤ) := by
    have hpow : (1 : ℚ) ≤ 2 ^ (971 : ℤ) := one_le_zpow₀ one_le_two (by decide)
    have hcount : (1 : ℚ) ≤ 2 ^ 53 - k - 1 / 2 := by linarith
    exact one_le_mul_of_one_le_of_one_le hcount hpow
  rcases Nat.eq_zero_or_pos d.digits with hz | hpos
  · have hv : d.value = 0 := by rw [value, hz, Nat.cast_zero, zero_mul]
    exact hv.le.trans (zero_le_one.trans hone)
  · rw [rank, if_neg hpos.ne'] at h
    split at h
    · omega
    · split at h
      · next hsmall => exact (value_le_one hsmall).trans hone
      · rw [value_eq_div]
        exact le_of_nearestRank_lt (Nat.mul_pos hpos (Nat.pow_pos (by decide))) d.fraction_pos hk h

end Decimal

namespace Double

/-- A number has the rank of each decimal that it is nearest to. -/
theorem rank_of_isNearest {x : Double} {d : Decimal} (h : x.IsNearest d) : x.rank = d.rank := by
  rw [IsNearest, Decimal.toDouble?] at h
  split at h
  · exact congrArg Double.rank (Option.some.inj h).symm
  · cases h

/-- Of a number other than zero the significand is not zero. -/
theorem significand_ne_zero {x : Double} (h : x.rank ≠ 0) : x.significand ≠ 0 := by
  have : 0 < block := by decide
  rw [significand]
  split <;> omega

/-- The magnitude written out exactly is the magnitude. -/
theorem value_exact (x : Double) : x.exact.value = x.value := by
  rw [exact, value]
  split
  · next h =>
    rw [Decimal.value, zpow_zero, mul_one]
    push_cast [Nat.pow_eq]
    rw [← zpow_natCast, Int.toNat_of_nonneg h]
  · next h =>
    have hpow : (5 : ℚ) ^ (-x.scale).toNat * 10 ^ x.scale = 2 ^ x.scale := by
      rw [← zpow_natCast, Int.toNat_of_nonneg (by omega), zpow_neg, show (10 : ℚ) = 5 * 2 by norm_num, mul_zpow]
      field_simp
    rw [Decimal.value]
    push_cast [Nat.pow_eq]
    rw [mul_assoc, hpow]

/-- The exact decimal of a number other than zero has a digit. -/
theorem digits_exact {x : Double} (h : x.rank ≠ 0) : x.exact.digits ≠ 0 := by
  have hs := significand_ne_zero h
  rw [exact]
  split
  · exact Nat.mul_ne_zero hs (Nat.pow_pos (by decide)).ne'
  · exact Nat.mul_ne_zero hs (Nat.pow_pos (by decide)).ne'

/-- The first of two that has a property has it. -/
theorem of_first {α : Type} {p : α → Prop} [DecidablePred p] {a b c : α}
    (h : (if p a then some a else if p b then some b else none) = some c) : p c := by
  split at h
  · next ha => exact Option.some.inj h ▸ ha
  · split at h
    · next hb => exact Option.some.inj h ▸ hb
    · cases h

/-- A number is nearest to the decimal that a grid has for it. -/
theorem isNearest_onGrid? {x : Double} {unit : Int} {d : Decimal} (h : x.onGrid? unit = some d) : x.IsNearest d :=
  of_first h

/-- The shortest decimal of a double other than zero has digits, and has the value of the double or of a decimal that
the double is nearest to. -/
theorem shortest_spec {x : Double} (h : x.rank ≠ 0) :
    x.shortest.digits ≠ 0 ∧ (x.shortest.value = x.value ∨ ∃ d, x.IsNearest d ∧ x.shortest.value = d.value) := by
  rw [shortest, if_neg h]
  simp only
  cases hfind : (List.range 17).findSome? fun (i : Nat) =>
      x.onGrid? (Decimal.log10Div x.magnitude.1 x.magnitude.2 - i) with
  | none =>
    rw [Option.getD_none, Decimal.value_trim]
    exact ⟨Decimal.digits_trim (digits_exact h) _, .inl x.value_exact⟩
  | some d =>
    obtain ⟨i, -, hi⟩ := List.exists_of_findSome?_eq_some hfind
    have hd := isNearest_onGrid? hi
    rw [Option.getD_some, Decimal.value_trim]
    refine ⟨Decimal.digits_trim (fun hz => h ?_) _, .inr ⟨d, hd, rfl⟩⟩
    rw [rank_of_isNearest hd, Decimal.rank, if_pos hz]

/-- But for the three largest doubles, the roundings of scaling do not lead the shortest decimal beyond the largest
double. -/
theorem shortest_lt {x : Double} (h : x.rank + 3 < ranks) : x.shortest.value * (1 + 1 / 2 ^ 53) ^ 2 < beyond := by
  have hle : x.shortest.value ≤ (2 ^ 53 - (3 : Nat) - 1 / 2) * 2 ^ (971 : ℤ) := by
    by_cases hz : x.rank = 0
    · have hv : x.shortest.value = 0 := by rw [shortest, if_pos hz, Decimal.value, Nat.cast_zero, zero_mul]
      rw [hv]
      positivity
    · rcases (shortest_spec hz).2 with hv | ⟨d, hd, hv⟩
      · have hx := Decimal.value_le_of_rank_lt (show 3 < block by decide) h
        have hlt : (2 ^ 53 - (3 : Nat) - 1 : ℚ) ≤ 2 ^ 53 - (3 : Nat) - 1 / 2 := by norm_num
        rw [hv]
        exact hx.trans (mul_le_mul_of_nonneg_right hlt (by positivity))
      · rw [hv]
        exact Decimal.value_le_of_rank_add_lt (show 3 < block by decide) (rank_of_isNearest hd ▸ h)
  have hround : (2 ^ 53 - (3 : Nat) - 1 / 2 : ℚ) * (1 + 1 / 2 ^ 53) ^ 2 < 2 ^ 53 - 1 / 2 := by norm_num
  calc x.shortest.value * (1 + 1 / 2 ^ 53) ^ 2
      ≤ (2 ^ 53 - (3 : Nat) - 1 / 2 : ℚ) * 2 ^ (971 : ℤ) * (1 + 1 / 2 ^ 53) ^ 2 := by gcongr
    _ = (2 ^ 53 - (3 : Nat) - 1 / 2 : ℚ) * (1 + 1 / 2 ^ 53) ^ 2 * 2 ^ (971 : ℤ) := by ring
    _ < beyond := mul_lt_mul_of_pos_right hround (by positivity)

end Double

end FlagDelivery
