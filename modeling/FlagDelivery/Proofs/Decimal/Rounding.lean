import FlagDelivery.Decimal.Binary
import Mathlib.Algebra.Order.Field.Power
import Mathlib.Algebra.Order.Ring.Rat
import Mathlib.Data.Rat.Cast.Order
import Mathlib.Tactic.FieldSimp
import Mathlib.Tactic.GCongr
import Mathlib.Tactic.Linarith
import Mathlib.Tactic.NormNum
import Mathlib.Tactic.Positivity
import Mathlib.Tactic.Ring

/-!
# Rounding to the nearest rank

Magnitudes and decimals as rational numbers. `Decimal.nearestRank_spec` says of a positive fraction which unit is
counted and that the count is within a half of the fraction. From this follow the bound below which every fraction has a
finite rank, `Decimal.nearestRank_lt`, and how far a double can lie above the fraction it is nearest to,
`Decimal.value_of_nearestRank`.
-/

namespace FlagDelivery

/-- An integral power as a fraction of natural powers. -/
theorem zpow_eq_div {b : ℚ} (hb : b ≠ 0) (k : ℤ) : b ^ k = b ^ k.toNat / b ^ (-k).toNat := by
  rw [div_eq_mul_inv, ← zpow_natCast, ← zpow_natCast, ← zpow_neg, ← zpow_add₀ hb]
  congr 1
  omega

namespace Double

/-- The magnitude. -/
def value (x : Double) : ℚ := x.significand * 2 ^ x.scale

theorem magnitude_pos (x : Double) : 0 < x.magnitude.2 := Nat.pow_pos (by decide)

theorem value_eq_div (x : Double) : x.value = x.magnitude.1 / x.magnitude.2 := by
  rw [value, zpow_eq_div (by decide), magnitude]
  push_cast [Nat.pow_eq]
  ring

/-- A block has two to the power of 52 numbers. -/
theorem block_eq : (block : ℚ) = 2 ^ 52 := by
  rw [block]
  norm_num

/-- Half a unit beyond the largest double. -/
def beyond : ℚ := (2 ^ 53 - 1 / 2) * 2 ^ (971 : ℤ)

/-- Half a unit beyond the largest double is a whole number. -/
theorem beyond_eq : beyond = ((2 ^ 54 - 1 : Nat) : ℚ) * 2 ^ 970 := by
  have h : (2 : ℚ) ^ (971 : ℤ) = 2 * 2 ^ 970 := by
    rw [show (971 : ℤ) = ((1 + 970 : Nat) : ℤ) from rfl, zpow_natCast, pow_add, pow_one]
  rw [beyond, h, ← mul_assoc]
  congr 1
  norm_num

-- The powers are compared as natural numbers: `norm_num` does not evaluate exponents as large as these.

/-- Ten to the power of 308 is not beyond the doubles. -/
theorem pow_308_lt_beyond : (10 : ℚ) ^ 308 < beyond := by
  have h : 10 ^ 308 < (2 ^ 54 - 1) * 2 ^ 970 := by decide +kernel
  have h' : ((10 ^ 308 : Nat) : ℚ) < (((2 ^ 54 - 1) * 2 ^ 970 : Nat) : ℚ) := Nat.cast_lt.mpr h
  rw [Nat.cast_pow, Nat.cast_mul, Nat.cast_pow 2 970] at h'
  rw [beyond_eq]
  exact h'

/-- Ten to the power of 309 is. -/
theorem beyond_lt_pow_309 : beyond < (10 : ℚ) ^ 309 := by
  have h : (2 ^ 54 - 1) * 2 ^ 970 < 10 ^ 309 := by decide +kernel
  have h' : (((2 ^ 54 - 1) * 2 ^ 970 : Nat) : ℚ) < ((10 ^ 309 : Nat) : ℚ) := Nat.cast_lt.mpr h
  rw [Nat.cast_pow 10 309, Nat.cast_mul, Nat.cast_pow 2 970] at h'
  rw [beyond_eq]
  exact h'

end Double

namespace Decimal

open Double

/-- The value. -/
def value (d : Decimal) : ℚ := d.digits * 10 ^ d.exponent

theorem fraction_pos (d : Decimal) : 0 < d.fraction.2 := Nat.pow_pos (by decide)

theorem value_eq_div (d : Decimal) : d.value = d.fraction.1 / d.fraction.2 := by
  rw [value, zpow_eq_div (by decide), fraction]
  push_cast [Nat.pow_eq]
  ring

/-! ## Quotients -/

/-- A rounded quotient is within a half of the quotient. -/
theorem abs_roundDiv_sub_le {num den : Nat} (hd : 0 < den) : |(roundDiv num den : ℚ) - num / den| ≤ 1 / 2 := by
  have hd' : (0 : ℚ) < den := by exact_mod_cast hd
  have hdiv : (num : ℚ) = den * (num / den : Nat) + (num % den : Nat) := by exact_mod_cast (Nat.div_add_mod num den).symm
  have hlt : num % den < den := Nat.mod_lt _ hd
  have hw : (num : ℚ) / den = (num / den : Nat) + (num % den : Nat) / den := by
    rw [hdiv]
    field_simp
  rw [hw, abs_le, roundDiv]
  have hr : (0 : ℚ) ≤ (num % den : Nat) / den := by positivity
  split
  · next h =>
    have h' : 2 * ((num % den : Nat) : ℚ) < den := by exact_mod_cast h
    have : ((num % den : Nat) : ℚ) / den ≤ 1 / 2 := by rw [div_le_iff₀ hd']; linarith
    constructor <;> linarith
  · split
    · next h =>
      have h' : (den : ℚ) < 2 * ((num % den : Nat) : ℚ) := by exact_mod_cast h
      have hge : 1 / 2 ≤ ((num % den : Nat) : ℚ) / den := by rw [le_div_iff₀ hd']; linarith
      have hle : ((num % den : Nat) : ℚ) / den ≤ 1 := by rw [div_le_one hd']; exact_mod_cast hlt.le
      push_cast
      constructor <;> linarith
    · have h' : 2 * ((num % den : Nat) : ℚ) = den := by
        have : 2 * (num % den) = den := by omega
        exact_mod_cast this
      have he : ((num % den : Nat) : ℚ) / den = 1 / 2 := by rw [div_eq_iff hd'.ne']; linarith
      have heven : num / den % 2 = 0 ∨ num / den % 2 = 1 := Nat.mod_two_eq_zero_or_one _
      rw [he]
      rcases heven with heven | heven <;> rw [heven] <;> push_cast <;> constructor <;> linarith

/-- A positive number lies between the powers of two that its logarithm stands for. -/
theorem log2_bounds {n : Nat} (h : 0 < n) : (2 : ℚ) ^ (n.log2 : ℤ) ≤ n ∧ (n : ℚ) < 2 ^ ((n.log2 : ℤ) + 1) := by
  have hle : 2 ^ n.log2 ≤ n := Nat.log2_self_le h.ne'
  have hlt : n < 2 ^ (n.log2 + 1) := Nat.lt_log2_self
  constructor
  · rw [zpow_natCast]
    exact_mod_cast hle
  · have : ((n.log2 : ℤ) + 1) = ((n.log2 + 1 : Nat) : ℤ) := by push_cast; rfl
    rw [this, zpow_natCast]
    exact_mod_cast hlt

/-- The power of two at a quotient. -/
theorem log2Div_spec {num den : Nat} (hn : 0 < num) (hd : 0 < den) :
    (2 : ℚ) ^ log2Div num den ≤ num / den ∧ (num : ℚ) / den < 2 ^ (log2Div num den + 1) := by
  have hd' : (0 : ℚ) < den := by exact_mod_cast hd
  obtain ⟨hnle, hnlt⟩ := log2_bounds hn
  obtain ⟨hdle, hdlt⟩ := log2_bounds hd
  set k : ℤ := (num.log2 : ℤ) - den.log2 with hk
  have hlow : (2 : ℚ) ^ (k - 1) ≤ num / den := by
    rw [le_div_iff₀ hd']
    calc (2 : ℚ) ^ (k - 1) * den ≤ 2 ^ (k - 1) * 2 ^ ((den.log2 : ℤ) + 1) := by gcongr
      _ = 2 ^ (num.log2 : ℤ) := by rw [← zpow_add₀ two_ne_zero]; congr 1; omega
      _ ≤ num := hnle
  have hhigh : (num : ℚ) / den < 2 ^ (k + 1) := by
    rw [div_lt_iff₀ hd']
    calc (num : ℚ) < 2 ^ ((num.log2 : ℤ) + 1) := hnlt
      _ = 2 ^ (k + 1) * 2 ^ (den.log2 : ℤ) := by rw [← zpow_add₀ two_ne_zero]; congr 1; omega
      _ ≤ 2 ^ (k + 1) * den := by gcongr
  have hcond : den * Nat.pow 2 k.toNat ≤ num * Nat.pow 2 (-k).toNat ↔ (2 : ℚ) ^ k ≤ num / den := by
    rw [zpow_eq_div two_ne_zero, div_le_div_iff₀ (by positivity) hd', mul_comm ((2 : ℚ) ^ k.toNat)]
    exact_mod_cast Iff.rfl
  rw [log2Div]
  by_cases h : (2 : ℚ) ^ k ≤ num / den
  · rw [if_pos (hcond.mpr h)]
    exact ⟨h, hhigh⟩
  · rw [if_neg fun hc => h (hcond.mp hc)]
    refine ⟨hlow, ?_⟩
    rw [sub_add_cancel]
    exact not_le.mp h

/-- The unit of a rank and how many of it are counted. -/
theorem nearestRank_spec {num den : Nat} (hn : 0 < num) (hd : 0 < den) :
    ∃ (u : ℤ) (q : Nat), -1074 ≤ u ∧ nearestRank num den = (u + 1074).toNat * block + q ∧
      |(q : ℚ) - num / den / 2 ^ u| ≤ 1 / 2 ∧ (num : ℚ) / den / 2 ^ u < 2 ^ 53 ∧
      (u = -1074 ∨ 2 ^ 52 ≤ (num : ℚ) / den / 2 ^ u) := by
  obtain ⟨hlow, hhigh⟩ := log2Div_spec hn hd
  set L := log2Div num den with hL
  have hu : (0 : ℚ) < 2 ^ max (-1074) (L - 52) := by positivity
  refine ⟨max (-1074) (L - 52), _, le_max_left _ _, rfl, ?_, ?_, ?_⟩
  · have hquot : (num : ℚ) / den / 2 ^ max (-1074) (L - 52) =
        ((num * Nat.pow 2 (-max (-1074) (L - 52)).toNat : Nat) : ℚ) /
          ((den * Nat.pow 2 (max (-1074) (L - 52)).toNat : Nat) : ℚ) := by
      rw [zpow_eq_div two_ne_zero (max (-1074) (L - 52))]
      push_cast [Nat.pow_eq]
      field_simp
    rw [hquot]
    exact abs_roundDiv_sub_le (Nat.mul_pos hd (Nat.pow_pos (by decide)))
  · rw [div_lt_iff₀ hu]
    refine lt_of_lt_of_le hhigh ?_
    rw [← zpow_natCast, ← zpow_add₀ two_ne_zero]
    exact zpow_le_zpow_right₀ one_le_two (by push_cast; omega)
  · rcases le_total (L - 52) (-1074) with h | h
    · exact .inl (max_eq_left h)
    · refine .inr ?_
      have hexp : ((52 : Nat) : ℤ) + (L - 52) = L := by omega
      rw [le_div_iff₀ hu, max_eq_right h, ← zpow_natCast, ← zpow_add₀ two_ne_zero, hexp]
      exact hlow

/-! ## Counts -/

/-- A count near enough to a large fraction is at least a block. -/
theorem block_le_count {q : Nat} {f : ℚ} (habs : |(q : ℚ) - f| ≤ 1 / 2) (hge : 2 ^ 52 ≤ f) : block ≤ q := by
  have hlt : ((block : Nat) : ℚ) < (q + 1 : Nat) := by
    push_cast [block_eq]
    linarith [(abs_le.mp habs).1]
  exact Nat.le_of_lt_succ (by exact_mod_cast hlt)

/-- A count near enough to a fraction that fits is at most two blocks: it may be rounded up to the end. -/
theorem count_le_blocks {q : Nat} {f : ℚ} (habs : |(q : ℚ) - f| ≤ 1 / 2) (hlt : f < 2 ^ 53) : q ≤ 2 * block := by
  have hlt' : (q : ℚ) < (2 * block + 1 : Nat) := by
    push_cast [block_eq]
    linarith [(abs_le.mp habs).2]
  exact Nat.le_of_lt_succ (by exact_mod_cast hlt')

/-- A count that leaves room below two blocks, as a rational number. -/
theorem count_add_le {q k : Nat} (h : q + k + 1 ≤ 2 * block) : (q : ℚ) + k + 1 ≤ 2 ^ 53 := by
  have hcast : ((q + k + 1 : Nat) : ℚ) ≤ (2 * block : Nat) := by exact_mod_cast h
  push_cast [block_eq] at hcast
  linarith

/-- Two blocks of a unit are a block of the next one. -/
theorem two_blocks (u : ℤ) : (2 : ℚ) ^ 53 * 2 ^ u = 2 ^ 52 * 2 ^ (u + 1) := by
  rw [zpow_add_one₀ two_ne_zero]
  ring

/-! ## Finite ranks -/

/-- What lies less than half a unit beyond the largest double has a finite rank. -/
theorem nearestRank_lt {num den : Nat} (hn : 0 < num) (hd : 0 < den) (h : (num : ℚ) / den < beyond) :
    nearestRank num den < ranks := by
  obtain ⟨u, q, hu, hrank, habs, hlt, hge⟩ := nearestRank_spec hn hd
  have hpos : (0 : ℚ) < 2 ^ u := by positivity
  have hq : (q : ℚ) ≤ num / den / 2 ^ u + 1 / 2 := by linarith [(abs_le.mp habs).2]
  rw [hrank, ranks]
  rcases lt_or_ge u 971 with hu' | hu'
  · have hq' : q ≤ 2 * block := count_le_blocks habs hlt
    have : (u + 1074).toNat ≤ 2044 := by omega
    rw [block] at *
    omega
  · have hbound : (num : ℚ) / den / 2 ^ u < 2 ^ 53 - 1 / 2 := by
      rw [div_lt_iff₀ hpos]
      refine lt_of_lt_of_le h ?_
      rw [beyond]
      gcongr
      exact one_le_two
    -- Of a larger unit a block at least would be counted, and that is more than the bound.
    have hu'' : u = 971 := by
      by_contra hne
      have hge := hge.resolve_left (by omega)
      rw [le_div_iff₀ hpos] at hge
      have hle : beyond ≤ num / den := by
        calc beyond ≤ 2 ^ 53 * 2 ^ (971 : ℤ) := by rw [beyond]; gcongr; norm_num
          _ = 2 ^ 52 * 2 ^ (972 : ℤ) := two_blocks 971
          _ ≤ 2 ^ 52 * 2 ^ u := by gcongr; exacts [one_le_two, by omega]
          _ ≤ num / den := hge
      exact absurd h (not_lt.mpr hle)
    have hq' : q < 2 * block := by
      have : (q : ℚ) < (2 * block : Nat) := by push_cast [block_eq]; linarith
      exact_mod_cast this
    subst hu''
    rw [block] at *
    omega

/-- What has a rank below the last `k` ones lies below them too. -/
theorem le_of_nearestRank_lt {num den k : Nat} (hn : 0 < num) (hd : 0 < den) (hk : k < block)
    (h : nearestRank num den + k < ranks) : (num : ℚ) / den ≤ (2 ^ 53 - k - 1 / 2) * 2 ^ (971 : ℤ) := by
  obtain ⟨u, q, hu, hrank, habs, hlt, hge⟩ := nearestRank_spec hn hd
  have hpos : (0 : ℚ) < 2 ^ u := by positivity
  have hk' : (k : ℚ) + 1 ≤ 2 ^ 52 := by rw [← block_eq]; exact_mod_cast hk
  rw [hrank, ranks] at h
  rcases lt_or_ge u 971 with hu' | hu'
  · rw [div_lt_iff₀ hpos] at hlt
    calc (num : ℚ) / den ≤ 2 ^ 53 * 2 ^ u := hlt.le
      _ ≤ 2 ^ 53 * 2 ^ (970 : ℤ) := by gcongr; exacts [one_le_two, by omega]
      _ = 2 ^ 52 * 2 ^ (971 : ℤ) := two_blocks 970
      _ ≤ (2 ^ 53 - k - 1 / 2) * 2 ^ (971 : ℤ) := by gcongr; linarith
  · have hu'' : u = 971 := by
      by_contra hne
      have hq : block ≤ q := block_le_count habs (hge.resolve_left (by omega))
      have : 2046 ≤ (u + 1074).toNat := by omega
      rw [block] at *
      omega
    subst hu''
    have hq : q + k + 1 ≤ 2 * block := by
      rw [block] at *
      omega
    have hq' : (q : ℚ) + k + 1 ≤ 2 ^ 53 := count_add_le hq
    rw [← div_le_iff₀ hpos]
    linarith [(abs_le.mp habs).1]

/-! ## Magnitudes of ranks -/

/-- A rank tells its unit and how many of it are counted, also where the count carries into the next block. -/
theorem value_of_rank {x : Double} {u : ℤ} {q : Nat} (hx : x.rank = (u + 1074).toNat * block + q) (hu : -1074 ≤ u)
    (hq : q ≤ 2 * block) (hge : u = -1074 ∨ block ≤ q) : x.value = q * 2 ^ u := by
  rcases lt_or_ge x.rank block with hlt | hle
  · have hu' : u = -1074 := by
      refine hge.resolve_right ?_
      intro hq
      omega
    have hxq : x.rank = q := by rw [hx, hu']; simp
    rw [Double.value, Double.significand, Double.scale, if_pos hlt, if_pos hlt, hxq, hu']
  · rcases Nat.lt_or_ge q (2 * block) with hq' | hq'
    · have hblock : block ≤ q := by
        rcases hge with rfl | hge
        · have : x.rank = q := by rw [hx]; simp
          omega
        · exact hge
      have hdiv : x.rank / block = (u + 1074).toNat + 1 := by
        rw [hx, block] at *
        omega
      have hmod : x.rank % block = q - block := by
        rw [hx, block] at *
        omega
      have hscale : x.scale = u := by
        rw [Double.scale, if_neg (not_lt.mpr hle), hdiv]
        omega
      have hsig : x.significand = q := by
        rw [Double.significand, if_neg (not_lt.mpr hle), hmod]
        omega
      rw [Double.value, hscale, hsig]
    · -- A count of two blocks is the first magnitude of the next scale.
      obtain rfl : q = 2 * block := le_antisymm hq hq'
      have hdiv : x.rank / block = (u + 1074).toNat + 2 := by
        rw [hx, block] at *
        omega
      have hmod : x.rank % block = 0 := by
        rw [hx, block] at *
        omega
      have hscale : x.scale = u + 1 := by
        rw [Double.scale, if_neg (not_lt.mpr hle), hdiv]
        omega
      have hsig : x.significand = block := by rw [Double.significand, if_neg (not_lt.mpr hle), hmod, Nat.add_zero]
      rw [Double.value, hscale, hsig, zpow_add_one₀ two_ne_zero]
      push_cast
      ring

/-- A double whose rank is below the last `k` ones lies below them. -/
theorem value_le_of_rank_lt {x : Double} {k : Nat} (hk : k < block) (hx : x.rank + k < ranks) :
    x.value ≤ (2 ^ 53 - k - 1) * 2 ^ (971 : ℤ) := by
  have hk' : (k : ℚ) + 1 ≤ 2 ^ 52 := by rw [← block_eq]; exact_mod_cast hk
  rcases Nat.lt_or_ge x.rank (2046 * block) with hlt | hge
  · have hsig : (x.significand : ℚ) ≤ 2 ^ 53 := by
      have : x.significand ≤ 2 * block := by
        have := Nat.mod_lt x.rank (show 0 < block by decide)
        rw [Double.significand]
        split <;> omega
      have : (x.significand : ℚ) ≤ (2 * block : Nat) := by exact_mod_cast this
      push_cast [block_eq] at this
      linarith
    have hscale : x.scale ≤ 970 := by
      rw [Double.scale]
      rw [block] at *
      split <;> omega
    calc x.value ≤ 2 ^ 53 * 2 ^ (970 : ℤ) :=
          mul_le_mul hsig (zpow_le_zpow_right₀ one_le_two hscale) (by positivity) (by norm_num)
      _ = 2 ^ 52 * 2 ^ (971 : ℤ) := two_blocks 970
      _ ≤ (2 ^ 53 - k - 1) * 2 ^ (971 : ℤ) := by gcongr; linarith
  · have hscale : x.scale = 971 := by
      rw [Double.scale]
      rw [ranks, block] at *
      split <;> omega
    have hsig : x.significand + k + 1 ≤ 2 * block := by
      rw [Double.significand]
      rw [ranks, block] at *
      split <;> omega
    have hsig' : (x.significand : ℚ) + k + 1 ≤ 2 ^ 53 := count_add_le hsig
    rw [Double.value, hscale]
    gcongr
    linarith

/-- Every double lies below what is beyond the largest one. -/
theorem value_lt_beyond (x : Double) : x.value < beyond := by
  have hle : x.value ≤ (2 ^ 53 - (0 : Nat) - 1) * 2 ^ (971 : ℤ) := value_le_of_rank_lt (by decide) x.rank_lt
  have hlt : (2 ^ 53 - (0 : Nat) - 1 : ℚ) < 2 ^ 53 - 1 / 2 := by norm_num
  exact lt_of_le_of_lt hle (mul_lt_mul_of_pos_right hlt (by positivity))

/-- The double nearest to a natural number lies not far above it, and not below one. -/
theorem value_of_nearestRank {n : Nat} (hn : 0 < n) {x : Double} (hx : x.rank = nearestRank n 1) :
    1 ≤ x.value ∧ x.value ≤ n * (1 + 1 / 2 ^ 53) := by
  obtain ⟨u, q, hu, hrank, habs, hlt, hge⟩ := nearestRank_spec hn one_pos
  rw [Nat.cast_one, div_one] at habs hlt hge
  have hpos : (0 : ℚ) < 2 ^ u := by positivity
  have hone : (1 : ℚ) ≤ n := by exact_mod_cast hn
  have hn' : (n : ℚ) < 2 ^ 53 * 2 ^ u := (div_lt_iff₀ hpos).mp hlt
  have hu' : -52 ≤ u := by
    by_contra hne
    have hstep : (2 : ℚ) ^ u ≤ 2 ^ (-53 : ℤ) := zpow_le_zpow_right₀ one_le_two (by omega)
    have : (2 : ℚ) ^ 53 * 2 ^ u ≤ 1 := by
      calc (2 : ℚ) ^ 53 * 2 ^ u ≤ 2 ^ 53 * 2 ^ (-53 : ℤ) := by gcongr
        _ = 1 := by norm_num
    linarith
  have hge := hge.resolve_left (by omega)
  have hq : block ≤ q := block_le_count habs hge
  rw [value_of_rank (hx.trans hrank) hu (count_le_blocks habs hlt) (.inr hq)]
  constructor
  · calc (1 : ℚ) = 2 ^ 52 * 2 ^ (-52 : ℤ) := by norm_num
      _ ≤ q * 2 ^ u := by
        gcongr
        · rw [← block_eq]
          exact_mod_cast hq
        · exact one_le_two
  · have hcount : (q : ℚ) ≤ n / 2 ^ u + 1 / 2 := by linarith [(abs_le.mp habs).2]
    rw [le_div_iff₀ hpos] at hge
    calc (q : ℚ) * 2 ^ u ≤ (n / 2 ^ u + 1 / 2) * 2 ^ u := by gcongr
      _ = n + 2 ^ 52 * 2 ^ u / 2 ^ 53 := by field_simp
      _ ≤ n + n / 2 ^ 53 := by gcongr
      _ = n * (1 + 1 / 2 ^ 53) := by ring

end Decimal

end FlagDelivery
