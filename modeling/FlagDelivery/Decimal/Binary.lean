/-!
# Binary doubles

A `Double` is a finite number of 53 significant bits. It is stored as a sign and a *rank*, its place in the
ascending list of magnitudes, so that neighbours differ by one and every rank below the bound is a number.
`Decimal.toDouble?` reads a decimal as the nearest of them, an exact half going to the even rank, and
answers `none` where the nearest number would lie beyond the largest.
-/

namespace FlagDelivery

/-- The number `digits · 10 ^ exponent`. -/
structure Decimal where
  digits : Nat
  exponent : Int
  deriving DecidableEq, Repr

/-- The number of magnitudes between a power of two and the next: two to the 52nd. -/
def Double.block : Nat := 4503599627370496

/-- The number of magnitudes a finite double can have. -/
def Double.ranks : Nat := 2047 * Double.block

/-- A finite binary floating-point number: a sign and the place of its magnitude in ascending order. -/
structure Double where
  negative : Bool
  rank : Nat
  rank_lt : rank < Double.ranks
  deriving DecidableEq

namespace Double

/-- Zero with the given sign. -/
def zero (negative : Bool) : Double := ⟨negative, 0, by decide⟩

instance : Inhabited Double := ⟨zero false⟩

/-- The magnitude is `significand · 2 ^ scale`. -/
def significand (x : Double) : Nat :=
  if x.rank < block then x.rank else block + x.rank % block

/-- The power of two that the significand counts. -/
def scale (x : Double) : Int :=
  if x.rank < block then -1074 else (x.rank / block : Nat) - 1075

/-- The magnitude as a fraction, numerator first. -/
def magnitude (x : Double) : Nat × Nat :=
  (x.significand * Nat.pow 2 x.scale.toNat, Nat.pow 2 (-x.scale).toNat)

/-- The number of patterns of 63 bits, which stand below the sign bit. -/
def signBit : Nat := 2048 * block

/-- The sign bit above the rank: the number's 64-bit pattern. -/
def toBits (x : Double) : UInt64 :=
  (if x.negative then signBit + x.rank else x.rank).toUInt64

/-- The finite number with a 64-bit pattern, if the pattern is one of a finite number. -/
def ofBits? (bits : UInt64) : Option Double :=
  let rank := bits.toNat % signBit
  if h : rank < ranks then some ⟨signBit ≤ bits.toNat, rank, h⟩ else none

end Double

namespace Decimal

/-- The quotient to the nearest integer, a half going to the even one. -/
def roundDiv (num den : Nat) : Nat :=
  let q := num / den
  let twice := 2 * (num % den)
  if twice < den then q else if den < twice then q + 1 else q + q % 2

/-- The largest `k` with `2 ^ k ≤ num / den`, for positive `num` and `den`. -/
def log2Div (num den : Nat) : Int :=
  let k : Int := (Nat.log2 num : Int) - Nat.log2 den
  if den * Nat.pow 2 k.toNat ≤ num * Nat.pow 2 (-k).toNat then k else k - 1

/-- The rank of the magnitude nearest to `num / den`; it may lie beyond the finite ones. The significand
counts units of `2 ^ unit`; carrying into the next power of two carries into the next block of ranks. -/
def nearestRank (num den : Nat) : Nat :=
  let unit : Int := max (-1074) (log2Div num den - 52)
  (unit + 1074).toNat * Double.block + roundDiv (num * Nat.pow 2 (-unit).toNat) (den * Nat.pow 2 unit.toNat)

/-- The value as a fraction, numerator first. -/
def fraction (d : Decimal) : Nat × Nat :=
  (d.digits * Nat.pow 10 d.exponent.toNat, Nat.pow 10 (-d.exponent).toNat)

/-- The rank nearest to a decimal. Exponents that decide the answer alone are settled before any power is
computed: above 400 every non-zero value is too large, and far enough below zero every one rounds to zero. -/
def rank (d : Decimal) : Nat :=
  if d.digits = 0 then 0
  else if 400 < d.exponent then Double.ranks
  else if d.exponent < -400 - (Nat.log2 d.digits : Int) then 0
  else nearestRank d.fraction.1 d.fraction.2

/-- The double nearest to a decimal, or `none` if that is beyond the largest one. -/
def toDouble? (negative : Bool) (d : Decimal) : Option Double :=
  if h : d.rank < Double.ranks then some ⟨negative, d.rank, h⟩ else none

end Decimal

end FlagDelivery
