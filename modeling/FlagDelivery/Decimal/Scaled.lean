import FlagDelivery.Decimal.Binary

/-!
# Scaling by powers of ten

`Decimal.scaled?` reads a decimal in steps, each of which rounds to the nearest double: the digits become a
double, which is then multiplied by a power of ten or divided by one. Where the digits and the power are both
exact the result is the nearest double; otherwise the roundings add up, and it can lie a few ranks off.
-/

namespace FlagDelivery

namespace Double

/-- The double nearest to a fraction, or `none` if that is beyond the largest one. -/
def ofFraction? (negative : Bool) (num den : Nat) : Option Double :=
  let rank := if num = 0 then 0 else Decimal.nearestRank num den
  if h : rank < ranks then some ⟨negative, rank, h⟩ else none

/-- The product with `10 ^ exponent`, rounded once: a power that is no double itself stands for the nearest
one, and a negative exponent divides by the power. -/
def scale10? (x : Double) (exponent : Int) : Option Double := do
  let power ← Decimal.toDouble? false ⟨1, exponent.natAbs⟩
  if 0 ≤ exponent then
    ofFraction? x.negative (x.magnitude.1 * power.magnitude.1) (x.magnitude.2 * power.magnitude.2)
  else
    ofFraction? x.negative (x.magnitude.1 * power.magnitude.2) (x.magnitude.2 * power.magnitude.1)

end Double

namespace Decimal

/-- The exponents of the powers of ten that scale by `10 ^ exponent`. The largest power among the doubles is
`10 ^ 308`; dividing by it twice leaves nothing of digits that fit 64 bits. -/
def steps (exponent : Int) : List Int :=
  if -308 ≤ exponent then [exponent] else [-308, max (-308) (exponent + 308)]

/-- The double that a decimal is read as, or `none` if a step leads beyond the largest one. -/
def scaled? (negative : Bool) (d : Decimal) : Option Double := do
  let x ← toDouble? negative ⟨d.digits, 0⟩
  if x.rank = 0 then return x
  (steps d.exponent).foldlM Double.scale10? x

end Decimal

end FlagDelivery
