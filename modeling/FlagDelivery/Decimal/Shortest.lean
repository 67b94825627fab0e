import FlagDelivery.Decimal.Binary

/-!
# The shortest decimal of a double

`Double.shortest` gives the decimal of fewest digits whose nearest double is the number, and among those the
nearest one, an exact tie going to the even last digit. For each count of digits only the two neighbours of
the number on that decimal grid are tried: if the number is nearest to any point of the grid, it is to one of
them.
-/

namespace FlagDelivery

namespace Decimal

/-- The number of decimal digits; zero has none. -/
def length (n : Nat) : Nat := if n = 0 then 0 else (Nat.toDigits 10 n).length

/-- The largest `k` with `10 ^ k ≤ num / den`, for positive `num` and `den`. -/
def log10Div (num den : Nat) : Int :=
  let k : Int := (length num : Int) - length den
  if den * Nat.pow 10 k.toNat ≤ num * Nat.pow 10 (-k).toNat then k else k - 1

/-- The same value without trailing zeros among at most `fuel` last digits. -/
def trim : Nat → Decimal → Decimal
  | 0, d => d
  | fuel + 1, d => if d.digits ≠ 0 ∧ d.digits % 10 = 0 then trim fuel ⟨d.digits / 10, d.exponent + 1⟩ else d

end Decimal

namespace Double

/-- The number is the double nearest to the decimal, with its own sign. -/
def IsNearest (x : Double) (d : Decimal) : Prop := d.toDouble? x.negative = some x

instance (x : Double) (d : Decimal) : Decidable (x.IsNearest d) := by unfold IsNearest; infer_instance

/-- The magnitude written out exactly. -/
def exact (x : Double) : Decimal :=
  if 0 ≤ x.scale then ⟨x.significand * Nat.pow 2 x.scale.toNat, 0⟩
  else ⟨x.significand * Nat.pow 5 (-x.scale).toNat, x.scale⟩

/-- The better of the two neighbours of the magnitude on the grid of multiples of `10 ^ unit`, if the number
is nearest to one of them. -/
def onGrid? (x : Double) (unit : Int) : Option Decimal :=
  let num := x.magnitude.1 * Nat.pow 10 (-unit).toNat
  let den := x.magnitude.2 * Nat.pow 10 unit.toNat
  let low := num / den
  let nearer := Decimal.roundDiv num den
  let further := if nearer = low then low + 1 else low
  if x.IsNearest ⟨nearer, unit⟩ then some ⟨nearer, unit⟩
  else if x.IsNearest ⟨further, unit⟩ then some ⟨further, unit⟩
  else none

/-- The decimal of fewest digits that the number is nearest to; zero is `0 · 10 ^ 0`. -/
def shortest (x : Double) : Decimal :=
  if x.rank = 0 then ⟨0, 0⟩
  else
    let top := Decimal.log10Div x.magnitude.1 x.magnitude.2
    let d := ((List.range 17).findSome? fun (i : Nat) => x.onGrid? (top - i)).getD x.exact
    d.trim (Decimal.length d.digits)

end Double

end FlagDelivery
