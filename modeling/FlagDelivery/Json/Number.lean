import FlagDelivery.Json.Value
import FlagDelivery.Decimal.Scaled
import FlagDelivery.Decimal.Shortest

/-!
# Number literals

`Number.chars` writes an integer as its digits and a double with the fewest digits that it is nearest to, as a
plain decimal while its leading digit stands between `10 ^ -5` and `10 ^ 15` and with an exponent otherwise.
`Number.ofChars?` reads a literal of standard JSON: one without point and exponent that fits 64 bits is an
integer, any other a double, and a literal too large for a double is refused. A double is read by scaling, so
what is written for one may be read as a neighbour of it.
-/

namespace FlagDelivery.Number

/-- A plain decimal for a leading digit at `10 ^ top`: always with a point, and a digit on both its sides. -/
def plain (digits : List Char) (top : Int) : List Char :=
  if top < 0 then '0' :: '.' :: (List.replicate (-top - 1).toNat '0' ++ digits)
  else
    let whole := top.toNat + 1
    let rest := digits.drop whole
    digits.take whole ++ List.replicate (whole - digits.length) '0' ++ '.' :: (if rest.isEmpty then ['0'] else rest)

/-- One digit, the rest after a point, and the exponent with its sign. -/
def scientific (digits : List Char) (top : Int) : List Char :=
  let lead := match digits with
    | d :: rest@(_ :: _) => d :: '.' :: rest
    | _ => digits
  lead ++ 'e' :: (if top < 0 then '-' else '+') :: Nat.toDigits 10 top.natAbs

/-- The text of a double. -/
def floatChars (x : Double) : List Char :=
  let d := x.shortest
  let digits := Nat.toDigits 10 d.digits
  let top := d.exponent + digits.length - 1
  (if x.negative then ['-'] else []) ++ if -5 ≤ top ∧ top < 16 then plain digits top else scientific digits top

/-- The text of a number. -/
def chars : Number → List Char
  | .int (.ofNat n) => Nat.toDigits 10 n
  | .int (.negSucc n) => '-' :: Nat.toDigits 10 (n + 1)
  | .float x => floatChars x

/-- The number with one more digit at its end. -/
def push (n : Nat) (c : Char) : Nat := 10 * n + (c.toNat - '0'.toNat)

/-- The value of a run of decimal digits. -/
def ofDigits (cs : List Char) : Nat := cs.foldl push 0

/-- The greatest integer of 64 bits. -/
def greatest : Nat := 18446744073709551615

/-- Puts digits at the end of a number while it fits 64 bits; gives the number and the digits left over. -/
def gather : Nat → List Char → Nat × List Char
  | n, [] => (n, [])
  | n, c :: cs => if push n c ≤ greatest then gather (push n c) cs else (n, c :: cs)

/-- The parts of a literal: the digits before the point, those after it, and the exponent. -/
structure Literal where
  negative : Bool
  whole : List Char
  fraction : Option (List Char)
  exponent : Option Int
  deriving DecidableEq

/-- One or more digits that make up the whole text. -/
def digits? (cs : List Char) : Option (List Char) := if cs ≠ [] ∧ cs.all Char.isDigit then some cs else none

/-- An exponent: digits after an optional sign. -/
def exponent? : List Char → Option Int
  | '-' :: cs => (digits? cs).map fun ds => -(ofDigits ds : Int)
  | '+' :: cs => (digits? cs).map fun ds => (ofDigits ds : Int)
  | cs => (digits? cs).map fun ds => (ofDigits ds : Int)

/-- The exponent part after a mantissa: absent, or led by `e` or `E`. -/
def exponentPart? : List Char → Option (Option Int)
  | [] => some none
  | c :: cs => if c = 'e' ∨ c = 'E' then (exponent? cs).map some else none

/-- Splits a literal into its parts; the digits before the point start with zero only if zero is the only one. -/
def literal? (cs : List Char) : Option Literal := do
  let (negative, cs) := match cs with
    | '-' :: cs => (true, cs)
    | cs => (false, cs)
  let whole ← digits? (cs.takeWhile Char.isDigit)
  if whole.head? = some '0' ∧ whole ≠ ['0'] then failure
  match cs.dropWhile Char.isDigit with
  | '.' :: cs =>
    let fraction ← digits? (cs.takeWhile Char.isDigit)
    let exponent ← exponentPart? (cs.dropWhile Char.isDigit)
    return ⟨negative, whole, some fraction, exponent⟩
  | cs =>
    let exponent ← exponentPart? cs
    return ⟨negative, whole, none, exponent⟩

/-- The decimal that stands for a literal: the leading digits that fit 64 bits. Digits left over before the
point count only as places; those after it are dropped. -/
def Literal.leading (l : Literal) : Decimal :=
  let fraction := l.fraction.getD []
  let (n, places) := gather 0 l.whole
  let (n, dropped) := gather n fraction
  ⟨n, l.exponent.getD 0 + places.length - (fraction.length - dropped.length : Nat)⟩

/-- The literal as a double. -/
def Literal.float? (l : Literal) : Option Number := (l.leading.scaled? l.negative).map .float

/-- The number a literal denotes: an integer if it has neither point nor exponent, is not `-0` and lies
between the least signed and the greatest unsigned integer of 64 bits. -/
def Literal.number? (l : Literal) : Option Number :=
  let n := ofDigits l.whole
  let bound := if l.negative then 9223372036854775808 else greatest
  if l.fraction.isNone ∧ l.exponent.isNone ∧ ¬(l.negative ∧ n = 0) ∧ n ≤ bound then
    some (.int (if l.negative then -n else n))
  else l.float?

/-- The number whose literal the whole text is. -/
def ofChars? (cs : List Char) : Option Number := literal? cs >>= Literal.number?

end FlagDelivery.Number
