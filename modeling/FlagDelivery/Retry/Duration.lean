import FlagDelivery.Decimal.Binary

/-!
# Lengths of time

A `Duration` counts whole nanoseconds. As seconds it is a floating-point number, and such a number is a
duration again when it is neither negative nor too large, to the nearest nanosecond.
-/

namespace FlagDelivery

/-- A length of time in whole nanoseconds. -/
structure Duration where
  nanos : Nat
  deriving DecidableEq, Repr, Inhabited

/-- Why a number of seconds is no duration. -/
inductive DurationFault where
  | negative
  | tooLarge
  deriving DecidableEq, Repr

/-- The wording of the fault. -/
def DurationFault.message : DurationFault → String
  | .negative => "cannot convert float seconds to Duration: value is negative"
  | .tooLarge => "cannot convert float seconds to Duration: value is either too big or NaN"

namespace Duration

/-- The nanoseconds of a second. -/
def perSecond : Nat := 1000000000

/-- A number of milliseconds. -/
def ofMillis (n : Nat) : Duration := ⟨n * 1000000⟩

/-- A number of seconds. -/
def ofSeconds (n : Nat) : Duration := ⟨n * perSecond⟩

/-- The whole seconds. -/
def seconds (d : Duration) : Nat := d.nanos / perSecond

/-- The nanoseconds beyond the whole seconds. -/
def subNanos (d : Duration) : Nat := d.nanos % perSecond

/-- The length in seconds: the whole ones and the rest divided by a billion. -/
def toSeconds (d : Duration) : Float := d.seconds.toFloat + d.subNanos.toFloat / 1e9

/-- A number of seconds to the nearest nanosecond, an exact half going to the even one. -/
def ofSecondsFloat (s : Float) : Except DurationFault Duration :=
  if s < 0.0 then .error .negative
  else if s < 18446744073709551616.0 then
    match Double.ofBits? s.toBits with
    | some x => .ok ⟨Decimal.roundDiv (x.magnitude.1 * perSecond) x.magnitude.2⟩
    | none => .error .tooLarge
  else .error .tooLarge

end Duration

end FlagDelivery
