import FlagDelivery.Retry.Duration

/-!
# Retry policies

A `Policy` says how often an operation is attempted and how long to wait between attempts: the delay grows
by a factor from attempt to attempt up to a greatest one, and may be lengthened by up to a quarter at random.
-/

namespace FlagDelivery

/-- How often to try and how long to wait in between. Without a greatest number, attempts never end. -/
structure Policy where
  maxAttempts : Option Nat
  initialDelay : Duration
  maxDelay : Duration
  multiplier : Float
  jitter : Bool

namespace Policy

/-- A given number of attempts; from 5 to 500 milliseconds between them, twice as long each time. -/
def attempts (n : Nat) : Policy := ⟨some n, .ofMillis 5, .ofMillis 500, 2.0, true⟩

/-- Attempts without end. -/
def unbounded : Policy := { attempts 0 with maxAttempts := none }

/-- One attempt. -/
def once : Policy := ⟨some 1, ⟨0⟩, ⟨0⟩, 1.0, false⟩

instance : Inhabited Policy := ⟨attempts 10⟩

/-- Another attempt is allowed after so many. -/
def allows (p : Policy) (made : Nat) : Bool :=
  match p.maxAttempts with
  | some n => made < n
  | none => true

/-- A power by repeated squaring, for exponents below `2 ^ fuel`. -/
def power (base : Float) : (fuel exponent : Nat) → (product : Float) → Float
  | 0, _, product => product
  | fuel + 1, exponent, product =>
    let product := if exponent % 2 = 1 then product * base else product
    if exponent / 2 = 0 then product else power (base * base) fuel (exponent / 2) product

/-- The lesser of two numbers; something that is not a number gives way to the other. -/
def lesser (a b : Float) : Float := if a.isNaN then b else if b.isNaN then a else if a < b then a else b

/-- The seconds to wait before the next attempt after so many, without the random part. -/
def delaySeconds (p : Policy) (made : Nat) : Float :=
  let exponent := min (made - 1) 2147483647
  lesser (p.initialDelay.toSeconds * power p.multiplier 31 exponent 1.0) p.maxDelay.toSeconds

/-- How long to wait at least before the next attempt after so many; nothing before the first. -/
def delay (p : Policy) (made : Nat) : Except DurationFault Duration :=
  if made = 0 then .ok ⟨0⟩ else Duration.ofSecondsFloat (p.delaySeconds made)

end Policy

end FlagDelivery
