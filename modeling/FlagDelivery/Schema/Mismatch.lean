import FlagDelivery.Json.Text
import FlagDelivery.Text.Quoted

/-!
# Why a value does not have the expected form

A `Mismatch` names the first thing wrong with a JSON value that was read against a `Format`, and
`Mismatch.message` words it.
-/

namespace FlagDelivery

/-- The way a JSON value differs from the expected form. -/
inductive Mismatch where
  /-- A value of another type than the expected one. -/
  | wrongType (found : Json) (expected : String)
  /-- An integer that no version can be. -/
  | outOfRange (found : Int)
  /-- An object without a required field. -/
  | missing (field : String)
  /-- An array that ends before a required field of a record with so many fields. -/
  | tooShort (length : Nat) (record : String) (width : Nat)
  /-- An array with more items than the record has fields. -/
  | tooLong (length : Nat)
  deriving DecidableEq

namespace Mismatch

/-- A value as it is named in a message: simple values are shown, arrays and objects only named. -/
def describe : Json → String
  | .null => "null"
  | .bool true => "boolean `true`"
  | .bool false => "boolean `false`"
  | .num (.int n) => "integer `" ++ String.ofList (Number.int n).chars ++ "`"
  | .num (.float x) => "floating point `" ++ String.ofList (Number.float x).chars ++ "`"
  | .str s => "string " ++ Quoted.quote s
  | .arr _ => "sequence"
  | .obj _ => "map"

/-- A count of elements. -/
def elements : Nat → String
  | 1 => "1 element"
  | n => toString n ++ " elements"

/-- The wording of a mismatch. -/
def message : Mismatch → String
  | .wrongType found expected => "invalid type: " ++ describe found ++ ", expected " ++ expected
  | .outOfRange n => "invalid value: integer `" ++ toString n ++ "`, expected i64"
  | .missing field => "missing field `" ++ field ++ "`"
  | .tooShort length record width =>
    "invalid length " ++ toString length ++ ", expected struct " ++ record ++ " with " ++ elements width
  | .tooLong length => "invalid length " ++ toString length ++ ", expected fewer elements in array"

end Mismatch

end FlagDelivery
