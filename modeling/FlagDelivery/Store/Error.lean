/-!
# Why a store operation fails
-/

namespace FlagDelivery

/-- The cause of a failed store operation. -/
inductive StoreError where
  /-- The store cannot be reached. -/
  | unavailable (detail : String)
  /-- A stored text is not JSON. -/
  | unreadable
  /-- A stored text does not tell what is needed of it. -/
  | corrupted (detail : String)
  /-- Other writers kept changing the space while an item was being written. -/
  | conflicts (space key : String) (attempts : Nat)
  /-- The store reports a failure of its own. -/
  | failed (detail : String)
  deriving DecidableEq

namespace StoreError

/-- A stored text does not tell its version. -/
def noVersion (text : String) : StoreError := .corrupted ("missing version in " ++ text)

/-- The wording of a store error. -/
def message : StoreError → String
  | .unavailable detail => "store unavailable: " ++ detail
  | .unreadable => "serialization error: <json syntax error>"
  | .corrupted detail => "stored item corrupted: " ++ detail
  | .conflicts space key attempts =>
    "gave up writing " ++ space ++ "/" ++ key ++ " after " ++ toString attempts ++ " conflicting attempts"
  | .failed detail => "backend error: " ++ detail

/-- The failure means that the store itself cannot be reached. -/
def isUnavailable : StoreError → Bool
  | .unavailable _ => true
  | _ => false

end StoreError

end FlagDelivery
