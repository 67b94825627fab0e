import FlagDelivery.Store.Error

/-!
# Why delivery fails

The errors of a source of messages and of the store that they go to, and which of them a new connection may
get past.
-/

namespace FlagDelivery

/-- The cause of a failure of delivery. -/
inductive DeliveryError where
  /-- The connection failed. -/
  | transport (detail : String) (retryable : Bool)
  /-- The server answered with an HTTP status. -/
  | status (code : Nat)
  /-- The store failed. -/
  | store (error : StoreError)
  /-- The source was closed by its owner. -/
  | cancelled
  /-- There is no connection. -/
  | notConnected
  deriving DecidableEq

namespace DeliveryError

/-- The wording of an error. -/
def message : DeliveryError → String
  | .transport detail _ => "transport error: " ++ detail
  | .status code => "unexpected response status " ++ toString code
  | .store error => "store error: " ++ error.message
  | .cancelled => "sync cancelled"
  | .notConnected => "not connected to server"

/-- A request that failed with a status may be repeated. A client error means that the request is wrong,
except for the few that pass. -/
def recoverableStatus (code : Nat) : Bool :=
  !(400 ≤ code && code ≤ 499) || code = 400 || code = 408 || code = 429

/-- A new connection may get past the error. -/
def isRetryable : DeliveryError → Bool
  | .transport _ retryable => retryable
  | .status code => recoverableStatus code
  | .store _ | .cancelled => false
  | .notConnected => true

end DeliveryError

end FlagDelivery
