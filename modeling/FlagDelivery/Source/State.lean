import FlagDelivery.Source.Error

/-!
# The state of a data source

A data source starts out initializing, is valid once data was accepted, may be interrupted after that, and is
off once it has stopped for good. Its latest error is kept after it recovers.
-/

namespace FlagDelivery

/-- The state of a data source. -/
inductive SourceState where
  | initializing
  | valid
  | interrupted
  | off
  deriving DecidableEq, Inhabited, Repr

/-- The kind of error a data source reports. -/
inductive ErrorKind where
  | unknown
  | network
  | response
  | invalidData
  | store
  deriving DecidableEq, Inhabited, Repr

/-- An error as a data source reports it. -/
structure ErrorReport where
  kind : ErrorKind
  status : Option Nat
  message : Option String
  deriving DecidableEq, Inhabited

namespace ErrorReport

/-- A report with a description. -/
def described (kind : ErrorKind) (message : String) : ErrorReport := ⟨kind, none, some message⟩

/-- The report of an HTTP status. -/
def ofStatus (code : Nat) : ErrorReport := ⟨.response, some code, none⟩

/-- The report of an error of delivery. -/
def ofError : DeliveryError → ErrorReport
  | .status code => ofStatus code
  | .store error => described .store error.message
  | error => described .network error.message

end ErrorReport

namespace SourceState

/-- What a waiter answers that sees states one after the other: whether the wanted one comes before the
source turns off, or `none` while neither has come. -/
def awaited (wanted : SourceState) : List SourceState → Option Bool
  | [] => none
  | s :: rest => if s = wanted then some true else if s = .off then some false else awaited wanted rest

end SourceState

end FlagDelivery
