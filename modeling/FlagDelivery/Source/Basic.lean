import FlagDelivery.Change
import FlagDelivery.Event.Basic
import FlagDelivery.Source.Error

/-!
# Sources of messages

A source opens connections to a server and reads messages from them.
-/

namespace FlagDelivery

/-- A source of messages. -/
class Source (ς : Type) where
  /-- Opens a connection that resumes from a selector, or starts over if it is empty. -/
  connect : Selector → StateM ς (Except DeliveryError Unit)
  /-- The next message; none when the server closed the connection. An error of cancellation says that the
  source was closed by its owner and is not to be connected again. -/
  next : StateM ς (Except DeliveryError (Option Message))
  /-- Closes the connection. -/
  close : StateM ς Unit

end FlagDelivery
