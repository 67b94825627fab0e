import FlagDelivery.Store.Backend

/-!
# Backends that change between operations

A backend is shared: other processes write to it and it may be cut off at any moment. `Disturbed` is a backend
to which something is done before each operation.
-/

namespace FlagDelivery

/-- A backend with what happens to it: `before n` comes before the operation that follows `n` others. -/
structure Disturbed (β : Type) where
  backend : β
  operations : Nat
  before : Nat → β → β

namespace Disturbed

variable {β α : Type}

/-- A backend to which nothing has been done yet. -/
def ofBackend (backend : β) (before : Nat → β → β) : Disturbed β := ⟨backend, 0, before⟩

/-- Lets happen what comes before the operation, and runs it. -/
def disturb (op : StoreM β α) : StoreM (Disturbed β) α := ExceptT.mk fun d =>
  let (r, backend) := op.run (d.before d.operations d.backend)
  (r, { d with backend, operations := d.operations + 1 })

instance [Backend β] : Backend (Disturbed β) where
  watch space := disturb (Backend.watch space)
  get? space key := disturb (Backend.get? space key)
  all space := disturb (Backend.all space)
  commit revision space key text := disturb (Backend.commit revision space key text)
  replaceAll data := disturb (Backend.replaceAll data)
  marked := disturb Backend.marked

end Disturbed

end FlagDelivery
