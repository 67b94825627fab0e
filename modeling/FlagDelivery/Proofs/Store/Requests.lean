import FlagDelivery.Store.Basic

/-!
# Calls of stores

A `Request` is a call that writes data, an `Access` is any call. `Access.run` makes it on whatever store.
-/

namespace FlagDelivery

/-- A call that writes data. -/
inductive Request where
  | init (d : DataSet Item)
  | apply (b : Batch)
  | upsert (kind : Kind) (key : String) (item : Item)

namespace Request

/-- The request's data is to be written through. -/
def Persisted : Request → Prop
  | .init d => d.persist = true
  | .apply b => b.persist = true
  | .upsert _ _ _ => True

/-- The request replaces all data. -/
def Fills : Request → Prop
  | .init _ => True
  | .apply b => b.extent = .full
  | .upsert _ _ _ => False

instance : DecidablePred Fills
  | .init _ => isTrue trivial
  | .apply b => inferInstanceAs (Decidable (b.extent = .full))
  | .upsert _ _ _ => isFalse id

end Request

/-- A call of a store of items. -/
inductive Access where
  | write (r : Request)
  | find? (kind : Kind) (key : String)
  | items (kind : Kind)
  | isInitialized

namespace Access

/-- The call replaces all data. -/
def Fills : Access → Prop
  | .write r => r.Fills
  | _ => False

instance : DecidablePred Fills
  | .write r => inferInstanceAs (Decidable r.Fills)
  | .find? _ _ => isFalse id
  | .items _ => isFalse id
  | .isInitialized => isFalse id

/-- The call's data is to be written through. -/
def Persisted : Access → Prop
  | .write r => r.Persisted
  | _ => False

variable {σ : Type} [DataStore σ]

/-- Makes the call. Of the answer only whether there is one is kept. -/
def run : Access → StoreM (Site σ) Unit
  | .write (.init d) => DataStore.init d
  | .write (.apply b) => DataStore.apply b
  | .write (.upsert kind key item) => discard (DataStore.upsert kind key item)
  | .find? kind key => discard (DataStore.find? kind key)
  | .items kind => discard (DataStore.items kind)
  | .isInitialized => discard (StoreM.sure DataStore.isInitialized)

/-- The answer to the call, and the board after it. -/
def outcome (c : Access) (s : Site σ) : Except StoreError Unit × Board := ((c.run.run s).1, (c.run.run s).2.board)

/-- A call with some property leads from one site to another. -/
def Called (p : Access → Prop) (s s' : Site σ) : Prop := ∃ c : Access, p c ∧ s' = (c.run.run s).2

end Access

end FlagDelivery
