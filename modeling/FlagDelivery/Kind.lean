/-!
# Kinds of items

Items are feature flags or segments. `PerKind` holds one value for each kind.
-/

namespace FlagDelivery

/-- A kind of item. -/
inductive Kind where
  | features
  | segments
  deriving DecidableEq, Repr, Inhabited

namespace Kind

/-- Every kind, in order. -/
def all : List Kind := [.features, .segments]

/-- The name of a kind in stores. -/
def space : Kind → String
  | .features => "features"
  | .segments => "segments"

/-- The kind with a name on the wire. -/
def ofWire? (name : String) : Option Kind :=
  if name = "flag" then some .features else if name = "segment" then some .segments else none

theorem mem_all (k : Kind) : k ∈ all := by cases k <;> simp [all]

/-- Kinds of the same space are the same kind. -/
theorem space_inj {k k' : Kind} (h : k.space = k'.space) : k = k' := by
  cases k <;> cases k' <;> simp_all [space]

end Kind

/-- One value for each kind. -/
structure PerKind (α : Type) where
  features : α
  segments : α
  deriving DecidableEq, Inhabited

namespace PerKind

variable {α : Type}

/-- The same value for every kind. -/
def const (a : α) : PerKind α := ⟨a, a⟩

/-- The value of a kind. -/
def get (p : PerKind α) : Kind → α
  | .features => p.features
  | .segments => p.segments

/-- The values with that of one kind set. -/
def set (p : PerKind α) (k : Kind) (a : α) : PerKind α :=
  match k with
  | .features => { p with features := a }
  | .segments => { p with segments := a }

@[simp] theorem get_const (a : α) (k : Kind) : (const a).get k = a := by cases k <;> rfl

/-- The value of a kind that was set is the new one; the other kinds keep theirs. -/
@[simp] theorem get_set (p : PerKind α) (k : Kind) (a : α) (k' : Kind) :
    (p.set k a).get k' = if k = k' then a else p.get k' := by
  cases k <;> cases k' <;> rfl

end PerKind

end FlagDelivery
