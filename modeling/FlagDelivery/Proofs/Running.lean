import FlagDelivery.Store.Basic

/-!
# Running operations

What an operation does to the state it is run on, for each way of building one. The lemmas are equations on results, so
that `simp` runs a block of operations from its first line to its last.
-/

namespace FlagDelivery

namespace StoreM

variable {σ τ α β : Type}

/-! ## Operations that never fail -/

-- The proofs stand in parentheses to keep `simp` from taking the equations for definitional ones: it then also
-- rewrites the decidability instances of conditions.

@[simp] theorem pure_apply (a : α) (s : σ) : (pure a : StateM σ α) s = (a, s) := (rfl)

@[simp] theorem bind_apply (x : StateM σ α) (f : α → StateM σ β) (s : σ) : (x >>= f) s = f (x s).1 (x s).2 := (rfl)

@[simp] theorem map_apply (f : α → β) (x : StateM σ α) (s : σ) : (f <$> x) s = (f (x s).1, (x s).2) := (rfl)

@[simp] theorem discard_apply (x : StateM σ α) (s : σ) : (discard x : StateM σ PUnit) s = (.unit, (x s).2) := (rfl)

@[simp] theorem get_apply (s : σ) : (get : StateM σ σ) s = (s, s) := (rfl)

@[simp] theorem modify_apply (f : σ → σ) (s : σ) : (modify f : StateM σ PUnit) s = (.unit, f s) := (rfl)

@[simp] theorem ite_apply {c : Prop} [Decidable c] (x y : StateM σ α) (s : σ) :
    (if c then x else y) s = if c then x s else y s := by
  split <;> rfl

@[simp] theorem focus_apply (get : τ → σ) (put : σ → τ → τ) (op : StateM σ α) (t : τ) :
    focus get put op t = ((op (get t)).1, put (op (get t)).2 t) := (rfl)

/-! ## Operations that may fail -/

@[simp] theorem mk_run (x : StateM σ (Except StoreError α)) (s : σ) : (ExceptT.mk x).run s = x s := (rfl)

@[simp] theorem pure_run (a : α) (s : σ) : (pure a : StoreM σ α).run s = (.ok a, s) := (rfl)

@[simp] theorem throw_run (e : StoreError) (s : σ) : (throw e : StoreM σ α).run s = (.error e, s) := (rfl)

/-- Of a result that is not taken notice of only the failure is left. -/
@[simp] theorem discard_run (x : StoreM σ α) (s : σ) :
    (discard x : StoreM σ PUnit).run s = ((x.run s).1.map fun _ => .unit, (x.run s).2) := by
  unfold ExceptT.run
  simp only [discard, Functor.discard, Functor.mapConst, Function.comp_apply, ExceptT.map, ExceptT.mk, bind, StateT.bind]
  cases x s with
  | mk r s' => cases r <;> rfl

@[simp] theorem get_run (s : σ) : (get : StoreM σ σ).run s = (.ok s, s) := (rfl)

@[simp] theorem modify_run (f : σ → σ) (s : σ) : (modify f : StoreM σ PUnit).run s = (.ok .unit, f s) := (rfl)

@[simp] theorem sure_run (op : StateM σ α) (s : σ) : (sure op).run s = (.ok (op s).1, (op s).2) := (rfl)

@[simp] theorem ofExcept_run (r : Except StoreError α) (s : σ) : (ofExcept r : StoreM σ α).run s = (r, s) := (rfl)

@[simp] theorem part_run (get : τ → σ) (put : σ → τ → τ) (op : StoreM σ α) (t : τ) :
    (part get put op).run t = ((op.run (get t)).1, put (op.run (get t)).2 t) := (rfl)

@[simp] theorem ite_run {c : Prop} [Decidable c] (x y : StoreM σ α) (s : σ) :
    (if c then x else y).run s = if c then x.run s else y.run s := by
  split <;> rfl

/-- An operation that fails ends the block that it stands in. -/
theorem bind_run (x : StoreM σ α) (f : α → StoreM σ β) (s : σ) :
    (x >>= f).run s = match (x.run s).1 with
      | .ok a => (f a).run (x.run s).2
      | .error e => (.error e, (x.run s).2) := by
  have h : (x >>= f).run s = (ExceptT.bindCont f (x.run s).1) (x.run s).2 := rfl
  rw [h]
  cases (x.run s).1 <;> rfl

/-- A function of the result acts on a success only. -/
theorem map_run (f : α → β) (x : StoreM σ α) (s : σ) : (f <$> x).run s = ((x.run s).1.map f, (x.run s).2) := by
  have h : (f <$> x).run s = (x >>= fun a => pure (f a)).run s := rfl
  rw [h, bind_run]
  cases (x.run s).1 <;> rfl

/-- An operation that is followed by an answer of its own. -/
theorem bind_return_run (x : StoreM σ α) (b : β) (s : σ) :
    (x >>= fun _ => pure b).run s = ((x.run s).1.map fun _ => b, (x.run s).2) := by
  rw [bind_run]
  cases (x.run s).1 <;> rfl

/-- What is made of an answer without touching the state leaves the state as the operation did. -/
theorem bind_run_snd {f : α → StoreM σ β} (hf : ∀ a s, ((f a).run s).2 = s) (x : StoreM σ α) (s : σ) :
    ((x >>= f).run s).2 = (x.run s).2 := by
  rw [bind_run]
  cases (x.run s).1 with
  | ok a => exact hf a _
  | error e => rfl

/-- Wherever an operation starts, and whether it fails or not, it leads to a related state. -/
def Leads (R : σ → σ → Prop) (x : StoreM σ α) : Prop := ∀ s, R s (x.run s).2

/-- A result that is there leads nowhere else. -/
theorem leads_pure {R : σ → σ → Prop} (hrefl : ∀ s, R s s) (a : α) : Leads R (pure a : StoreM σ α) := hrefl

/-- One operation after another one leads where both lead. -/
theorem Leads.bind {R : σ → σ → Prop} (htrans : ∀ {s s' s''}, R s s' → R s' s'' → R s s'') {x : StoreM σ α}
    {f : α → StoreM σ β} (h : Leads R x) (hf : ∀ a, Leads R (f a)) : Leads R (x >>= f) := by
  intro s
  have hx := h s
  rw [bind_run]
  cases hr : (x.run s).1 with
  | ok a => exact htrans hx (hf a _)
  | error e => exact hx

theorem Leads.discard {R : σ → σ → Prop} {x : StoreM σ α} (h : Leads R x) : Leads R (discard x : StoreM σ PUnit) := by
  intro s
  rw [discard_run]
  exact h s

/-- After a success the rest is run from where it has led. -/
theorem bind_run_ok {x : StoreM σ α} {f : α → StoreM σ β} {s s' : σ} {a : α} (h : x.run s = (.ok a, s')) :
    (x >>= f).run s = (f a).run s' := by
  rw [bind_run, h]

end StoreM

end FlagDelivery
