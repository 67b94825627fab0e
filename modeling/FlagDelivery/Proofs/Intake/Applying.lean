import FlagDelivery.Proofs.Intake.Observing
import FlagDelivery.Proofs.Store.Postings

/-!
# What an intake does with a batch

For any store: `Intake.apply_eq` is one equation for a batch that is applied, with or without announcements. It says of
the store that nothing is done to it but calls, `Intake.called_apply`, so that the board of a posting store is only
posted on. What observers of the data source see is its `Standing`; a batch comes to one report, of data that was
accepted or of a failure of the store, `Intake.told_apply`.
-/

namespace FlagDelivery

/-! ## Standings -/

/-- What observers of a data source see of it. -/
structure Standing where
  state : SourceState
  lastError : Option ErrorReport
  moves : Nat
  reports : Nat
  deriving DecidableEq

namespace Standing

/-- The standing of a data source that has just started. -/
def initial : Standing := ⟨.initializing, none, 0, 0⟩

/-- The standing once a report was taken. -/
def told (s : Standing) (reported : SourceState) (error : Option ErrorReport) : Standing :=
  if Intake.nextState s.state reported = s.state ∧ error.isNone then s
  else
    { state := Intake.nextState s.state reported
      lastError := error.or s.lastError
      moves := if Intake.nextState s.state reported = s.state then s.moves else s.moves + 1
      reports := s.reports + 1 }

/-- The state after a report, whether it is news or not. -/
theorem state_told (s : Standing) (reported : SourceState) (error : Option ErrorReport) :
    (s.told reported error).state = Intake.nextState s.state reported := by
  unfold told
  split
  · next h => exact h.1.symm
  · rfl

/-- An error is kept until another one is reported. -/
theorem lastError_told (s : Standing) (reported : SourceState) (error : Option ErrorReport) :
    (s.told reported error).lastError = error.or s.lastError := by
  unfold told
  split
  · next h => simp [Option.isNone_iff_eq_none.mp h.2]
  · rfl

/-- A change of state is counted once, and nothing else is. -/
theorem moves_told (s : Standing) (reported : SourceState) (error : Option ErrorReport) :
    (s.told reported error).moves = if (s.told reported error).state = s.state then s.moves else s.moves + 1 := by
  rw [state_told]
  unfold told
  split
  · next h => rw [if_pos h.1]
  · rfl

end Standing

namespace Intake

variable {σ α β : Type}

/-- The standing of the data source that the intake is for. -/
def standing (i : Intake σ) : Standing := ⟨i.state, i.lastError, i.moves, i.reports⟩

/-- A report tells the standing and does nothing else to it. -/
@[simp] theorem standing_report (reported : SourceState) (error : Option ErrorReport) (i : Intake σ) :
    (report reported error i).2.standing = i.standing.told reported error := by
  have hstate : i.standing.state = i.state := rfl
  by_cases h : nextState i.state reported = i.state ∧ error.isNone
  · simp only [report, StoreM.modify_apply, Standing.told, hstate, if_pos h]
  · simp only [report, StoreM.modify_apply, Standing.told, hstate, if_neg h]
    rfl

@[simp] theorem standing_announce (cs : List ItemChange) (i : Intake σ) : (announce cs i).2.standing = i.standing := by
  simp only [announce, StoreM.modify_apply]
  split <;> rfl

variable [DataStore σ]

/-! ## One batch -/

/-- The versions before a batch, which are read if changes are announced, and the site after that. -/
def consult (b : Batch) (i : Intake σ) : Except StoreError Versions × Site σ :=
  if i.announcing = .off then (.ok .none, i.site) else (versionsBefore b).run i.site

/-- A batch is given up if the versions before it cannot be read, and otherwise handed to the store. -/
theorem apply_eq (b : Batch) (i : Intake σ) : apply b i = match consult b i with
    | (.error e, site) => (false, (reportFailure e { i with site }).2)
    | (.ok v, site) => accept b (b.changes v) { i with site } := by
  by_cases h : i.announcing = .off
  · have hi : i.unobserved = i := congrArg (fun a => { i with announcing := a }) h.symm
    simp only [consult, h, if_true]
    exact hi ▸ apply_unobserved b i
  · simp only [consult, h, if_false]
    rcases hv : (versionsBefore b).run i.site with ⟨e | v, site⟩
    · exact apply_of_error h hv
    · rcases hh : hand b { i with site } with ⟨e | u, i'⟩ <;> simp [apply, accept, h, onSite, hv, hh]

/-- A batch that is handed to the store acts on the site as the store applies it. -/
theorem site_accept (b : Batch) (cs : List ItemChange) (i : Intake σ) :
    (accept b cs i).2.site = ((DataStore.apply b : StoreM (Site σ) Unit).run i.site).2 := by
  have hsite : (hand b i).2.site = ((DataStore.apply b : StoreM (Site σ) Unit).run i.site).2 := rfl
  unfold accept
  rcases hh : hand b i with ⟨e | u, i'⟩ <;> rw [hh] at hsite <;> simpa [reportFailure] using hsite

/-- A batch that the store takes is told as valid, and one that it does not take as an interruption by an error. -/
theorem standing_accept (b : Batch) (cs : List ItemChange) (i : Intake σ) :
    ((accept b cs i).1 = true ∧ (accept b cs i).2.standing = i.standing.told .valid none) ∨
      ∃ e, (accept b cs i).1 = false ∧ (accept b cs i).2.standing = i.standing.told .interrupted (some e) := by
  have hstanding : (hand b i).2.standing = i.standing := rfl
  unfold accept
  rcases hh : hand b i with ⟨e | u, i'⟩ <;> rw [hh] at hstanding
  · exact .inr ⟨.described .store e.message, rfl, by simp [reportFailure, hstanding]⟩
  · exact .inl ⟨rfl, by simp [hstanding]⟩

/-- A batch that is accepted makes the data source valid, and any other is reported as a failure. -/
theorem told_apply (b : Batch) (i : Intake σ) :
    ((apply b i).1 = true ∧ (apply b i).2.standing = i.standing.told .valid none) ∨
      ∃ e, (apply b i).1 = false ∧ (apply b i).2.standing = i.standing.told .interrupted (some e) := by
  rw [apply_eq]
  rcases consult b i with ⟨e | v, site⟩
  · exact .inr ⟨_, rfl, standing_report _ _ _⟩
  · exact standing_accept b (b.changes v) { i with site }

/-! ## Calls of the store -/

/-- The calls that an intake makes of its store for the sake of a batch. -/
inductive Serves (b : Batch) : Access → Prop where
  | find? (kind : Kind) (key : String) : Serves b (.find? kind key)
  | items (kind : Kind) : Serves b (.items kind)
  | apply : Serves b (.write (.apply b))

/-- An operation that makes such calls of the store, and does nothing else to it or to its board. -/
abbrev Calls (b : Batch) (op : StoreM (Site σ) α) : Prop := op.Leads (Relation.ReflTransGen (Access.Called (Serves b)))

variable {b : Batch}

theorem calls_pure (a : α) : Calls b (pure a : StoreM (Site σ) α) := StoreM.leads_pure (fun _ => .refl) a

/-- What calls the store for a batch, and goes on calling it for this batch, does no more than that. -/
theorem Calls.bind {op : StoreM (Site σ) α} {f : α → StoreM (Site σ) β} (h : Calls b op) (hf : ∀ a, Calls b (f a)) :
    Calls b (op >>= f) :=
  StoreM.Leads.bind .trans h hf

theorem calls_items (kind : Kind) : Calls b (DataStore.items kind : StoreM (Site σ) (List (String × Item))) := by
  intro s
  refine .single ⟨_, .items kind, ?_⟩
  rw [Access.run, StoreM.discard_run]

theorem calls_find? (kind : Kind) (key : String) : Calls b (DataStore.find? kind key : StoreM (Site σ) (Option Item)) := by
  intro s
  refine .single ⟨_, .find? kind key, ?_⟩
  rw [Access.run, StoreM.discard_run]

/-- The versions of whole kinds are read by calls. -/
theorem calls_versionsOf (kinds : List Kind) (v : Versions) : Calls b (versionsOf kinds v : StoreM (Site σ) Versions) := by
  induction kinds generalizing v with
  | nil => exact calls_pure v
  | cons kind kinds ih => exact (calls_items kind).bind fun items => ih _

/-- The versions of listed items are read by calls. -/
theorem calls_versionsAt (es : List (Kind × String × Item)) (v : Versions) :
    Calls b (versionsAt es v : StoreM (Site σ) Versions) := by
  induction es generalizing v with
  | nil => exact calls_pure v
  | cons e es ih =>
    obtain ⟨kind, key, item⟩ := e
    refine (calls_find? kind key).bind ?_
    intro found
    cases found with
    | some item => exact ih _
    | none => exact ih v

/-- The versions before a batch are read by calls. -/
theorem calls_versionsBefore : Calls b (versionsBefore b : StoreM (Site σ) Versions) := by
  unfold versionsBefore
  cases b.extent with
  | full => exact calls_versionsOf _ _
  | incremental => exact calls_versionsAt _ _
  | none => exact calls_pure _

/-- Consulting the versions before a batch does to the site what calls for this batch do. -/
theorem called_consult (b : Batch) (i : Intake σ) :
    Relation.ReflTransGen (Access.Called (Serves b)) i.site (consult b i).2 := by
  unfold consult
  split
  · exact .refl
  · exact calls_versionsBefore i.site

/-- Whatever comes of a batch, it comes of calls of the store. -/
theorem called_apply (b : Batch) (i : Intake σ) :
    Relation.ReflTransGen (Access.Called (Serves b)) i.site (apply b i).2.site := by
  have hconsult := called_consult b i
  rw [apply_eq]
  rcases hc : consult b i with ⟨e | v, site⟩
  · rw [hc] at hconsult
    exact (site_report _ _ { i with site }).symm ▸ hconsult
  · rw [hc] at hconsult
    simp only [site_accept]
    exact hconsult.tail ⟨_, .apply, rfl⟩

/-- So it only posts on the board of a posting store. -/
theorem later_apply [Posting σ] (b : Batch) (i : Intake σ) : i.site.board.Later (apply b i).2.site.board :=
  Posting.later_of_called (called_apply b i)

end Intake

end FlagDelivery
