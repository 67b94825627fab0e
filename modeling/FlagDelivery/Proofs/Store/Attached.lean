import FlagDelivery.Proofs.Running
import FlagDelivery.Store.Attached

/-!
# What an attached store does

Equations on the results of the operations of `Attached`. `Board.marked` is the board once a failure was posted, and
`Board.answered` the board once the shared store answered.
-/

namespace FlagDelivery

namespace Board

/-- The board once the shared store was marked unavailable. -/
def marked (b : Board) : Board := if b.health.available then (post { b.health with available := false } b).2 else b

/-- The board once the shared store answered. -/
def answered (b : Board) : Board := if b.health.available then b else (post .recovered b).2

/-- A board that is marked says that the backend is not available. -/
theorem health_marked (b : Board) : b.marked.health = { b.health with available := false } := by
  unfold marked
  split
  · exact health_post _ b
  · next h => rw [← eq_false_of_ne_true h]

/-- An answer ends an outage, and with it begins the need of a refresh. -/
theorem health_answered (b : Board) : b.answered.health = if b.health.available then b.health else .recovered := by
  unfold answered
  split
  · rfl
  · exact health_post _ b

/-- A failure that was posted can be seen. -/
theorem marked_ne_good (b : Board) : b.marked.health ≠ .good := by
  rw [health_marked]
  intro h
  exact nomatch congrArg Health.available h

/-- The end of an outage does not make good health. -/
theorem good_of_answered {b : Board} (h : b.answered.health = .good) : b.health = .good := by
  rw [health_answered] at h
  split at h
  · exact h
  · cases h

/-- A refresh ends the need of one. -/
theorem health_refreshed (b : Board) : (refreshed b).2.health = { b.health with refreshNeeded := false } := by
  obtain ⟨⟨available, refreshNeeded⟩, posts, monitored⟩ := b
  cases refreshNeeded with
  | true => exact health_post ⟨available, false⟩ _
  | false => rfl

end Board

namespace Attached

variable {π α : Type} (a : Attached π) (b : Board)

/-- A failure is marked on the board, and a round of checks is under way. -/
theorem markUnavailable_apply : (markUnavailable ⟨a, b⟩).2 = ⟨{ a with polling := true }, b.marked⟩ := by
  by_cases h : b.health.available <;> simp [markUnavailable, h, Site.onBoard, Board.marked, Site.mapStore]

/-- An operation of the shared store that fails marks it unavailable. -/
theorem observe_run (op : StoreM π α) : (observe op).run ⟨a, b⟩ =
    match op.run a.shared with
    | (.ok x, p) => (.ok x, ⟨{ a with shared := p }, b⟩)
    | (.error e, p) => (.error e, ⟨{ a with shared := p, polling := true }, b.marked⟩) := by
  rcases h : op.run a.shared with ⟨e | x, p⟩
  · simp [observe, onShared, h, Except.isOk, Except.toBool, Site.mapStore, markUnavailable_apply]
  · simp [observe, onShared, h, Except.isOk, Except.toBool, Site.mapStore]

variable [SharedStore π]

/-- Replacing all data ends the need of a refresh, if it succeeds. -/
theorem fill_run (d : DataSet Stored) : (fill d).run ⟨a, b⟩ =
    match (SharedStore.init d : StoreM π Unit).run a.shared with
    | (.ok (), p) => (.ok (), ⟨{ a with shared := p, filled := true }, (Board.refreshed b).2⟩)
    | (.error e, p) => (.error e, ⟨{ a with shared := p, polling := true }, b.marked⟩) := by
  rcases h : (SharedStore.init d : StoreM π Unit).run a.shared with ⟨e | x, p⟩
  · simp [fill, StoreM.bind_run, observe_run, h]
  · simp [fill, StoreM.bind_run, observe_run, h, Site.mapStore, Site.onBoard]

/-- A write that fails keeps those after it from being made. -/
theorem upsertAll_cons_run (kind : Kind) (key : String) (item : Item) (es : List (Kind × String × Item))
    (site : Site (Attached π)) :
    (upsertAll ((kind, key, item) :: es)).run site =
      match (upsert kind key item).run site with
      | (.ok _, site') => (upsertAll es).run site'
      | (.error e, site') => (.error e, site') := by
  rw [upsertAll, StoreM.bind_run, StoreM.discard_run]
  rcases (upsert kind key item).run site with ⟨_ | _, _⟩ <;> rfl

/-- A batch replaces all data, or writes its items one after the other, or does nothing. -/
theorem apply_run (batch : Batch) (site : Site (Attached π)) :
    (apply batch).run site = match batch.extent with
      | .full => (fill (stored ⟨batch.data, batch.persist⟩)).run site
      | .incremental => (upsertAll batch.data.entries).run site
      | .none => (.ok (), site) := by
  unfold apply
  cases batch.extent <;> rfl

/-- Asking a trivial question ends an outage, if there is an answer. -/
theorem recover_apply : recover ⟨a, b⟩ =
    let out := (SharedStore.answers : StateM π Bool) a.shared
    (out.1, ⟨{ a with shared := out.2 }, if out.1 then b.answered else b⟩) := by
  rcases h : (SharedStore.answers : StateM π Bool) a.shared with ⟨_ | _, p⟩
  · simp [recover, onShared, h, Site.mapStore]
  · by_cases hb : b.health.available <;>
      simp [recover, onShared, h, hb, Site.mapStore, Board.answered, Site.onBoard]

/-- A check posts what the backend answers; without an answer the round of checks goes on. -/
theorem check_apply : check ⟨a, b⟩ =
    let out := (SharedStore.answers : StateM π Bool) a.shared
    (out.1, ⟨{ a with shared := out.2, polling := a.polling || !out.1 }, if out.1 then b.answered else b.marked⟩) := by
  rcases h : (SharedStore.answers : StateM π Bool) a.shared with ⟨_ | _, p⟩
  · simp [check, recover_apply, h, markUnavailable_apply]
  · simp [check, recover_apply, h]

/-! ## The shared store -/

section

omit [SharedStore π] in
/-- An operation that is watched does to the shared store what it does by itself. -/
theorem shared_observe (op : StoreM π α) (site : Site (Attached π)) :
    ((observe op).run site).2.store.shared = (op.run site.store.shared).2 := by
  rw [observe_run]
  rcases op.run site.store.shared with ⟨e | x, p⟩ <;> rfl

variable (site : Site (Attached π))

/-- Filling an attached store fills the shared one. -/
theorem shared_fill (d : DataSet Stored) :
    ((fill d).run site).2.store.shared = ((SharedStore.init d : StoreM π Unit).run site.store.shared).2 := by
  rw [fill_run]
  rcases (SharedStore.init d : StoreM π Unit).run site.store.shared with ⟨e | x, p⟩ <;> rfl

/-- A store that was not seen to be filled asks whether it is. -/
theorem shared_isInitialized : (isInitialized site).2.store.shared = site.store.shared ∨
    (isInitialized site).2.store.shared = ((SharedStore.isFilled : StateM π Bool) site.store.shared).2 := by
  simp only [isInitialized, StoreM.bind_apply, StoreM.get_apply, StoreM.ite_apply]
  split
  · exact .inl rfl
  · right
    split <;> rfl

/-- A recovery asks the shared store whether it answers. -/
theorem shared_recover : (recover site).2.store.shared = ((SharedStore.answers : StateM π Bool) site.store.shared).2 := by
  obtain ⟨a, board⟩ := site
  rw [recover_apply]

theorem shared_check : (check site).2.store.shared = ((SharedStore.answers : StateM π Bool) site.store.shared).2 := by
  obtain ⟨a, board⟩ := site
  rw [check_apply]

/-- What is left of a round of checks asks nothing, or whether the shared store answers. -/
theorem shared_settle : (settle site).2.store.shared = site.store.shared ∨
    (settle site).2.store.shared = ((SharedStore.answers : StateM π Bool) site.store.shared).2 := by
  simp only [settle, StoreM.bind_apply, StoreM.get_apply, StoreM.ite_apply]
  split
  · split
    · right
      split <;> exact shared_recover site
    · exact .inl rfl
  · exact .inl rfl

end

end Attached

end FlagDelivery
