import FlagDelivery.Proofs.Running
import FlagDelivery.Store.Guarded
/-!
# What a guarded write does

Equations on the results of `Guarded.attempt` and of the attempts after one another, for a store to which nobody else
writes during an attempt. The backend is any backend: it may change between two operations by itself.
-/

namespace FlagDelivery

namespace Guarded

/-- Some attempt is always made. -/
theorem attemptLimit_pos (p : Policy) : 0 < attemptLimit p := by
  unfold attemptLimit
  split <;> omega

variable {β : Type} [Backend β]

/-- An attempt of a store that nobody else writes to: at most three operations of the backend, one after the other. -/
theorem attempt_run (space key : String) (item : Stored) (b : β) (retry : Policy) (log : List (String × String)) :
    (attempt space key item).run ⟨b, retry, fun _ b => b, log⟩ =
      match (Backend.watch space : StoreM β Nat).run b with
      | (.error e, b₁) => (.error e, ⟨b₁, retry, fun _ b => b, log⟩)
      | (.ok revision, b₁) =>
        match (Backend.get? space key : StoreM β (Option String)).run b₁ with
        | (.error e, b₂) => (.error e, ⟨b₂, retry, fun _ b => b, log ++ [(space, key)]⟩)
        | (.ok held, b₂) =>
          match supersedes item held with
          | .error e => (.error e, ⟨b₂, retry, fun _ b => b, log ++ [(space, key)]⟩)
          | .ok false => (.ok (some false), ⟨b₂, retry, fun _ b => b, log ++ [(space, key)]⟩)
          | .ok true =>
            let out := (Backend.commit revision space key (item.textFor key) : StoreM β Bool).run b₂
            (out.1.map fun written => if written then some true else none,
              ⟨out.2, retry, fun _ b => b, log ++ [(space, key)]⟩) := by
  rcases hw : (Backend.watch space : StoreM β Nat).run b with ⟨e | revision, b₁⟩
  · simp [attempt, StoreM.bind_run, onBackend, hw]
  rcases hg : (Backend.get? space key : StoreM β (Option String)).run b₁ with ⟨e | held, b₂⟩
  · simp [attempt, StoreM.bind_run, onBackend, interlude, hw, hg]
  rcases hs : supersedes item held with e | newer
  · simp [attempt, StoreM.bind_run, onBackend, interlude, hw, hg, hs]
  cases newer with
  | false => simp [attempt, StoreM.bind_run, onBackend, interlude, hw, hg, hs]
  | true =>
    rcases hc : (Backend.commit revision space key (item.textFor key) : StoreM β Bool).run b₂ with ⟨e | _ | _, b₃⟩ <;>
      simp [attempt, StoreM.bind_run, onBackend, interlude, hw, hg, hs, hc, Except.map]

/-- Of the store an attempt changes the backend and the log. -/
theorem attempt_store (space key : String) (item : Stored) (b : β) (retry : Policy) (log : List (String × String)) :
    ∃ r b' log', (attempt space key item).run ⟨b, retry, fun _ b => b, log⟩ = (r, ⟨b', retry, fun _ b => b, log'⟩) := by
  rw [attempt_run]
  split
  · exact ⟨_, _, _, rfl⟩
  · split
    · exact ⟨_, _, _, rfl⟩
    · split <;> exact ⟨_, _, _, rfl⟩

/-- Writing from some attempt on: another attempt follows a conflict while the policy and the fuel allow it. -/
theorem attemptFrom_run (space key : String) (item : Stored) (fuel made : Nat) (s : Guarded β) :
    (attemptFrom space key item (fuel + 1) made).run s =
      match (attempt space key item).run s with
      | (.error e, s') => (.error e, s')
      | (.ok (some written), s') => (.ok written, s')
      | (.ok none, s') =>
        if s'.retry.allows (made + 1) then (attemptFrom space key item fuel (made + 1)).run s'
        else (.error (.conflicts space key (made + 1)), s') := by
  rcases ha : (attempt space key item).run s with ⟨e | _ | written, s'⟩ <;> simp [attemptFrom, StoreM.bind_run, ha]

/-- A write begins with one attempt. -/
theorem upsert_run_attemptFrom (kind : Kind) (key : String) (item : Stored) (s : Guarded β) :
    ∃ fuel, (upsert kind key item).run s = (attemptFrom kind.space key item (fuel + 1) 0).run s := by
  obtain ⟨fuel, hfuel⟩ := Nat.exists_eq_succ_of_ne_zero (Nat.ne_of_gt (attemptLimit_pos s.retry))
  exact ⟨fuel, by rw [upsert, StoreM.bind_run_ok (StoreM.get_run _), hfuel]⟩

end Guarded

end FlagDelivery
