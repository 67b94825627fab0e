import FlagDelivery.Proofs.Running
import FlagDelivery.Store.Backend

/-!
# Operations of a backend in memory

For each operation of `SharedMemory` there is an equation on its result. `SharedMemory.Onward` says of two moments that
every space which was written to in between is at a later revision; every operation leads onward.
-/

namespace FlagDelivery

namespace SharedMemory

variable {α : Type} {b c : SharedMemory}

/-- The error of every operation while the backend is cut off. -/
def offline : StoreError := .unavailable "memory backend is offline"

/-- An operation of a backend that cannot be reached fails and changes nothing. -/
theorem whenReachable_run (op : StateM SharedMemory α) (b : SharedMemory) :
    (whenReachable op).run b = if b.reachable then (.ok (op b).1, (op b).2) else (.error offline, b) := by
  by_cases h : b.reachable <;> simp [whenReachable, StoreM.bind_run, h, offline]

/-- A watch tells the revision of the space. -/
theorem watch_run (name : String) (b : SharedMemory) :
    (Backend.watch name : StoreM SharedMemory Nat).run b =
      if b.reachable then (.ok (b.space name).revision, b) else (.error offline, b) :=
  whenReachable_run _ b

/-- A look-up tells the text under the key. -/
theorem get?_run (name key : String) (b : SharedMemory) :
    (Backend.get? name key : StoreM SharedMemory (Option String)).run b =
      if b.reachable then (.ok (b.text? name key), b) else (.error offline, b) :=
  whenReachable_run _ b

/-- A commit puts the text if the space is still at the revision that was watched. -/
theorem commit_run (revision : Nat) (name key text : String) (b : SharedMemory) :
    (Backend.commit revision name key text : StoreM SharedMemory Bool).run b =
      if b.reachable then
        if (b.space name).revision = revision then (.ok true, b.put name key text) else (.ok false, b)
      else (.error offline, b) := by
  refine (whenReachable_run _ b).trans ?_
  split
  · split <;> rfl
  · rfl

/-- The backend once the contents of spaces were replaced. -/
def replacing (data : List (String × List (String × String))) (b : SharedMemory) : SharedMemory :=
  { data.foldl (fun b (name, texts) => b.replace name texts) b with marked := true }

theorem replacing_cons (name : String) (texts : List (String × String)) (data : List (String × List (String × String)))
    (b : SharedMemory) : b.replacing ((name, texts) :: data) = (b.replace name texts).replacing data := rfl

/-- Replacing texts does not cut a backend off. -/
theorem reachable_replacing (data : List (String × List (String × String))) (b : SharedMemory) :
    (b.replacing data).reachable = b.reachable := by
  induction data generalizing b with
  | nil => rfl
  | cons group data ih => exact ih (b.replace group.1 group.2)

/-- All texts are replaced, or the backend cannot be reached. -/
theorem replaceAll_run (data : List (String × List (String × String))) (b : SharedMemory) :
    (Backend.replaceAll data : StoreM SharedMemory Unit).run b =
      if b.reachable then (.ok (), b.replacing data) else (.error offline, b) :=
  whenReachable_run _ b

/-- The mark tells whether the backend was ever filled. -/
theorem marked_run (b : SharedMemory) :
    (Backend.marked : StoreM SharedMemory Bool).run b =
      if b.reachable then (.ok b.marked, b) else (.error offline, b) :=
  whenReachable_run _ b

/-- A space whose texts are replaced is at its next revision; the others stay. -/
theorem space_replace (b : SharedMemory) (space : String) (texts : List (String × String)) (name : String) :
    (b.replace space texts).space name =
      if space = name then ⟨(b.space space).revision + 1, Std.TreeMap.ofList texts⟩ else b.space name := by
  by_cases h : space = name <;> simp [SharedMemory.space, replace, Std.TreeMap.getElem?_insert, h]

/-- Each space is as it was or at a later revision. -/
def Onward (b c : SharedMemory) : Prop :=
  ∀ name, c.space name = b.space name ∨ (b.space name).revision < (c.space name).revision

theorem Onward.refl (b : SharedMemory) : b.Onward b := fun _ => .inl rfl

theorem Onward.trans {d : SharedMemory} (h : b.Onward c) (h' : c.Onward d) : b.Onward d := by
  intro name
  rcases h name with h | h <;> rcases h' name with h' | h'
  · exact .inl (h'.trans h)
  · exact .inr (h ▸ h')
  · exact .inr (h' ▸ h)
  · exact .inr (Nat.lt_trans h h')

/-- No revision goes back. -/
theorem Onward.revision_le (h : b.Onward c) (name : String) : (b.space name).revision ≤ (c.space name).revision := by
  rcases h name with h | h
  · exact Nat.le_of_eq (by rw [h])
  · exact Nat.le_of_lt h

/-- A text can have changed only if its space is at a later revision. -/
theorem Onward.text?_eq (h : b.Onward c) {name : String} (hr : (c.space name).revision = (b.space name).revision)
    (key : String) :
    c.text? name key = b.text? name key := by
  rcases h name with h | h
  · rw [text?, text?, h]
  · omega

/-- Putting a text moves its space on. -/
theorem onward_put (b : SharedMemory) (space key text : String) : b.Onward (b.put space key text) := by
  intro name
  rw [space_put]
  split
  · next h => exact .inr (by rw [h]; exact Nat.lt_succ_self _)
  · exact .inl rfl

theorem onward_replace (b : SharedMemory) (space : String) (texts : List (String × String)) :
    b.Onward (b.replace space texts) := by
  intro name
  rw [space_replace]
  split
  · next h => exact .inr (by rw [h]; exact Nat.lt_succ_self _)
  · exact .inl rfl

/-- Replacing the texts of one space after the other only moves spaces on. -/
theorem onward_replacing (data : List (String × List (String × String))) (b : SharedMemory) :
    b.Onward (b.replacing data) := by
  induction data generalizing b with
  | nil =>
    intro _
    exact .inl rfl
  | cons group data ih => exact (onward_replace b group.1 group.2).trans (ih _)

/-- Cutting a backend off leaves its spaces as they are. -/
theorem onward_setReachable (reachable : Bool) (b : SharedMemory) : b.Onward (b.setReachable reachable) := fun _ => .inl rfl

end SharedMemory

end FlagDelivery
