import FlagDelivery.Proofs.Store.Refresh
import Mathlib.Logic.Relation

/-!
# Boards that are only posted on

`Board.Later` relates a board to one that comes of it by posts. A reader who remembers the number of posts misses
nothing: as long as that number stays, the board stays as it is, and a health that a reader has not seen yet has raised
it, `Board.Later.posts_lt`. A `Posting` store does nothing else to its board, whatever is called. An attached store is
such a store, and so is a layered one over a posting store.
-/

namespace FlagDelivery

namespace Board

/-- The board once healths were posted, one after the other. -/
def postAll (b : Board) (hs : List Health) : Board := hs.foldl (fun b h => (post h b).2) b

/-- A board that comes of another one by posts. -/
def Later (b b' : Board) : Prop := ∃ hs, b' = b.postAll hs

/-- On the way from one board to a later one the end of an outage was posted, and that is still to be read. -/
def Recovers (b b' : Board) : Prop := ∃ mid, b.Later mid ∧ mid.health ≠ .recovered ∧ mid.Later b' ∧ b'.health = .recovered

theorem Later.refl (b : Board) : b.Later b := ⟨[], rfl⟩

theorem Later.trans {b b' b'' : Board} (h : b.Later b') (h' : b'.Later b'') : b.Later b'' := by
  obtain ⟨hs, rfl⟩ := h
  obtain ⟨hs', rfl⟩ := h'
  exact ⟨hs ++ hs', (List.foldl_append ..).symm⟩

theorem later_post (h : Health) (b : Board) : b.Later (post h b).2 := ⟨[h], rfl⟩

/-- The end of a need of a refresh is a post, or nothing. -/
theorem later_refreshed (b : Board) : b.Later (refreshed b).2 := by
  obtain ⟨⟨available, refreshNeeded⟩, posts, monitored⟩ := b
  cases refreshNeeded with
  | true => exact later_post ⟨available, false⟩ _
  | false => exact .refl _

/-- The mark of an outage is a post, or nothing. -/
theorem later_marked (b : Board) : b.Later b.marked := by
  unfold marked
  split
  · exact later_post _ b
  · exact .refl b

/-- What an answer tells is a post, or nothing. -/
theorem later_told {α : Type} (fills : Bool) (b : Board) (answer : Except StoreError α) : b.Later (b.told fills answer) := by
  cases answer with
  | error e => exact b.later_marked
  | ok a =>
    cases fills with
    | true => exact b.later_refreshed
    | false => exact .refl b

/-- A post leaves the board as it is or is counted. -/
theorem post_cases (h : Health) (b : Board) : (post h b).2 = b ∨ (post h b).2.posts = b.posts + 1 := by
  unfold post
  split
  · exact .inl rfl
  · exact .inr rfl

/-- No post is taken back. -/
theorem Later.posts_le {b b' : Board} (h : b.Later b') : b.posts ≤ b'.posts := by
  obtain ⟨hs, rfl⟩ := h
  induction hs generalizing b with
  | nil => exact Nat.le_refl _
  | cons h hs ih =>
    have hstep : b.posts ≤ (post h b).2.posts := by
      rw [posts_post]
      split <;> omega
    exact Nat.le_trans hstep ih

/-- As long as the number of posts stays, so does the board. -/
theorem Later.eq_of_posts {b b' : Board} (h : b.Later b') (hposts : b'.posts = b.posts) : b' = b := by
  obtain ⟨hs, rfl⟩ := h
  induction hs generalizing b with
  | nil => rfl
  | cons h hs ih =>
    have hrest : (post h b).2.Later (b.postAll (h :: hs)) := ⟨hs, rfl⟩
    obtain hp | hp := post_cases h b
    · have hstep : b.postAll (h :: hs) = b.postAll hs := congrArg (·.postAll hs) hp
      rw [hstep] at hposts ⊢
      exact ih hposts
    · have hle := hrest.posts_le
      omega

/-- Another health than before was counted. -/
theorem Later.posts_lt {b b' : Board} (h : b.Later b') (hne : b'.health ≠ b.health) : b.posts < b'.posts := by
  refine Nat.lt_of_le_of_ne h.posts_le ?_
  intro hposts
  exact hne (congrArg Board.health (h.eq_of_posts hposts.symm))

/-- On the way to the end of an outage something was posted. -/
theorem Recovers.posts_lt {b b' : Board} (h : b.Recovers b') : b.posts < b'.posts := by
  obtain ⟨mid, hbefore, hmid, hafter, hnow⟩ := h
  exact Nat.lt_of_le_of_lt hbefore.posts_le (hafter.posts_lt fun he => hmid (he.symm.trans hnow))

end Board

/-! ## Stores -/

/-- A store whose calls change the board by posts and in no other way. -/
class Posting (σ : Type) [DataStore σ] : Prop where
  later : ∀ (c : Access) (s : Site σ), s.board.Later (c.outcome s).2

/-- Calls one after the other only post on the board. -/
theorem Posting.later_of_called {σ : Type} [DataStore σ] [Posting σ] {p : Access → Prop} {s s' : Site σ}
    (h : Relation.ReflTransGen (Access.Called p) s s') : s.board.Later s'.board := by
  induction h with
  | refl => exact .refl _
  | tail _ hcall ih =>
    obtain ⟨c, -, rfl⟩ := hcall
    exact ih.trans (Posting.later c _)

instance {π : Type} [SharedStore π] : Posting (Attached π) where
  later c s := by
    rw [(Attached.outcome_asked c s).2]
    exact Board.later_told ..

instance {μ : Type} [DataStore μ] [Posting μ] : Posting (Layered μ) where
  later c s := by
    rw [Layered.outcome_passed]
    cases s.store.passes c with
    | some a => exact Posting.later c (⟨a, s.board⟩ : Site μ)
    | none =>
      simp only
      split
      · exact s.board.later_refreshed
      · exact .refl _

end FlagDelivery
