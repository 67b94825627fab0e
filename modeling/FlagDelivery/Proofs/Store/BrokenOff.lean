import FlagDelivery.Proofs.Store.Outages
import FlagDelivery.Proofs.Store.Usable

/-!
# Batches that are broken off

A batch reaches a backend as one write after the other. Where the backend can be reached at some operations and not at
others, a write that is accepted leaves what `SharedMemory.taken` says, and one that fails leaves everything as it is:
`Guarded.upsert_withOutages`. So an incremental batch that fails has been written up to the item at which it failed, and
a batch of all data has been written as a whole or not at all: `Attached.apply_withOutages`. What was written of a batch
that failed shows exactly if one of those items was newer than what was held: `SharedMemory.text?_takenAll_iff`.
-/

namespace FlagDelivery

namespace SharedMemory

variable {b c d : SharedMemory} {kind : Kind} {key : String} {item : Item}

/-- The backend once an item was written, if it is newer than what is held under the key. -/
def taken (b : SharedMemory) (kind : Kind) (key : String) (item : Item) : SharedMemory :=
  match b.versionAt kind.space key with
  | .ok old => if old < item.version then b.put kind.space key (item.textAt key) else b
  | .error _ => b

/-- The backend once items were written one after the other. -/
def takenAll (b : SharedMemory) (es : List (Kind × String × Item)) : SharedMemory :=
  es.foldl (fun b (kind, key, item) => b.taken kind key item) b

theorem takenAll_cons (b : SharedMemory) (kind : Kind) (key : String) (item : Item) (es : List (Kind × String × Item)) :
    b.takenAll ((kind, key, item) :: es) = (b.taken kind key item).takenAll es := rfl

/-- A newer item is put where an older text is. -/
theorem taken_of_lt {old : Int} (hv : b.versionAt kind.space key = .ok old) (hlt : old < item.version) :
    b.taken kind key item = b.put kind.space key (item.textAt key) := by
  simp only [taken, hv, if_pos hlt]

/-- An item that is not newer changes nothing. -/
theorem taken_of_le (h : ∀ old, b.versionAt kind.space key = .ok old → item.version ≤ old) : b.taken kind key item = b := by
  unfold taken
  split
  · next old hv => exact if_neg (Int.not_lt.mpr (h old hv))
  · rfl

/-- An item is written over an older version, or nothing is. -/
theorem taken_cases (b : SharedMemory) (kind : Kind) (key : String) (item : Item) :
    (∃ old, b.versionAt kind.space key = .ok old ∧ old < item.version ∧
      b.taken kind key item = b.put kind.space key (item.textAt key)) ∨
      (∀ old, b.versionAt kind.space key = .ok old → item.version ≤ old) ∧ b.taken kind key item = b := by
  by_cases h : ∃ old, b.versionAt kind.space key = .ok old ∧ old < item.version
  · obtain ⟨old, hv, hlt⟩ := h
    exact .inl ⟨old, hv, hlt, taken_of_lt hv hlt⟩
  · have hle : ∀ old, b.versionAt kind.space key = .ok old → item.version ≤ old :=
      fun old hv => Int.not_lt.mp fun hlt => h ⟨old, hv, hlt⟩
    exact .inr ⟨hle, taken_of_le hle⟩

/-- What is held is the same, whether it can be reached or not. -/
def Same (b c : SharedMemory) : Prop := ∃ reachable, c = b.setReachable reachable

theorem Same.trans (h : b.Same c) (h' : c.Same d) : b.Same d := by
  obtain ⟨_, rfl⟩ := h
  obtain ⟨r, rfl⟩ := h'
  exact ⟨r, rfl⟩

theorem Same.space (h : b.Same c) (name : String) : c.space name = b.space name := by
  obtain ⟨_, rfl⟩ := h
  rfl

theorem Same.text? (h : b.Same c) (space key : String) : c.text? space key = b.text? space key := by
  obtain ⟨_, rfl⟩ := h
  rfl

/-- Backends that hold the same tell the same versions. -/
theorem Same.versionAt (h : b.Same c) (space key : String) : c.versionAt space key = b.versionAt space key := by
  obtain ⟨_, rfl⟩ := h
  rfl

/-- Backends that hold the same hold the same once both took an item. -/
theorem Same.taken (h : b.Same c) (kind : Kind) (key : String) (item : Item) :
    (b.taken kind key item).Same (c.taken kind key item) := by
  obtain ⟨r, rfl⟩ := h
  refine ⟨r, ?_⟩
  have hversion : (b.setReachable r).versionAt kind.space key = b.versionAt kind.space key := rfl
  rw [SharedMemory.taken, SharedMemory.taken, hversion]
  split
  · split <;> rfl
  · rfl

/-- Backends that hold the same hold the same once both took items one after the other. -/
theorem Same.takenAll (h : b.Same c) (es : List (Kind × String × Item)) : (b.takenAll es).Same (c.takenAll es) := by
  induction es generalizing b c with
  | nil => exact h
  | cons e es ih => exact ih (h.taken e.1 e.2.1 e.2.2)

/-- Whether a backend can be reached does not matter for what replaces its texts. -/
theorem replacing_setReachable (data : List (String × List (String × String))) (b : SharedMemory) (reachable : Bool) :
    (b.setReachable reachable).replacing data = (b.replacing data).setReachable reachable := by
  induction data generalizing b with
  | nil => rfl
  | cons group data ih => exact ih (b.replace group.1 group.2)

/-! ## What writes leave -/

/-- Why a write under a key fails: the backend is cut off at some operation, or the text that it holds there tells no
version. -/
def Refuses (b : SharedMemory) (reachable : Nat → Bool) (kind : Kind) (key : String) (e : StoreError) : Prop :=
  (e = offline ∧ ∃ n, reachable n = false) ∨ b.versionAt kind.space key = .error e

/-- What a write leaves: the item was taken, or the write failed and nothing has changed. -/
def Wrote (b : SharedMemory) (reachable : Nat → Bool) (kind : Kind) (key : String) (item : Item) (c : SharedMemory) :
    Except StoreError Bool → Prop
  | .ok _ => (b.taken kind key item).Same c
  | .error e => b.Same c ∧ b.Refuses reachable kind key e

/-- What writes leave one after the other: the items were taken, or those before the one whose write failed were. -/
def WroteAll (b : SharedMemory) (reachable : Nat → Bool) (es : List (Kind × String × Item)) (c : SharedMemory) :
    Except StoreError Unit → Prop
  | .ok () => (b.takenAll es).Same c
  | .error e => ∃ done kind key item rest, es = done ++ (kind, key, item) :: rest ∧ (b.takenAll done).Same c ∧
      (b.takenAll done).Refuses reachable kind key e

/-- What writes leave after a first one. -/
theorem WroteAll.cons {reachable : Nat → Bool} {es : List (Kind × String × Item)} {r : Except StoreError Unit}
    (h : (b.taken kind key item).Same c) (hs : c.WroteAll reachable es d r) :
    b.WroteAll reachable ((kind, key, item) :: es) d r := by
  cases r with
  | ok u => exact (h.takenAll es).trans hs
  | error e =>
    obtain ⟨done, kind', key', item', rest, rfl, hsame, he⟩ := hs
    refine ⟨(kind, key, item) :: done, kind', key', item', rest, rfl, (h.takenAll done).trans hsame, ?_⟩
    rwa [Refuses, (h.takenAll done).versionAt] at he

/-! ## Whether anything has changed -/

/-- Under the key of an item that was taken or not there is no version below it. -/
theorem le_versionAt_taken (hi : item.WellFormed) {version : Int}
    (h : (b.taken kind key item).versionAt kind.space key = .ok version) : item.version ≤ version := by
  obtain ⟨old, -, -, htaken⟩ | ⟨hle, htaken⟩ := b.taken_cases kind key item
  · by_cases hr : item.Readable
    · obtain ⟨deleted, htext⟩ := Stored.versionOf_textFor hr key
      simp [htaken, SharedMemory.versionAt, text?_put, Item.textAt, htext, Functor.map, Except.map] at h
      exact Int.le_of_eq h
    · obtain ⟨e, htext⟩ := Stored.versionOf_of_not_readable hi hr key
      simp [htaken, SharedMemory.versionAt, text?_put, Item.textAt, htext, Functor.map, Except.map] at h
  · rw [htaken] at h
    exact hle version h

/-- A version that is told after an item was taken or not was there before or is above the one before. -/
theorem versionAt_of_taken (hi : item.WellFormed) {space key' : String} {version : Int}
    (h : (b.taken kind key item).versionAt space key' = .ok version) :
    ∃ old, b.versionAt space key' = .ok old ∧ old ≤ version := by
  obtain ⟨old, hv, hlt, htaken⟩ | ⟨-, htaken⟩ := b.taken_cases kind key item
  · by_cases hk : kind.space = space ∧ key = key'
    · obtain ⟨rfl, rfl⟩ := hk
      exact ⟨old, hv, Int.le_of_lt (Int.lt_of_lt_of_le hlt (le_versionAt_taken hi h))⟩
    · rw [htaken, versionAt_put_of_ne b hk] at h
      exact ⟨version, h, Int.le_refl _⟩
  · rw [htaken] at h
    exact ⟨version, h, Int.le_refl _⟩

/-- A version that is told after items were taken was told before, or a lower one was. -/
theorem versionAt_of_takenAll {es : List (Kind × String × Item)} (hes : ∀ e ∈ es, e.2.2.WellFormed) {space key : String}
    {version : Int} (h : (b.takenAll es).versionAt space key = .ok version) :
    ∃ old, b.versionAt space key = .ok old ∧ old ≤ version := by
  induction es generalizing b with
  | nil => exact ⟨version, h, Int.le_refl _⟩
  | cons e es ih =>
    obtain ⟨middle, hmiddle, hle⟩ := ih (fun e he => hes e (List.mem_cons_of_mem _ he)) h
    obtain ⟨old, hold, hle'⟩ := versionAt_of_taken (hes e List.mem_cons_self) hmiddle
    exact ⟨old, hold, Int.le_trans hle' hle⟩

/-- After items were taken no version of theirs is higher than what is told under its key. -/
theorem le_versionAt_takenAll {es : List (Kind × String × Item)} (hes : ∀ e ∈ es, e.2.2.WellFormed)
    {e : Kind × String × Item} (he : e ∈ es) {version : Int}
    (h : (b.takenAll es).versionAt e.1.space e.2.1 = .ok version) :
    e.2.2.version ≤ version := by
  induction es generalizing b with
  | nil => cases he
  | cons first es ih =>
    have hwell : ∀ e ∈ es, e.2.2.WellFormed := fun e he => hes e (List.mem_cons_of_mem _ he)
    rcases List.mem_cons.mp he with rfl | he
    · obtain ⟨middle, hmiddle, hle⟩ := versionAt_of_takenAll hwell h
      exact Int.le_trans (le_versionAt_taken (hes e List.mem_cons_self) hmiddle) hle
    · exact ih hwell he h

/-- No item is newer than the text held under its key, where that tells its version. -/
def Outdates (b : SharedMemory) (es : List (Kind × String × Item)) : Prop :=
  ∀ e ∈ es, ∀ old, b.versionAt e.1.space e.2.1 = .ok old → e.2.2.version ≤ old

/-- Items that are not newer change nothing. -/
theorem takenAll_of_outdates {es : List (Kind × String × Item)} (h : b.Outdates es) : b.takenAll es = b := by
  induction es with
  | nil => rfl
  | cons e es ih =>
    obtain ⟨kind, key, item⟩ := e
    rw [takenAll_cons, taken_of_le (h _ List.mem_cons_self)]
    exact ih fun e he => h e (List.mem_cons_of_mem _ he)

/-- Writes leave every text as it was exactly if none of the items is newer. -/
theorem text?_takenAll_iff {es : List (Kind × String × Item)} (hes : ∀ e ∈ es, e.2.2.WellFormed) :
    (∀ space key, (b.takenAll es).text? space key = b.text? space key) ↔ b.Outdates es := by
  constructor
  · intro h e he old hold
    have hversion : (b.takenAll es).versionAt e.1.space e.2.1 = .ok old := by
      rw [SharedMemory.versionAt, h]
      exact hold
    exact le_versionAt_takenAll hes he hversion
  · intro h space key
    rw [takenAll_of_outdates h]

end SharedMemory

namespace Disturbed

variable (b : SharedMemory) (n : Nat) (reachable : Nat → Bool)

/-- A backend with outages after some operations. -/
abbrev after : Disturbed SharedMemory := ⟨b, n, fun n b => b.setReachable (reachable n)⟩

/-- A watch, with the outage that comes before it. -/
theorem watch_after (space : String) :
    (Backend.watch space : StoreM (Disturbed SharedMemory) Nat).run (after b n reachable) =
    (if reachable n then .ok (b.space space).revision else .error SharedMemory.offline,
      after (b.setReachable (reachable n)) (n + 1) reachable) := by
  have hrun : (Backend.watch space : StoreM (Disturbed SharedMemory) Nat).run (after b n reachable) =
      let out := (Backend.watch space : StoreM SharedMemory Nat).run (b.setReachable (reachable n))
      (out.1, after out.2 (n + 1) reachable) := rfl
  rw [hrun, SharedMemory.watch_run]
  cases reachable n <;> rfl

theorem get?_after (space key : String) :
    (Backend.get? space key : StoreM (Disturbed SharedMemory) (Option String)).run (after b n reachable) =
      (if reachable n then .ok (b.text? space key) else .error SharedMemory.offline,
        after (b.setReachable (reachable n)) (n + 1) reachable) := by
  have hrun : (Backend.get? space key : StoreM (Disturbed SharedMemory) (Option String)).run (after b n reachable) =
      let out := (Backend.get? space key : StoreM SharedMemory (Option String)).run (b.setReachable (reachable n))
      (out.1, after out.2 (n + 1) reachable) := rfl
  rw [hrun, SharedMemory.get?_run]
  cases reachable n <;> rfl

/-- A commit at the revision that the space is at writes the text, if the backend can be reached. -/
theorem commit_after (space key text : String) :
    (Backend.commit (b.space space).revision space key text : StoreM (Disturbed SharedMemory) Bool).run
      (after b n reachable) =
      if reachable n then (.ok true, after ((b.put space key text).setReachable true) (n + 1) reachable)
      else (.error SharedMemory.offline, after (b.setReachable false) (n + 1) reachable) := by
  have hrun : (Backend.commit (b.space space).revision space key text : StoreM (Disturbed SharedMemory) Bool).run
      (after b n reachable) =
      let out := (Backend.commit (b.space space).revision space key text : StoreM SharedMemory Bool).run
          (b.setReachable (reachable n))
      (out.1, after out.2 (n + 1) reachable) := rfl
  rw [hrun, SharedMemory.commit_run]
  cases reachable n with
  | false => rfl
  | true =>
    have hspace : ((b.setReachable true).space space).revision = (b.space space).revision := rfl
    rw [if_pos hspace]
    rfl

theorem replaceAll_after (data : List (String × List (String × String))) :
    (Backend.replaceAll data : StoreM (Disturbed SharedMemory) Unit).run (after b n reachable) =
      if reachable n then (.ok (), after ((b.setReachable true).replacing data) (n + 1) reachable)
      else (.error SharedMemory.offline, after (b.setReachable false) (n + 1) reachable) := by
  have hrun : (Backend.replaceAll data : StoreM (Disturbed SharedMemory) Unit).run (after b n reachable) =
      let out := (Backend.replaceAll data : StoreM SharedMemory Unit).run (b.setReachable (reachable n))
      (out.1, after out.2 (n + 1) reachable) := rfl
  rw [hrun, SharedMemory.replaceAll_run]
  cases reachable n <;> rfl

end Disturbed

namespace Guarded

open Disturbed (after)

variable (b : SharedMemory) (n : Nat) (reachable : Nat → Bool) (retry : Policy) (log : List (String × String)) (kind : Kind)
  (key : String) (item : Item)

/-- An attempt meets no conflict: it takes the item, or it fails and nothing has changed. -/
theorem attempt_withOutages :
    ∃ r c n' log', (attempt kind.space key (.ofItem item)).run ⟨after b n reachable, retry, fun _ b => b, log⟩ =
        (r.map some, ⟨after c n' reachable, retry, fun _ b => b, log'⟩) ∧ b.Wrote reachable kind key item c r := by
  rw [attempt_run, Disturbed.watch_after]
  cases hn : reachable n with
  | false => exact ⟨.error SharedMemory.offline, _, _, _, rfl, ⟨_, rfl⟩, .inl ⟨rfl, n, hn⟩⟩
  | true =>
    have htext : (b.setReachable true).text? kind.space key = b.text? kind.space key := rfl
    simp only [if_true, Disturbed.get?_after, htext]
    cases hn' : reachable (n + 1) with
    | false => exact ⟨.error SharedMemory.offline, _, _, _, rfl, ⟨_, rfl⟩, .inl ⟨rfl, n + 1, hn'⟩⟩
    | true =>
      simp only [if_true, b.supersedes_text? kind.space key (.ofItem item), Stored.version_ofItem]
      cases hv : b.versionAt kind.space key with
      | error e => exact ⟨.error e, _, _, _, rfl, ⟨_, rfl⟩, .inr hv⟩
      | ok old =>
        by_cases hlt : old < item.version
        · have htaken := SharedMemory.taken_of_lt hv hlt
          have hcommit : (Backend.commit (b.space kind.space).revision kind.space key ((Stored.ofItem item).textFor key) :
              StoreM (Disturbed SharedMemory) Bool).run
                (after ((b.setReachable true).setReachable true) (n + 1 + 1) reachable) = _ :=
            Disturbed.commit_after _ _ reachable _ _ _
          simp only [Functor.map, Except.map, decide_eq_true hlt, hcommit]
          cases hn'' : reachable (n + 1 + 1) with
          | false => exact ⟨.error SharedMemory.offline, _, _, _, rfl, ⟨_, rfl⟩, .inl ⟨rfl, n + 1 + 1, hn''⟩⟩
          | true => exact ⟨.ok true, _, _, _, rfl, true, by rw [htaken]; rfl⟩
        · have htaken : b.taken kind key item = b := SharedMemory.taken_of_le fun old' hv' => by
            rw [hv] at hv'
            exact Except.ok.inj hv' ▸ Int.not_lt.mp hlt
          simp only [Functor.map, Except.map, decide_eq_false hlt]
          exact ⟨.ok false, _, _, _, rfl, true, by rw [htaken]; rfl⟩

/-- A write takes the item, or it fails and nothing has changed. -/
theorem upsert_withOutages :
    ∃ r c n' log', (upsert kind key (.ofItem item)).run ⟨after b n reachable, retry, fun _ b => b, log⟩ =
        (r, ⟨after c n' reachable, retry, fun _ b => b, log'⟩) ∧ b.Wrote reachable kind key item c r := by
  obtain ⟨fuel, hrun⟩ := upsert_run_attemptFrom kind key (.ofItem item) ⟨after b n reachable, retry, fun _ b => b, log⟩
  obtain ⟨r, c, n', log', hattempt, hwrote⟩ := attempt_withOutages b n reachable retry log kind key item
  refine ⟨r, c, n', log', ?_, hwrote⟩
  rw [hrun, attemptFrom_run, hattempt]
  cases r <;> rfl

end Guarded

namespace Attached

open Disturbed (after)

/-- A store attached to a backend in memory that can be reached at some operations and not at others. -/
abbrev Flaky := Attached (Guarded (Disturbed SharedMemory))

/-- What the backend holds. -/
def held (site : Site Flaky) : SharedMemory := site.store.shared.backend.backend

/-- The backend can be reached at its operations as told, and nobody else writes to it. -/
structure Reached (reachable : Nat → Bool) (site : Site Flaky) : Prop where
  outages : site.store.shared.backend.before = fun n b => b.setReachable (reachable n)
  alone : site.store.shared.rival = fun _ b => b

variable {reachable : Nat → Bool} {site : Site Flaky}

/-- A write of one item leaves the item taken, or nothing changed and an error. -/
theorem Reached.upsert (h : Reached reachable site) (kind : Kind) (key : String) (item : Item) :
    let out := (Attached.upsert kind key item).run site
    Reached reachable out.2 ∧ (held site).Wrote reachable kind key item (held out.2) out.1 := by
  obtain ⟨⟨⟨⟨b, n, before⟩, retry, rival, log⟩, recovery, polling, filled⟩, board⟩ := site
  obtain ⟨rfl, rfl⟩ := h
  obtain ⟨r, c, n', log', hrun, hwrote⟩ := Guarded.upsert_withOutages b n reachable retry log kind key item
  have hshared : (SharedStore.upsert kind key (.ofItem item) : StoreM (Guarded (Disturbed SharedMemory)) Bool) =
      Guarded.upsert kind key (.ofItem item) := rfl
  rw [Attached.upsert, observe_run, hshared, hrun]
  cases r <;> exact ⟨⟨rfl, rfl⟩, hwrote⟩

/-- Items are written one after the other, up to one whose write fails. -/
theorem Reached.upsertAll (h : Reached reachable site) (es : List (Kind × String × Item)) :
    let out := (Attached.upsertAll es).run site
    Reached reachable out.2 ∧ (held site).WroteAll reachable es (held out.2) out.1 := by
  induction es generalizing site with
  | nil => exact ⟨h, (held site).reachable, rfl⟩
  | cons e es ih =>
    obtain ⟨kind, key, item⟩ := e
    obtain ⟨hreached, hwrote⟩ := h.upsert kind key item
    rw [upsertAll_cons_run]
    rcases hrun : (Attached.upsert kind key item).run site with ⟨e | written, site'⟩
    · rw [hrun] at hreached hwrote
      exact ⟨hreached, [], kind, key, item, es, rfl, hwrote⟩
    · rw [hrun] at hreached hwrote
      obtain ⟨hreached', hwroteAll⟩ := ih hreached
      exact ⟨hreached', hwroteAll.cons hwrote⟩

/-- All data is replaced, or nothing has changed. -/
theorem Reached.fill (h : Reached reachable site) (data : Groups Item) (persist : Bool) :
    let out := (Attached.fill (stored ⟨data, persist⟩)).run site
    (out.1 = .ok () → ((held site).replacing data.storedTexts).Same (held out.2)) ∧
      ∀ e, out.1 = .error e → e = SharedMemory.offline ∧ (∃ n, reachable n = false) ∧ (held site).Same (held out.2) := by
  obtain ⟨⟨⟨⟨b, n, before⟩, retry, rival, log⟩, recovery, polling, filled⟩, board⟩ := site
  obtain ⟨rfl, rfl⟩ := h
  have hinit : (SharedStore.init (stored ⟨data, persist⟩) : StoreM (Guarded (Disturbed SharedMemory)) Unit).run
      ⟨after b n reachable, retry, fun _ b => b, log⟩ =
      let out := (Backend.replaceAll data.storedTexts : StoreM (Disturbed SharedMemory) Unit).run (after b n reachable)
      (out.1, ⟨out.2, retry, fun _ b => b, log⟩) := rfl
  rw [fill_run, hinit, Disturbed.replaceAll_after]
  cases hn : reachable n with
  | false => exact ⟨nofun, fun e he => ⟨(Except.error.inj he).symm, ⟨n, hn⟩, _, rfl⟩⟩
  | true => exact ⟨fun _ => ⟨true, SharedMemory.replacing_setReachable _ _ _⟩, nofun⟩

/-- **A batch that fails.** The backend can be reached at some operations and not at others, and nobody else writes to
it. What it holds is anything, also texts that tell no version.
1. A batch of all data that is accepted has replaced the kinds that it lists. One that fails, because the backend is cut
   off, leaves every text as it was.
2. An incremental batch that is accepted has written each item that was newer. One that fails has written those before
   the item at which it failed, which is one that met the backend cut off or a text that tells no version. So it leaves
   every text as it was exactly if none of the items before was newer than the text under its key.
3. A batch without changes is accepted and leaves every text as it was. -/
theorem apply_withOutages (h : Reached reachable site) (b : Batch) :
    let out := (apply b).run site
    let Holds (c : SharedMemory) : Prop := ∀ space key, (held out.2).text? space key = c.text? space key
    (b.extent = .full →
      (out.1 = .ok () → Holds ((held site).replacing b.data.storedTexts)) ∧
      ∀ e, out.1 = .error e → e = SharedMemory.offline ∧ (∃ n, reachable n = false) ∧ Holds (held site)) ∧
    (b.extent = .incremental →
      (out.1 = .ok () → Holds ((held site).takenAll b.data.entries)) ∧
      ∀ e, out.1 = .error e → ∃ done kind key item rest, b.data.entries = done ++ (kind, key, item) :: rest ∧
        Holds ((held site).takenAll done) ∧ ((held site).takenAll done).Refuses reachable kind key e ∧
        ((∀ e ∈ done, e.2.2.WellFormed) → (Holds (held site) ↔ (held site).Outdates done))) ∧
    (b.extent = .none → out.1 = .ok () ∧ Holds (held site)) := by
  intro out Holds
  refine ⟨?_, ?_, ?_⟩
  · intro he
    -- All data is replaced by one operation of the backend, which takes effect or does not.
    have hout : out = (fill (stored ⟨b.data, b.persist⟩)).run site := by simp only [out, apply_run, he]
    obtain ⟨hok, herror⟩ := h.fill b.data b.persist
    rw [← hout] at hok herror
    exact ⟨fun ho => (hok ho).text?, fun e hr => ⟨(herror e hr).1, (herror e hr).2.1, (herror e hr).2.2.text?⟩⟩
  · intro he
    -- A change is a write for each item, up to the first that fails.
    have hout : out = (Attached.upsertAll b.data.entries).run site := by simp only [out, apply_run, he]
    obtain ⟨-, hwrote⟩ := h.upsertAll b.data.entries
    rw [← hout] at hwrote
    constructor
    · intro hok
      rw [hok] at hwrote
      exact hwrote.text?
    · intro e herror
      rw [herror] at hwrote
      obtain ⟨done, kind, key, item, rest, hes, hsame, hfailed⟩ := hwrote
      refine ⟨done, kind, key, item, rest, hes, hsame.text?, hfailed, fun hdone => ?_⟩
      simp only [Holds, hsame.text?]
      exact SharedMemory.text?_takenAll_iff hdone
  · intro he
    have hout : out = (.ok (), site) := by simp only [out, apply_run, he]
    exact ⟨by rw [hout], fun _ _ => by rw [hout]⟩

/-! ### A batch broken off by an outage -/

/-- Two flags. -/
def twoFlags : Batch := ⟨.incremental, .empty, [(.features, [("a", .tombstone 1), ("b", .tombstone 1)])], none, true⟩

/-- A store whose backend holds nothing, and is cut off once three operations were made. -/
def cutOff : Site Flaky := ⟨.ofShared (.ofBackend (.withOutages .empty (· ≠ 3)) .unbounded) .unbounded, .initial true⟩

/-- Of two flags the first is written, and at the second the batch fails. -/
theorem apply_withOutages_cutOff :
    let out := (apply twoFlags).run cutOff
    out.1 = .error SharedMemory.offline ∧
      ∃ done kind key item rest, twoFlags.data.entries = done ++ (kind, key, item) :: rest ∧
      ∀ space key, (held out.2).text? space key = (SharedMemory.empty.takenAll done).text? space key := by
  intro out
  have herror : out.1 = .error SharedMemory.offline := rfl
  have hreached : Reached (· ≠ 3) cutOff := ⟨rfl, rfl⟩
  obtain ⟨-, hincremental, -⟩ := apply_withOutages hreached twoFlags
  obtain ⟨done, kind, key, item, rest, hes, hholds, -⟩ := (hincremental rfl).2 _ herror
  exact ⟨herror, done, kind, key, item, rest, hes, hholds⟩

/-- The batch has failed, and the text of the first flag is not what it was. -/
theorem half_written :
    let out := (apply twoFlags).run cutOff
    out.1 = .error SharedMemory.offline ∧ (held cutOff).text? Kind.features.space "a" = none ∧
      (held out.2).text? Kind.features.space "a" = some ((Item.tombstone 1).textAt "a") :=
  ⟨rfl, rfl, rfl⟩

end Attached

end FlagDelivery
