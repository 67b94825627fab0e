import FlagDelivery.Proofs.Item.Stored
import FlagDelivery.Proofs.Store.Backend
import FlagDelivery.Proofs.Store.Writers

/-!
# Many writers on one backend

A `Traffic` is a backend in memory with all the guarded writes that were begun on it. It moves by a `Deed`: a write
begins, one makes its next operation, somebody writes without a guard or replaces whole spaces, or the backend is cut
off or back. Any list of deeds is an interleaving. `Traffic.no_lost_update` says what guarded writes guarantee over all
of them. It rests on `Writer.Sound`, which holds of each write at any moment: if its space is still at the revision
watched, the text it read is still there.
-/

namespace FlagDelivery

namespace SharedMemory

/-- The version of the text under a key; a missing one counts as `-1`. -/
def versionAt (b : SharedMemory) (space key : String) : Except StoreError Int :=
  match b.text? space key with
  | none => .ok (-1)
  | some text => Prod.fst <$> Stored.versionOf text

/-- An item supersedes a text if it is newer than the text's version. -/
theorem supersedes_text? (b : SharedMemory) (space key : String) (item : Stored) :
    Guarded.supersedes item (b.text? space key) = (fun old => decide (old < item.version)) <$> b.versionAt space key := by
  unfold versionAt Guarded.supersedes
  cases b.text? space key with
  | none => rfl
  | some text =>
    cases hv : Stored.versionOf text <;> simp [hv, Functor.map, Except.map, bind, Except.bind, pure, Except.pure]

/-- Where the text of an item that can be read back was put, the item's version is. -/
theorem versionAt_put {i : Item} (hi : i.Storable) (b : SharedMemory) (space key : String) :
    (b.put space key ((Stored.ofItem i).textFor key)).versionAt space key = .ok i.version := by
  obtain ⟨deleted, hv⟩ := Stored.versionOf_textFor hi.readable key
  simp [versionAt, text?_put, hv, Functor.map, Except.map]

/-- The versions under other keys stay. -/
theorem versionAt_put_of_ne (b : SharedMemory) {space key space' key' : String} (h : ¬(space = space' ∧ key = key'))
    (text : String) : (b.put space key text).versionAt space' key' = b.versionAt space' key' := by
  rw [versionAt, versionAt, text?_put, if_neg h]

end SharedMemory

/-- What can happen next. An item that a write begins with is one that can be read back. -/
inductive Deed where
  | start (kind : Kind) (key : String) (item : Item) (storable : item.Storable) (retry : Policy)
  | act (writer : Nat)
  | put (space key text : String)
  | replaceAll (data : List (String × List (String × String)))
  | reach (reachable : Bool)

/-- Nothing is written but by a guarded write. -/
def Deed.isGuarded : Deed → Bool
  | .put _ _ _ | .replaceAll _ => false
  | _ => true

/-- A backend with the guarded writes begun on it. -/
structure Traffic where
  backend : SharedMemory
  writers : List Writer
  /-- The writers whose operations wrote to their space, in order. -/
  log : List Nat

namespace Traffic

/-- A backend on which no write was begun. -/
def ofBackend (b : SharedMemory) : Traffic := ⟨b, [], []⟩

/-- One of the writers makes its next operation. -/
def actOf (t : Traffic) (i : Nat) (w : Writer) : Traffic :=
  let (w', b) := w.act t.backend
  let moved := (b.space w.space).revision ≠ (t.backend.space w.space).revision
  ⟨b, t.writers.set i w', if moved then t.log ++ [i] else t.log⟩

/-- One deed. -/
def step (t : Traffic) : Deed → Traffic
  | .start kind key item _ retry => { t with writers := t.writers ++ [.fresh kind key (.ofItem item) retry] }
  | .act i => match t.writers[i]? with
    | some w => t.actOf i w
    | none => t
  | .put space key text => { t with backend := t.backend.put space key text }
  | .replaceAll data => { t with backend := ((Backend.replaceAll data).run t.backend).2 }
  | .reach reachable => { t with backend := t.backend.setReachable reachable }

/-- Deeds one after the other. -/
def run (t : Traffic) (ds : List Deed) : Traffic := ds.foldl step t

end Traffic

/-! ## One operation of a writer -/

namespace Writer

open SharedMemory

/-- All that an operation of a writer can do, with the backend after it. -/
inductive Acted (b : SharedMemory) (w : Writer) : Writer → SharedMemory → Prop where
  | ended (result) : w.stage = .done result → Acted b w w b
  | failed (e) : (∀ result, w.stage ≠ .done result) → Acted b w (w.finished (.error e)) b
  | watched : w.stage = .watching → Acted b w { w with stage := .reading (b.space w.space).revision } b
  | newer (revision) : w.stage = .reading revision → Guarded.supersedes w.item (b.text? w.space w.key) = .ok true →
      Acted b w { w with stage := .committing revision (b.text? w.space w.key) } b
  | older (revision) : w.stage = .reading revision → Guarded.supersedes w.item (b.text? w.space w.key) = .ok false →
      Acted b w (w.finished (.ok false)) b
  | conflicted (revision held conflicts) : w.stage = .committing revision held →
      Acted b w { w with conflicts := conflicts, stage := .watching } b
  | committed (revision held) : w.stage = .committing revision held → (b.space w.space).revision = revision →
      Acted b w (w.finished (.ok true)) (b.put w.space w.key w.text)

/-- This is all that an operation of a writer can do. -/
theorem acted (b : SharedMemory) (w : Writer) : Acted b w (w.act b).1 (w.act b).2 := by
  cases hs : w.stage with
  | watching =>
    rw [act_watching hs, watch_run]
    split
    · exact .watched hs
    · exact .failed _ (by simp [hs])
  | reading revision =>
    rw [act_reading hs, get?_run]
    split
    · simp only [taking, decided]
      split
      · next h => exact .newer revision hs h
      · next h => exact .older revision hs h
      · exact .failed _ (by simp [hs])
    · exact .failed _ (by simp [hs])
  | committing revision held =>
    rw [act_committing hs, commit_run]
    split
    · split
      · next h => exact .committed revision held hs h
      · simp only [taking, Writer.conflicted]
        rw [if_neg (by simp)]
        split
        · exact .conflicted revision held _ hs
        · exact .failed _ (by simp [hs])
    · exact .failed _ (by simp [hs])
  | done result =>
    rw [act_done hs]
    exact .ended result hs

variable {b c : SharedMemory} {w w' : Writer}

/-- The write itself stays the same one. -/
theorem Acted.same (h : Acted b w w' c) : w'.space = w.space ∧ w'.key = w.key ∧ w'.item = w.item := by
  cases h <;> exact ⟨rfl, rfl, rfl⟩

/-- An operation only moves spaces on. -/
theorem Acted.onward (h : Acted b w w' c) : b.Onward c := by
  cases h with
  | committed => exact onward_put b _ _ _
  | _ => exact .refl b

/-- A writer's operation moves its space on only by a commit, after which the write has ended. -/
theorem Acted.moved (h : Acted b w w' c) (hm : (c.space w.space).revision ≠ (b.space w.space).revision) :
    (∃ held, w.stage = .committing (b.space w.space).revision held) ∧ w' = w.finished (.ok true) ∧
      c = b.put w.space w.key w.text := by
  cases h with
  | committed revision held hs hr => exact ⟨⟨held, hr ▸ hs⟩, rfl, rfl⟩
  | _ => exact absurd rfl hm

/-- An operation that does not move the writer's space on leaves the backend as it is, and does not end a write with
success. -/
theorem Acted.unmoved (h : Acted b w w' c) (hm : (c.space w.space).revision = (b.space w.space).revision) :
    c = b ∧ (w'.stage = .done (.ok true) ↔ w.stage = .done (.ok true)) := by
  cases h with
  | committed revision held hs hr => simp [space_put] at hm
  | ended => exact ⟨rfl, .rfl⟩
  | failed e hn => exact ⟨rfl, by simp [finished, hn]⟩
  | watched hs | newer revision hs | older revision hs | conflicted revision held conflicts hs =>
    exact ⟨rfl, by simp [finished, hs]⟩

/-- An operation leads to a commit only by reading the text. -/
theorem Acted.reads (h : Acted b w w' c) {revision : Nat} {held : Option String}
    (hw : w'.stage = .committing revision held) :
    w.stage = .reading revision ∧ b.text? w.space w.key = held := by
  cases h with
  | newer revision hs hn =>
    cases hw
    exact ⟨hs, rfl⟩
  | ended result hs => simp [hs] at hw
  | _ => cases hw

/-- An operation ends a write without success only by reading that the item is not newer. -/
theorem Acted.declined (h : Acted b w w' c) (hw : w'.stage = .done (.ok false)) (hn : w.stage ≠ .done (.ok false)) :
    (∃ revision, w.stage = .reading revision) ∧ Guarded.supersedes w.item (b.text? w.space w.key) = .ok false := by
  cases h with
  | older revision hs ho => exact ⟨⟨revision, hs⟩, ho⟩
  | ended result hs => exact absurd hw hn
  | _ => simp [finished] at hw

/-- What holds of a write at any moment. While its space is at the revision watched, the text it has read is still
there. -/
structure Sound (b : SharedMemory) (w : Writer) : Prop where
  item : ∃ i : Item, i.Storable ∧ w.item = .ofItem i
  reading : ∀ revision, w.stage = .reading revision → revision ≤ (b.space w.space).revision
  committing : ∀ revision held, w.stage = .committing revision held →
    revision ≤ (b.space w.space).revision ∧
    ((b.space w.space).revision = revision → b.text? w.space w.key = held) ∧
    Guarded.supersedes w.item held = .ok true

/-- A write stays sound while others move spaces on. -/
theorem Sound.onward (h : w.Sound b) (hc : b.Onward c) : w.Sound c := by
  refine ⟨h.item, ?_, ?_⟩
  · intro revision hs
    exact Nat.le_trans (h.reading revision hs) (hc.revision_le _)
  · intro revision held hs
    obtain ⟨hle, ht, hn⟩ := h.committing revision held hs
    have hr := hc.revision_le w.space
    refine ⟨Nat.le_trans hle hr, ?_, hn⟩
    intro he
    rw [hc.text?_eq (by omega)]
    exact ht (by omega)

/-- A write that is about to begin is sound. -/
theorem sound_fresh (b : SharedMemory) (kind : Kind) (key : String) {item : Item} (h : item.Storable) (retry : Policy) :
    (fresh kind key (.ofItem item) retry).Sound b :=
  ⟨⟨item, h, rfl⟩, nofun, nofun⟩

/-- An operation keeps the write that makes it sound. -/
theorem Acted.sound (ha : Acted b w w' c) (h : w.Sound b) : w'.Sound c := by
  cases ha with
  | ended => exact h
  | failed => exact ⟨h.item, nofun, nofun⟩
  | watched hs => exact ⟨h.item, fun _ hr => by cases hr; exact Nat.le_refl _, nofun⟩
  | newer revision hs hn =>
    refine ⟨h.item, nofun, ?_⟩
    intro revision' held hr
    cases hr
    exact ⟨h.reading revision hs, fun _ => rfl, hn⟩
  | older => exact ⟨h.item, nofun, nofun⟩
  | conflicted => exact ⟨h.item, nofun, nofun⟩
  | committed => exact ⟨h.item, nofun, nofun⟩

/-- A commit overwrites the text that the attempt read, and the version under its key rises to the item's. -/
theorem Sound.commit (h : w.Sound b) {held : Option String}
    (hs : w.stage = .committing (b.space w.space).revision held) :
    b.text? w.space w.key = held ∧ ∃ old, b.versionAt w.space w.key = .ok old ∧ old < w.item.version ∧
      (b.put w.space w.key w.text).versionAt w.space w.key = .ok w.item.version := by
  obtain ⟨-, ht, hn⟩ := h.committing _ held hs
  have ht := ht rfl
  refine ⟨ht, ?_⟩
  rw [← ht, supersedes_text?] at hn
  obtain ⟨i, hi, hw⟩ := h.item
  have hv : w.item.version = i.version := by rw [hw, Stored.version_ofItem]
  cases hold : b.versionAt w.space w.key with
  | error e => simp [hold, Functor.map, Except.map] at hn
  | ok old =>
    simp [hold, Functor.map, Except.map] at hn
    refine ⟨old, rfl, hn, ?_⟩
    rw [text, hw, versionAt_put hi, ← hv, hw]

end Writer

namespace Traffic

open SharedMemory

variable {t : Traffic}

/-! ## What every deed keeps -/

/-- Every write is sound, and the log lists each write that ended with success once and no other. -/
structure Orderly (t : Traffic) : Prop where
  sound : ∀ w ∈ t.writers, w.Sound t.backend
  once : ∀ i w, t.writers[i]? = some w → w.stage = .done (.ok true) → t.log.count i = 1
  never : ∀ i w, t.writers[i]? = some w → w.stage ≠ .done (.ok true) → t.log.count i = 0
  known : ∀ i ∈ t.log, i < t.writers.length

theorem orderly_ofBackend (b : SharedMemory) : (ofBackend b).Orderly where
  sound := by simp [ofBackend]
  once := by simp [ofBackend]
  never := by simp [ofBackend]
  known := by simp [ofBackend]

/-- What happens to the backend alone keeps the order. -/
theorem Orderly.onward (h : t.Orderly) {b : SharedMemory} (hb : t.backend.Onward b) : Orderly { t with backend := b } :=
  ⟨fun w hw => (h.sound w hw).onward hb, h.once, h.never, h.known⟩

/-- A write that was just begun is the last one. -/
theorem of_getElem?_append {ws : List Writer} {v w : Writer} {j : Nat} (h : (ws ++ [w])[j]? = some v) :
    ws[j]? = some v ∨ j = ws.length ∧ v = w := by
  rcases Nat.lt_or_ge j ws.length with hj | hj
  · rw [List.getElem?_append_left hj] at h
    exact .inl h
  · rw [List.getElem?_append_right hj, List.getElem?_singleton] at h
    split at h
    · exact .inr ⟨by omega, (Option.some.inj h).symm⟩
    · cases h

/-- Only the write that acted has changed. -/
theorem of_getElem?_set {ws : List Writer} {v w' : Writer} {i j : Nat} (h : (ws.set i w')[j]? = some v) :
    (j ≠ i ∧ ws[j]? = some v) ∨ (j = i ∧ v = w') := by
  by_cases hj : j = i
  · subst hj
    have hi : j < ws.length := by simpa using (List.getElem?_eq_some_iff.mp h).1
    rw [List.getElem?_set_self hi] at h
    exact .inr ⟨rfl, (Option.some.inj h).symm⟩
  · rw [List.getElem?_set_ne (Ne.symm hj)] at h
    exact .inl ⟨hj, h⟩

/-- A write that begins keeps the order. -/
theorem Orderly.start (h : t.Orderly) (kind : Kind) (key : String) {item : Item} (hi : item.Storable) (retry : Policy) :
    (t.step (.start kind key item hi retry)).Orderly := by
  refine ⟨?_, ?_, ?_, ?_⟩
  · intro v hv
    rcases List.mem_append.mp hv with hv | hv
    · exact h.sound v hv
    · rw [List.mem_singleton.mp hv]
      exact Writer.sound_fresh t.backend kind key hi retry
  · intro j v hv hs
    rcases of_getElem?_append hv with hv | ⟨-, rfl⟩
    · exact h.once j v hv hs
    · cases hs
  · intro j v hv hs
    rcases of_getElem?_append hv with hv | ⟨rfl, -⟩
    · exact h.never j v hv hs
    · exact List.count_eq_zero.mpr fun hj => Nat.lt_irrefl _ (h.known _ hj)
  · intro j hj
    have hj := h.known j hj
    simp only [step, List.length_append]
    omega

/-- A writer's operation, with all that it can do. -/
theorem actOf_cases (t : Traffic) (i : Nat) (w : Writer) :
    ∃ w' b, Writer.Acted t.backend w w' b ∧ t.actOf i w =
      ⟨b, t.writers.set i w',
        if (b.space w.space).revision ≠ (t.backend.space w.space).revision then t.log ++ [i] else t.log⟩ :=
  ⟨_, _, Writer.acted t.backend w, rfl⟩

/-- An operation that commits nothing keeps the order. -/
theorem Orderly.unmoved (h : t.Orderly) {i : Nat} {w w' : Writer} (hw : t.writers[i]? = some w) {b : SharedMemory}
    (hsound : ∀ v ∈ t.writers.set i w', v.Sound b) (hstage : w'.stage = .done (.ok true) ↔ w.stage = .done (.ok true)) :
    Orderly ⟨b, t.writers.set i w', t.log⟩ := by
  refine ⟨hsound, ?_, ?_, by simpa using h.known⟩
  · intro j v hv hs
    rcases of_getElem?_set hv with ⟨-, hv⟩ | ⟨rfl, rfl⟩
    · exact h.once j v hv hs
    · exact h.once j w hw (hstage.mp hs)
  · intro j v hv hs
    rcases of_getElem?_set hv with ⟨-, hv⟩ | ⟨rfl, rfl⟩
    · exact h.never j v hv hs
    · exact h.never j w hw fun hd => hs (hstage.mpr hd)

/-- A commit is logged where the write ends. -/
theorem Orderly.moved (h : t.Orderly) {i : Nat} {w : Writer} (hw : t.writers[i]? = some w) {b : SharedMemory}
    (hsound : ∀ v ∈ t.writers.set i (w.finished (.ok true)), v.Sound b) (hs : w.stage ≠ .done (.ok true)) :
    Orderly ⟨b, t.writers.set i (w.finished (.ok true)), t.log ++ [i]⟩ := by
  have hi : i < t.writers.length := (List.getElem?_eq_some_iff.mp hw).1
  have hzero : t.log.count i = 0 := h.never i w hw hs
  refine ⟨hsound, ?_, ?_, ?_⟩
  · intro j v hv hd
    rcases of_getElem?_set hv with ⟨hj, hv⟩ | ⟨rfl, rfl⟩
    · simpa [List.count_append, List.count_singleton, Ne.symm hj] using h.once j v hv hd
    · simp [List.count_append, hzero]
  · intro j v hv hd
    rcases of_getElem?_set hv with ⟨hj, hv⟩ | ⟨rfl, rfl⟩
    · simpa [List.count_append, List.count_singleton, Ne.symm hj] using h.never j v hv hd
    · exact absurd rfl hd
  · intro j hj
    rw [List.length_set]
    rcases List.mem_append.mp hj with hj | hj
    · exact h.known j hj
    · rwa [List.mem_singleton.mp hj]

/-- An operation of a writer keeps the order. -/
theorem Orderly.actOf (h : t.Orderly) {i : Nat} {w : Writer} (hw : t.writers[i]? = some w) : (t.actOf i w).Orderly := by
  obtain ⟨w', b, ha, he⟩ := t.actOf_cases i w
  rw [he]
  have hsound : ∀ v ∈ t.writers.set i w', v.Sound b := by
    intro v hv
    rcases List.mem_or_eq_of_mem_set hv with hv | rfl
    · exact (h.sound v hv).onward ha.onward
    · exact ha.sound (h.sound w (List.mem_of_getElem? hw))
  by_cases hm : (b.space w.space).revision = (t.backend.space w.space).revision
  · rw [if_neg (fun hne => hne hm)]
    exact h.unmoved hw hsound (ha.unmoved hm).2
  · obtain ⟨⟨held, hs⟩, rfl, rfl⟩ := ha.moved hm
    rw [if_pos hm]
    exact h.moved hw hsound (by simp [hs])

/-- Every deed keeps the order. -/
theorem orderly_step (h : t.Orderly) (d : Deed) : (t.step d).Orderly := by
  cases d with
  | start kind key item hi retry => exact h.start kind key hi retry
  | act i =>
    simp only [step]
    cases hw : t.writers[i]? with
    | none => exact h
    | some w => exact h.actOf hw
  | put space key text => exact h.onward (onward_put _ _ _ _)
  | replaceAll data =>
    refine h.onward ?_
    rw [replaceAll_run]
    split
    · exact onward_replacing _ _
    · exact .refl _
  | reach reachable => exact h.onward (onward_setReachable _ _)

/-- Deeds one after the other keep the order. -/
theorem orderly_run (h : t.Orderly) (ds : List Deed) : (t.run ds).Orderly := by
  induction ds generalizing t with
  | nil => exact h
  | cons d ds ih => exact ih (orderly_step h d)

/-! ## The greatest version wins -/

/-- Under a key that had a version at first there is now the greatest of that version and of some of the versions of the
key's writes, and no write that has ended well has a greater one. -/
def Risen (first : SharedMemory) (t : Traffic) (space key : String) : Prop :=
  ∀ v₀, first.versionAt space key = .ok v₀ → ∃ v, t.backend.versionAt space key = .ok v ∧ v₀ ≤ v ∧
    (∀ w ∈ t.writers, w.space = space → w.key = key → ∀ written, w.stage = .done (.ok written) → w.item.version ≤ v) ∧
    (v = v₀ ∨ ∃ w ∈ t.writers, w.space = space ∧ w.key = key ∧ w.item.version = v)

/-- At first each version is the first one. -/
theorem risen_ofBackend (b : SharedMemory) (space key : String) : Risen b (ofBackend b) space key := fun v₀ h =>
  ⟨v₀, h, Int.le_refl _, by simp [ofBackend], .inl rfl⟩

/-- A write that was begun stays in the traffic, whatever it does next. -/
theorem mem_set_of_mem {ws : List Writer} {i : Nat} {w w' : Writer} (hw : ws[i]? = some w)
    (hs : w'.space = w.space ∧ w'.key = w.key ∧ w'.item = w.item) {u : Writer} (hu : u ∈ ws) :
    ∃ u' ∈ ws.set i w', u'.space = u.space ∧ u'.key = u.key ∧ u'.item = u.item := by
  obtain ⟨j, hj⟩ := List.mem_iff_getElem?.mp hu
  have hi : i < ws.length := (List.getElem?_eq_some_iff.mp hw).1
  by_cases hij : i = j
  · subst hij
    obtain rfl : w = u := Option.some.inj (hw.symm.trans hj)
    exact ⟨w', List.mem_set hi w', hs⟩
  · have hu' : (ws.set i w')[j]? = some u := by rw [List.getElem?_set_ne hij, hj]
    exact ⟨u, List.mem_of_getElem? hu', rfl, rfl, rfl⟩

/-- What a write acts on may still be where a version is from. -/
theorem from_set {ws : List Writer} {i : Nat} {w : Writer} (hw : ws[i]? = some w) (w' : Writer)
    (hs : w'.space = w.space ∧ w'.key = w.key ∧ w'.item = w.item) {space key : String} {v : Int}
    (h : ∃ u ∈ ws, u.space = space ∧ u.key = key ∧ u.item.version = v) :
    ∃ u ∈ ws.set i w', u.space = space ∧ u.key = key ∧ u.item.version = v := by
  obtain ⟨u, hu, hus, huk, huv⟩ := h
  obtain ⟨u', hu', hs, hk, hi⟩ := mem_set_of_mem hw hs hu
  exact ⟨u', hu', hs.trans hus, hk.trans huk, by rw [hi, huv]⟩

/-- A write that ends without a commit has read that it is no newer. -/
theorem Risen.unmoved {first : SharedMemory} {space key : String} (h : Risen first t space key) {i : Nat} {w w' : Writer}
    (hw : t.writers[i]? = some w) (ha : Writer.Acted t.backend w w' t.backend) {log : List Nat} :
    Risen first ⟨t.backend, t.writers.set i w', log⟩ space key := by
  intro v₀ hv₀
  obtain ⟨v, hv, hle, hmax, hfrom⟩ := h v₀ hv₀
  refine ⟨v, hv, hle, ?_, hfrom.imp_right (from_set hw w' ha.same)⟩
  intro u hu hus huk written hd
  rcases List.mem_or_eq_of_mem_set hu with hu | rfl
  · exact hmax u hu hus huk written hd
  obtain ⟨hs, hk, hi⟩ := ha.same
  rw [hs] at hus
  rw [hk] at huk
  rw [hi]
  by_cases hsame : w.stage = .done (.ok written)
  · exact hmax w (List.mem_of_getElem? hw) hus huk written hsame
  cases written with
  | true => exact absurd ((ha.unmoved rfl).2.mp hd) hsame
  | false =>
    obtain ⟨-, hsup⟩ := ha.declined hd hsame
    rw [supersedes_text?, hus, huk, hv] at hsup
    simpa [Functor.map, Except.map] using hsup

/-- A commit writes a greater version. -/
theorem Risen.moved {first : SharedMemory} {space key : String} (h : Risen first t space key) {i : Nat} {w : Writer}
    (hw : t.writers[i]? = some w) (hsound : w.Sound t.backend) {held : Option String}
    (hs : w.stage = .committing (t.backend.space w.space).revision held) {log : List Nat} :
    Risen first ⟨t.backend.put w.space w.key w.text, t.writers.set i (w.finished (.ok true)), log⟩ space key := by
  intro v₀ hv₀
  obtain ⟨v, hv, hle, hmax, hfrom⟩ := h v₀ hv₀
  obtain ⟨-, old, hold, hlt, hnew⟩ := hsound.commit hs
  have hfrom' := hfrom.imp_right (from_set hw (w.finished (.ok true)) ⟨rfl, rfl, rfl⟩)
  by_cases hk : w.space = space ∧ w.key = key
  · obtain ⟨rfl, rfl⟩ := hk
    obtain rfl : old = v := by simpa [hold] using hv
    refine ⟨w.item.version, hnew, by omega, fun u hu hus huk written hd => ?_,
      .inr ⟨_, List.mem_set (List.getElem?_eq_some_iff.mp hw).1 _, rfl, rfl, rfl⟩⟩
    rcases List.mem_or_eq_of_mem_set hu with hu | rfl
    · exact Int.le_trans (hmax u hu hus huk written hd) (Int.le_of_lt hlt)
    · exact Int.le_refl _
  · refine ⟨v, by rw [versionAt_put_of_ne _ hk, hv], hle, ?_, hfrom'⟩
    intro u hu hus huk written hd
    rcases List.mem_or_eq_of_mem_set hu with hu | rfl
    · exact hmax u hu hus huk written hd
    · exact absurd ⟨hus, huk⟩ hk

/-- An operation of a writer keeps the greatest version, or raises it to its item's. -/
theorem Risen.actOf {first : SharedMemory} {space key : String} (h : Risen first t space key) (ho : t.Orderly) {i : Nat}
    {w : Writer} (hw : t.writers[i]? = some w) : Risen first (t.actOf i w) space key := by
  obtain ⟨w', b, ha, he⟩ := t.actOf_cases i w
  rw [he]
  by_cases hm : (b.space w.space).revision = (t.backend.space w.space).revision
  · obtain ⟨rfl, -⟩ := ha.unmoved hm
    exact h.unmoved hw ha
  · obtain ⟨⟨held, hs⟩, rfl, rfl⟩ := ha.moved hm
    exact h.moved hw (ho.sound w (List.mem_of_getElem? hw)) hs

/-- A deed that writes nothing without a guard keeps the greatest version, or raises it to an item's. -/
theorem risen_step {first : SharedMemory} {space key : String} (h : Risen first t space key) (ho : t.Orderly) {d : Deed}
    (hd : d.isGuarded = true) : Risen first (t.step d) space key := by
  cases d with
  | start kind key' item hi retry =>
    intro v₀ hv₀
    obtain ⟨v, hv, hle, hmax, hfrom⟩ := h v₀ hv₀
    refine ⟨v, hv, hle, ?_, hfrom.imp_right ?_⟩
    · intro u hu hus huk written hd
      rcases List.mem_append.mp hu with hu | hu
      · exact hmax u hu hus huk written hd
      · rw [List.mem_singleton.mp hu] at hd
        cases hd
    · rintro ⟨u, hu, hrest⟩
      exact ⟨u, List.mem_append_left _ hu, hrest⟩
  | act i =>
    simp only [step]
    cases hw : t.writers[i]? with
    | none => exact h
    | some w => exact h.actOf ho hw
  | put space key text => cases hd
  | replaceAll data => cases hd
  | reach reachable => exact h

/-- Deeds that write nothing without a guard keep the greatest version, or raise it to an item's. -/
theorem risen_run {first : SharedMemory} {space key : String} (h : Risen first t space key) (ho : t.Orderly) {ds : List Deed}
    (hds : ∀ d ∈ ds, d.isGuarded = true) : Risen first (t.run ds) space key := by
  induction ds generalizing t with
  | nil => exact h
  | cons d ds ih =>
    exact ih (risen_step h ho (hds d List.mem_cons_self)) (orderly_step ho d)
      fun d' hd' => hds d' (List.mem_cons_of_mem _ hd')

/-- The version that some writes of a key lead to from a first one. -/
def greatest (v₀ : Int) (ws : List Writer) : Int := ws.foldl (fun v w => max v w.item.version) v₀

/-- The greatest version is the one that no other exceeds and that is among them. -/
theorem greatest_eq {v₀ v : Int} {ws : List Writer} (h₀ : v₀ ≤ v) (hle : ∀ w ∈ ws, w.item.version ≤ v)
    (hfrom : v = v₀ ∨ ∃ w ∈ ws, w.item.version = v) : greatest v₀ ws = v := by
  induction ws generalizing v₀ with
  | nil =>
    rcases hfrom with rfl | ⟨w, hw, -⟩
    · rfl
    · cases hw
  | cons w ws ih =>
    have hw : w.item.version ≤ v := hle w List.mem_cons_self
    have hmax : max v₀ w.item.version ≤ v := Int.max_le.mpr ⟨h₀, hw⟩
    change greatest (max v₀ w.item.version) ws = v
    refine ih hmax (fun u hu => hle u (List.mem_cons_of_mem _ hu)) ?_
    rcases hfrom with h | ⟨u, hu, huv⟩
    · exact .inl (by omega)
    · rcases List.mem_cons.mp hu with rfl | hu
      · exact .inl (by omega)
      · exact .inr ⟨u, hu, huv⟩

/-- The writes of a key. -/
def writersOf (t : Traffic) (space key : String) : List Writer :=
  t.writers.filter fun w => w.space = space ∧ w.key = key

/-- What an operation of the `i`th writer does to the traffic. -/
structure Operation (t t' : Traffic) (i : Nat) (w : Writer) : Prop where
  /-- An attempt about to commit has just read the text under the key. -/
  reads : ∀ w' revision held, t'.writers[i]? = some w' → w'.stage = .committing revision held →
    w.stage = .reading revision ∧ t.backend.text? w.space w.key = held
  /-- It leaves the backend as it is, or it is a commit that overwrites the text that this attempt read. The version
  under the key then rises to the item's, and the write has ended with success. -/
  overwrites : (t'.backend = t.backend ∧ t'.log = t.log) ∨
    ∃ revision held old, w.stage = .committing revision held ∧ t.backend.text? w.space w.key = held ∧
      t'.backend = t.backend.put w.space w.key w.text ∧ t'.log = t.log ++ [i] ∧
      t'.writers[i]? = some (w.finished (.ok true)) ∧
      t.backend.versionAt w.space w.key = .ok old ∧ old < w.item.version ∧
      t'.backend.versionAt w.space w.key = .ok w.item.version
  /-- If it ends the write without success, it was a read, and found a version that is not lower than the item's. -/
  declines : ∀ w', t'.writers[i]? = some w' → w'.stage = .done (.ok false) → w.stage ≠ .done (.ok false) →
    (∃ revision, w.stage = .reading revision) ∧
      ∃ old, t.backend.versionAt w.space w.key = .ok old ∧ w.item.version ≤ old

/-- An operation of a writer does what is listed and nothing else. -/
theorem operation_actOf (ho : t.Orderly) {i : Nat} {w : Writer} (hw : t.writers[i]? = some w) :
    t.Operation (t.actOf i w) i w := by
  obtain ⟨w', b, ha, he⟩ := t.actOf_cases i w
  rw [he]
  have hi : i < t.writers.length := (List.getElem?_eq_some_iff.mp hw).1
  refine ⟨?_, ?_, ?_⟩
  · intro w'' revision held hw'' hs
    obtain rfl : w' = w'' := Option.some.inj ((List.getElem?_set_self hi).symm.trans hw'')
    exact ha.reads hs
  · by_cases hm : (b.space w.space).revision = (t.backend.space w.space).revision
    · exact .inl ⟨(ha.unmoved hm).1, by simp [hm]⟩
    · obtain ⟨⟨held, hs⟩, rfl, rfl⟩ := ha.moved hm
      obtain ⟨ht, old, hold, hlt, hnew⟩ := (ho.sound w (List.mem_of_getElem? hw)).commit hs
      exact .inr ⟨_, held, old, hs, ht, rfl, by simp [hm], List.getElem?_set_self hi, hold, hlt, hnew⟩
  · intro w'' hw'' hd hn
    obtain rfl : w' = w'' := Option.some.inj ((List.getElem?_set_self hi).symm.trans hw'')
    obtain ⟨hr, hsup⟩ := ha.declined hd hn
    refine ⟨hr, ?_⟩
    rw [supersedes_text?] at hsup
    cases hold : t.backend.versionAt w.space w.key with
    | error e => simp [hold, Functor.map, Except.map] at hsup
    | ok old =>
      simp [hold, Functor.map, Except.map] at hsup
      exact ⟨old, rfl, hsup⟩

/-- **No lost update.** After any interleaving of deeds, each operation of a writer either leaves the backend as it is
or overwrites exactly what its attempt read, by a greater version; a write that has ended with success has written once,
and one that has ended without has not written, having read a version that is not lower. If nothing but guarded writes
has written, every text was readable at first, and all writes have ended well, then under each key is the greatest of
the first version and the versions of the key's writes. -/
theorem no_lost_update (b : SharedMemory) (ds : List Deed) :
    let t := (ofBackend b).run ds
    (∀ i w, t.writers[i]? = some w →
      t.Operation (t.step (.act i)) i w ∧
      (w.stage = .done (.ok true) → t.log.count i = 1) ∧ (w.stage = .done (.ok false) → t.log.count i = 0)) ∧
    ((∀ d ∈ ds, d.isGuarded = true) → (∀ w ∈ t.writers, ∃ written, w.stage = .done (.ok written)) →
      ∀ space key v₀, b.versionAt space key = .ok v₀ →
        t.backend.versionAt space key = .ok (greatest v₀ (t.writersOf space key))) := by
  intro t
  have ho : t.Orderly := orderly_run (orderly_ofBackend b) ds
  refine ⟨fun i w hw => ⟨?_, ho.once i w hw, fun hs => ho.never i w hw (by simp [hs])⟩, ?_⟩
  · have hstep : t.step (.act i) = t.actOf i w := by simp only [step, hw]
    rw [hstep]
    exact operation_actOf ho hw
  · intro hds hdone space key v₀ hv₀
    -- No write that has ended well has a greater version than is there, and what is there is of one of them.
    obtain ⟨v, hv, hle, hmax, hfrom⟩ := risen_run (risen_ofBackend b space key) (orderly_ofBackend b) hds v₀ hv₀
    have hgreatest : greatest v₀ (t.writersOf space key) = v := by
      refine greatest_eq hle ?_ (hfrom.imp_right ?_)
      · intro w hw
        obtain ⟨hw, hk⟩ := List.mem_filter.mp hw
        obtain ⟨hs, hk⟩ := of_decide_eq_true hk
        obtain ⟨written, hd⟩ := hdone w hw
        exact hmax w hw hs hk written hd
      · rintro ⟨w, hw, hs, hk, hv⟩
        exact ⟨w, List.mem_filter.mpr ⟨hw, by simp [hs, hk]⟩, hv⟩
    rw [hgreatest]
    exact hv

deriving instance DecidableEq for Writing

/-- A flag of a version, without any fields. -/
def bareFlag (version : Int) : Item := ⟨version, some (.obj [])⟩

theorem storable_bareFlag {version : Int} (h : Json.IsVersion version) : (bareFlag version).Storable := by
  refine ⟨h, ?_⟩
  intro v hv
  obtain rfl : .obj [] = v := Option.some.inj hv
  exact ⟨[], rfl, ⟨List.Pairwise.nil, trivial⟩, by decide⟩

/-- Three writes of one flag. The write of version 1 and the deletion at version 3 have both read that there is no flag
when the first commits; the deletion tries again, and version 2 comes too late. -/
def race : List Deed :=
  [.start .features "a" (bareFlag 1) (storable_bareFlag (by decide)) .unbounded,
    .start .features "a" (.tombstone 3) ⟨by decide, nofun⟩ .unbounded,
    .act 0, .act 1, .act 0, .act 1, .act 0, .act 1,
    .start .features "a" (bareFlag 2) (storable_bareFlag (by decide)) .unbounded,
    .act 1, .act 1, .act 1, .act 2, .act 2]

/-- All three writes end well. The two that wrote are in the log once each, the one that came too late is not, and the
flag is left at the greatest version. -/
theorem no_lost_update_race :
    let t := (ofBackend .empty).run race
    t.writers.map (·.stage) = [.done (.ok true), .done (.ok true), .done (.ok false)] ∧
      t.log.count 0 = 1 ∧ t.log.count 1 = 1 ∧ t.log.count 2 = 0 ∧ t.backend.versionAt "features" "a" = .ok 3 := by
  intro t
  have hstages : t.writers.map (·.stage) = [.done (.ok true), .done (.ok true), .done (.ok false)] := by decide +kernel
  have hguarded : ∀ d ∈ race, d.isGuarded = true := by decide +kernel
  have hended (w : Writer) (hw : w ∈ t.writers) : ∃ written, w.stage = .done (.ok written) := by
    have hmem : w.stage ∈ t.writers.map (·.stage) := List.mem_map_of_mem hw
    rw [hstages] at hmem
    simp only [List.mem_cons, List.not_mem_nil, or_false] at hmem
    obtain h | h | h := hmem <;> exact ⟨_, h⟩
  have hgreatest : greatest (-1) (t.writersOf "features" "a") = 3 := by decide +kernel
  have hstage (i : Nat) {stage : Writing} (h : (t.writers.map (·.stage))[i]? = some stage) :
      ∃ w, t.writers[i]? = some w ∧ w.stage = stage := by
    rw [List.getElem?_map] at h
    exact Option.map_eq_some_iff.mp h
  obtain ⟨hwrites, hversions⟩ := no_lost_update .empty race
  obtain ⟨first, hfirst, hwrote⟩ := hstage 0 (by rw [hstages]; rfl)
  obtain ⟨deletion, hdeletion, hdeleted⟩ := hstage 1 (by rw [hstages]; rfl)
  obtain ⟨late, hlate, hdeclined⟩ := hstage 2 (by rw [hstages]; rfl)
  refine ⟨hstages, (hwrites 0 first hfirst).2.1 hwrote, (hwrites 1 deletion hdeletion).2.1 hdeleted,
    (hwrites 2 late hlate).2.2 hdeclined, ?_⟩
  rw [← hgreatest]
  exact hversions hguarded hended "features" "a" (-1) rfl

end Traffic

end FlagDelivery
