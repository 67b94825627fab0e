import FlagDelivery.Proofs.Store.Usable
import FlagDelivery.Store.Disturbed

/-!
# Contested writes

A guarded write is attempted again if somebody else wrote to its space between its watch and its commit. A `Contest` is
a write with all that others write to the backend before each of its operations. It is decided in the first attempt that
finds a version as high as its own or meets no write of others, and until then it leaves no trace: `Contest.outcome`.
-/

namespace FlagDelivery

/-- What somebody else writes to a backend. A guarded write of another client takes effect all at once, when it
commits. -/
inductive RivalWrite where
  | put (space key text : String)
  | upsert (retry : Policy) (kind : Kind) (key : String) (item : Stored)
  | replaceAll (data : List (String × List (String × String)))

namespace RivalWrite

/-- What another client's guarded write does by itself. -/
def upserted (b : SharedMemory) (retry : Policy) (kind : Kind) (key : String) (item : Stored) :
    Except StoreError Bool × Guarded SharedMemory :=
  (Guarded.upsert kind key item).run (.ofBackend b retry)

/-- The backend after the write. -/
def act (b : SharedMemory) : RivalWrite → SharedMemory
  | put space key text => b.put space key text
  | upsert retry kind key item => (upserted b retry kind key item).2.backend
  | replaceAll data => ((Backend.replaceAll data : StoreM SharedMemory Unit).run b).2

/-- Something is written to the space. A guarded write answers whether it wrote. -/
def Touches (b : SharedMemory) (space : String) : RivalWrite → Prop
  | put space' _ _ => space' = space
  | upsert retry kind key item => kind.space = space ∧ (upserted b retry kind key item).1 = .ok true
  | replaceAll data => ∃ texts, (space, texts) ∈ data

/-- The texts to be written. -/
def texts : RivalWrite → List String
  | put _ _ text => [text]
  | upsert _ _ key item => [item.textFor key]
  | replaceAll data => data.flatMap fun (_, entries) => entries.map Prod.snd

variable {b : SharedMemory} {space key text : String}

/-- A guarded write puts its text and says so, or it changes nothing. -/
theorem upserted_cases (hr : b.reachable = true) (retry : Policy) (kind : Kind) (key : String) (item : Stored) :
    (upserted b retry kind key item).1 = .ok true ∧
        (upserted b retry kind key item).2.backend = b.put kind.space key (item.textFor key) ∨
      (upserted b retry kind key item).1 ≠ .ok true ∧ (upserted b retry kind key item).2.backend = b := by
  obtain ⟨log, hrun⟩ := Guarded.upsert_run kind key item retry [] hr
  rw [upserted, Guarded.ofBackend, hrun]
  cases b.versionAt kind.space key with
  | error e => exact .inr ⟨nofun, rfl⟩
  | ok old =>
    by_cases hlt : old < item.version
    · exact .inl ⟨by simp [hlt], if_pos hlt⟩
    · exact .inr ⟨by simp [hlt], if_neg hlt⟩

theorem act_replaceAll (hr : b.reachable = true) (data : List (String × List (String × String))) :
    act b (replaceAll data) = b.replacing data := by
  rw [act, SharedMemory.replaceAll_run, if_pos hr]

/-- No write cuts a backend off. -/
theorem reachable_act (hr : b.reachable = true) (w : RivalWrite) : (w.act b).reachable = true := by
  cases w with
  | put space key text => exact hr
  | upsert retry kind key item =>
    rcases upserted_cases hr retry kind key item with ⟨-, h⟩ | ⟨-, h⟩ <;> exact (congrArg SharedMemory.reachable h).trans hr
  | replaceAll data => rw [act_replaceAll hr, SharedMemory.reachable_replacing, hr]

/-- Replaced spaces move on, and the others stay where they are. -/
theorem replacing_moves (data : List (String × List (String × String))) (b : SharedMemory) (space : String) :
    (∃ texts, (space, texts) ∈ data) ↔ (b.space space).revision < ((b.replacing data).space space).revision := by
  induction data generalizing b with
  | nil =>
    refine iff_of_false ?_ (Nat.lt_irrefl _)
    rintro ⟨texts, htexts⟩
    cases htexts
  | cons group data ih =>
    obtain ⟨name, texts⟩ := group
    have hon := (SharedMemory.onward_replacing data (b.replace name texts)).revision_le space
    rw [SharedMemory.replacing_cons]
    by_cases hname : name = space
    · subst hname
      have hstep : ((b.replace name texts).space name).revision = (b.space name).revision + 1 := by
        rw [SharedMemory.space_replace, if_pos rfl]
      exact iff_of_true ⟨texts, List.mem_cons_self⟩ (by omega)
    · have hstep : (b.replace name texts).space space = b.space space := by
        rw [SharedMemory.space_replace, if_neg hname]
      rw [← hstep, ← ih]
      simp [Ne.symm hname]

/-- A space is touched by a write that moves it on to another revision. -/
theorem touches_iff (hr : b.reachable = true) (w : RivalWrite) :
    w.Touches b space ↔ (b.space space).revision < ((w.act b).space space).revision := by
  have hput (name key text : String) :
      name = space ↔ (b.space space).revision < ((b.put name key text).space space).revision := by
    rw [SharedMemory.space_put]
    by_cases h : name = space <;> simp [h]
  cases w with
  | put name key text => exact hput name key text
  | upsert retry kind key item =>
    rcases upserted_cases hr retry kind key item with ⟨ht, h⟩ | ⟨hf, h⟩
    · rw [act, h, ← hput]
      exact and_iff_left ht
    · rw [act, h]
      exact iff_of_false (fun htouch => hf htouch.2) (Nat.lt_irrefl _)
  | replaceAll data =>
    rw [act_replaceAll hr]
    exact replacing_moves data b space

/-- A rival's write only moves spaces on. -/
theorem onward_act (hr : b.reachable = true) (w : RivalWrite) : b.Onward (w.act b) := by
  cases w with
  | put name key text => exact SharedMemory.onward_put b name key text
  | upsert retry kind key item =>
    rcases upserted_cases hr retry kind key item with ⟨-, h⟩ | ⟨-, h⟩
    · rw [act, h]
      exact SharedMemory.onward_put b _ _ _
    · rw [act, h]
      exact SharedMemory.Onward.refl b
  | replaceAll data =>
    rw [act_replaceAll hr]
    exact SharedMemory.onward_replacing data b

/-- A text that is there after a write was there before or was written. -/
theorem text?_act (hr : b.reachable = true) (w : RivalWrite) (h : (w.act b).text? space key = some text) :
    b.text? space key = some text ∨ text ∈ w.texts := by
  have hput {name key' text' : String} (h : (b.put name key' text').text? space key = some text) :
      b.text? space key = some text ∨ text ∈ [text'] := by
    rw [SharedMemory.text?_put] at h
    split at h
    · exact .inr (List.mem_singleton.mpr (Option.some.inj h).symm)
    · exact .inl h
  cases w with
  | put name key' text' => exact hput h
  | upsert retry kind key' item =>
    rcases upserted_cases hr retry kind key' item with ⟨-, ha⟩ | ⟨-, ha⟩
    · rw [act, ha] at h
      exact hput h
    · rw [act, ha] at h
      exact .inl h
  | replaceAll data =>
    rw [act_replaceAll hr] at h
    clear hr hput
    induction data generalizing b with
    | nil => exact .inl h
    | cons group data ih =>
      obtain ⟨name, entries⟩ := group
      rcases ih h with hb | hmem
      · rw [SharedMemory.text?, SharedMemory.space_replace] at hb
        split at hb
        · refine .inr (List.mem_append_left _ (List.mem_map.mpr ⟨(key, text), ?_, rfl⟩))
          exact Table.mem_of_getElem?_ofEntries hb
        · exact .inl hb
      · exact .inr (List.mem_append_right _ hmem)

/-! ## Writes one after the other -/

/-- The backend after some writes. -/
def actAll (b : SharedMemory) (ws : List RivalWrite) : SharedMemory := ws.foldl act b

/-- One of the writes writes to the space. -/
def Touched (space : String) : SharedMemory → List RivalWrite → Prop
  | _, [] => False
  | b, w :: ws => w.Touches b space ∨ Touched space (w.act b) ws

theorem actAll_append (b : SharedMemory) (ws ws' : List RivalWrite) : actAll b (ws ++ ws') = actAll (actAll b ws) ws' :=
  List.foldl_append ..

variable {ws : List RivalWrite}

theorem reachable_actAll (hr : b.reachable = true) : (actAll b ws).reachable = true := by
  induction ws generalizing b with
  | nil => exact hr
  | cons w ws ih => exact ih (reachable_act hr w)

theorem onward_actAll (hr : b.reachable = true) (ws : List RivalWrite) : b.Onward (actAll b ws) := by
  induction ws generalizing b with
  | nil => exact SharedMemory.Onward.refl b
  | cons w ws ih => exact (onward_act hr w).trans (ih (reachable_act hr w))

/-- A space is touched by writes that leave it at another revision. -/
theorem touched_iff (hr : b.reachable = true) :
    Touched space b ws ↔ (b.space space).revision < ((actAll b ws).space space).revision := by
  induction ws generalizing b with
  | nil => exact iff_of_false id (Nat.lt_irrefl _)
  | cons w ws ih =>
    have hfirst := (onward_act hr w).revision_le space
    have hrest := (onward_actAll (reachable_act hr w) ws).revision_le space
    rw [Touched, touches_iff hr w, ih (reachable_act hr w)]
    change _ ↔ (b.space space).revision < ((actAll (w.act b) ws).space space).revision
    omega

/-- A text that is there after rivals wrote was there before, or is one of theirs. -/
theorem text?_actAll (hr : b.reachable = true) (h : (actAll b ws).text? space key = some text) :
    b.text? space key = some text ∨ ∃ w ∈ ws, text ∈ w.texts := by
  induction ws generalizing b with
  | nil => exact .inl h
  | cons w ws ih =>
    rcases ih (reachable_act hr w) h with hb | ⟨later, hlater, hmem⟩
    · exact (text?_act hr w hb).imp_right fun hmem => ⟨w, List.mem_cons_self, hmem⟩
    · exact .inr ⟨later, List.mem_cons_of_mem _ hlater, hmem⟩

end RivalWrite

namespace SharedMemory

/-- From one moment to another one text was put, and its space moved on by one revision. -/
structure Gained (before after : SharedMemory) (space key text : String) : Prop where
  texts : ∀ space' key',
    after.text? space' key' = if space = space' ∧ key = key' then some text else before.text? space' key'
  revisions : ∀ name, (after.space name).revision = (before.space name).revision + if space = name then 1 else 0
  marked : after.marked = before.marked
  reachable : after.reachable = before.reachable

/-- With a text that is put its space has gained this text. -/
theorem gained_put (b : SharedMemory) (space key text : String) : b.Gained (b.put space key text) space key text := by
  refine ⟨fun space' key' => text?_put b space key text space' key', ?_, rfl, rfl⟩
  intro name
  rw [space_put]
  by_cases h : space = name <;> simp [h]

end SharedMemory

/-- A guarded write of an item, and what others write to the backend before each of its operations. The backend can be
reached, it tells the version under the item's key, and so does every text that others write. -/
structure Contest where
  backend : SharedMemory
  kind : Kind
  key : String
  item : Stored
  rivals : Nat → List RivalWrite
  reachable : backend.reachable = true
  versioned : backend.Versioned kind key
  legible : ∀ n, ∀ w ∈ rivals n, ∀ text ∈ w.texts, ∃ told, Stored.versionOf text = .ok told

namespace Contest

open RivalWrite (actAll Touched)

variable (c : Contest)

/-- The backend after what others write before the first operations. -/
def upTo : Nat → SharedMemory
  | 0 => c.backend
  | n + 1 => actAll (upTo n) (c.rivals n)

/-- How much others write before the first operations. -/
def rivalsUpTo : Nat → Nat
  | 0 => 0
  | n + 1 => rivalsUpTo n + (c.rivals n).length

/-! An attempt is three operations: it watches the space, reads the text and commits. -/

/-- The version that an attempt reads is that of the item or a higher one. -/
def Stale (k : Nat) : Prop := ∃ old, (c.upTo (3 * k + 2)).versionAt c.kind.space c.key = .ok old ∧ c.item.version ≤ old

/-- Between the watch and the commit of an attempt others write to the item's space. -/
def Met (k : Nat) : Prop := Touched c.kind.space (c.upTo (3 * k + 1)) (c.rivals (3 * k + 1) ++ c.rivals (3 * k + 2))

/-- The write ends with an attempt. -/
def Decides (k : Nat) : Prop := c.Stale k ∨ ¬c.Met k

/-- The backend with what others write to it, once the write has made some operations and written nothing. -/
abbrev contested (n : Nat) : Disturbed SharedMemory := ⟨c.upTo n, n, fun n b => actAll b (c.rivals n)⟩

/-- The write under a policy. -/
def run (retry : Policy) : Except StoreError Bool × Guarded (Disturbed SharedMemory) :=
  (Guarded.upsert c.kind c.key c.item).run (.ofBackend (c.contested 0) retry)

/-! ## One attempt -/

/-- The backend can be reached all the time. -/
theorem reachable_upTo (n : Nat) : (c.upTo n).reachable = true := by
  induction n with
  | zero => exact c.reachable
  | succ n ih => exact RivalWrite.reachable_actAll ih

/-- The version under the item's key can always be read. -/
theorem versioned_upTo (n : Nat) : (c.upTo n).Versioned c.kind c.key := by
  induction n with
  | zero => exact c.versioned
  | succ n ih =>
    intro text htext
    rcases RivalWrite.text?_actAll (c.reachable_upTo n) htext with h | ⟨w, hw, hmem⟩
    · exact ih text h
    · exact c.legible n w hw text hmem

/-- A version is told under the item's key all the time. -/
theorem exists_versionAt (n : Nat) : ∃ old, (c.upTo n).versionAt c.kind.space c.key = .ok old := by
  unfold SharedMemory.versionAt
  cases ht : (c.upTo n).text? c.kind.space c.key with
  | none => exact ⟨-1, rfl⟩
  | some text =>
    obtain ⟨told, htold⟩ := c.versioned_upTo n text ht
    exact ⟨told.1, by simp [htold, Functor.map, Except.map]⟩

/-- Others write to the space between watch and commit if that finds it at another revision. -/
theorem met_iff (k : Nat) : c.Met k ↔
    ((c.upTo (3 * k + 3)).space c.kind.space).revision ≠ ((c.upTo (3 * k + 1)).space c.kind.space).revision := by
  have hr := c.reachable_upTo (3 * k + 1)
  have hle := (RivalWrite.onward_actAll hr (c.rivals (3 * k + 1) ++ c.rivals (3 * k + 2))).revision_le c.kind.space
  have hupTo : c.upTo (3 * k + 3) = actAll (c.upTo (3 * k + 1)) (c.rivals (3 * k + 1) ++ c.rivals (3 * k + 2)) :=
    (RivalWrite.actAll_append _ _ _).symm
  rw [Met, RivalWrite.touched_iff hr, hupTo]
  omega

variable (n : Nat)

/-- An operation is made on the backend with what others write before it. -/
theorem disturb_contested {α : Type} (op : StoreM SharedMemory α) : (Disturbed.disturb op).run (c.contested n) =
    ((op.run (c.upTo (n + 1))).1, { c.contested (n + 1) with backend := (op.run (c.upTo (n + 1))).2 }) := rfl

/-- A watch tells the revision once the rivals before it wrote. -/
theorem watch_contested (space : String) : (Backend.watch space : StoreM (Disturbed SharedMemory) Nat).run (c.contested n) =
    (.ok ((c.upTo (n + 1)).space space).revision, c.contested (n + 1)) := by
  change (Disturbed.disturb (Backend.watch space)).run _ = _
  rw [disturb_contested, SharedMemory.watch_run, if_pos (c.reachable_upTo _)]

/-- A look-up tells the text once the rivals before it wrote. -/
theorem get?_contested (space key : String) :
    (Backend.get? space key : StoreM (Disturbed SharedMemory) (Option String)).run (c.contested n) =
      (.ok ((c.upTo (n + 1)).text? space key), c.contested (n + 1)) := by
  change (Disturbed.disturb (Backend.get? space key)).run _ = _
  rw [disturb_contested, SharedMemory.get?_run, if_pos (c.reachable_upTo _)]

/-- A commit succeeds if the rivals before it left the space at the revision that was watched. -/
theorem commit_contested (revision : Nat) (space key text : String) :
    (Backend.commit revision space key text : StoreM (Disturbed SharedMemory) Bool).run (c.contested n) =
      if ((c.upTo (n + 1)).space space).revision = revision then
        (.ok true, { c.contested (n + 1) with backend := (c.upTo (n + 1)).put space key text })
      else (.ok false, c.contested (n + 1)) := by
  change (Disturbed.disturb (Backend.commit revision space key text)).run _ = _
  rw [disturb_contested, SharedMemory.commit_run, if_pos (c.reachable_upTo _)]
  split <;> rfl

variable (retry : Policy)

/-- The write after some attempts that met other writes. -/
abbrev after (k : Nat) : Guarded (Disturbed SharedMemory) :=
  ⟨c.contested (3 * k), retry, fun _ b => b, List.replicate k (c.kind.space, c.key)⟩

/-- The store that a write leaves behind with an attempt. -/
abbrev done (k : Nat) (backend : Disturbed SharedMemory) : Guarded (Disturbed SharedMemory) :=
  ⟨backend, retry, fun _ b => b, List.replicate (k + 1) (c.kind.space, c.key)⟩

/-- An attempt reads a version, and commits if that is lower. -/
theorem attempt_contested {k : Nat} {old : Int} (hold : (c.upTo (3 * k + 2)).versionAt c.kind.space c.key = .ok old) :
    (Guarded.attempt c.kind.space c.key c.item).run (c.after retry k) =
      if old < c.item.version then
        if ((c.upTo (3 * k + 3)).space c.kind.space).revision = ((c.upTo (3 * k + 1)).space c.kind.space).revision then
          (.ok (some true), c.done retry k
            { c.contested (3 * k + 3) with backend := (c.upTo (3 * k + 3)).put c.kind.space c.key (c.item.textFor c.key) })
        else (.ok none, c.after retry (k + 1))
      else (.ok (some false), c.done retry k (c.contested (3 * k + 2))) := by
  rw [Guarded.attempt_run, watch_contested]
  simp only [get?_contested, SharedMemory.supersedes_text?, hold, Functor.map, Except.map, ← List.replicate_succ']
  by_cases hlt : old < c.item.version
  · rw [decide_eq_true hlt, if_pos hlt]
    simp only [commit_contested]
    by_cases hsame : ((c.upTo (3 * k + 3)).space c.kind.space).revision = ((c.upTo (3 * k + 1)).space c.kind.space).revision
    · rw [if_pos hsame, if_pos hsame]
      rfl
    · rw [if_neg hsame, if_neg hsame]
      rfl
  · rw [decide_eq_false hlt, if_neg hlt]

/-- An attempt that is not stale reads a lower version. -/
theorem exists_lt_of_not_stale {k : Nat} (h : ¬c.Stale k) :
    ∃ old, (c.upTo (3 * k + 2)).versionAt c.kind.space c.key = .ok old ∧ old < c.item.version := by
  obtain ⟨old, hold⟩ := c.exists_versionAt (3 * k + 2)
  exact ⟨old, hold, Int.not_le.mp fun hle => h ⟨old, hold, hle⟩⟩

/-- An attempt that reads a version as high as the item's ends the write, and nothing is written by it. -/
theorem attempt_of_stale {k : Nat} (h : c.Stale k) : (Guarded.attempt c.kind.space c.key c.item).run (c.after retry k) =
    (.ok (some false), c.done retry k (c.contested (3 * k + 2))) := by
  obtain ⟨old, hold, hle⟩ := h
  rw [attempt_contested c retry hold, if_neg (Int.not_lt.mpr hle)]

/-- An attempt that meets nobody and reads a lower version writes the item. -/
theorem attempt_of_alone {k : Nat} (hs : ¬c.Stale k) (hm : ¬c.Met k) :
    (Guarded.attempt c.kind.space c.key c.item).run (c.after retry k) =
      (.ok (some true), c.done retry k
        { c.contested (3 * k + 3) with backend := (c.upTo (3 * k + 3)).put c.kind.space c.key (c.item.textFor c.key) }) := by
  obtain ⟨old, hold, hlt⟩ := c.exists_lt_of_not_stale hs
  rw [attempt_contested c retry hold, if_pos hlt, if_pos (not_ne_iff.mp fun hne => hm ((c.met_iff k).mpr hne))]

/-- An attempt that decides nothing leaves the write to the next one. -/
theorem attempt_of_not_decides {k : Nat} (h : ¬c.Decides k) :
    (Guarded.attempt c.kind.space c.key c.item).run (c.after retry k) = (.ok none, c.after retry (k + 1)) := by
  obtain ⟨hs, hm⟩ := not_or.mp h
  obtain ⟨old, hold, hlt⟩ := c.exists_lt_of_not_stale hs
  rw [attempt_contested c retry hold, if_pos hlt, if_neg ((c.met_iff k).mp (not_not.mp hm))]

/-! ## One attempt after the other -/

variable {retry}

/-- Below the limit another attempt is allowed. -/
theorem allows_of_lt {made : Nat} (h : made < Guarded.attemptLimit retry) (hpos : 0 < made) : retry.allows made = true := by
  unfold Guarded.attemptLimit at h
  unfold Policy.allows
  cases hmax : retry.maxAttempts with
  | none => rfl
  | some n =>
    rw [hmax] at h
    simp only at h ⊢
    exact decide_eq_true (by omega)

/-- Attempts that decide nothing leave the write to the next. -/
theorem run_eq {k : Nat} (hk : k < Guarded.attemptLimit retry) (hn : ∀ j < k, ¬c.Decides j) : c.run retry =
    (Guarded.attemptFrom c.kind.space c.key c.item (Guarded.attemptLimit retry - (k + 1) + 1) k).run (c.after retry k) := by
  induction k with
  | zero =>
    have hfuel : Guarded.attemptLimit retry - (0 + 1) + 1 = Guarded.attemptLimit retry := by omega
    rw [run, Guarded.upsert, StoreM.bind_run_ok (StoreM.get_run _), hfuel]
    rfl
  | succ k ih =>
    have hfuel : Guarded.attemptLimit retry - (k + 1 + 1) + 1 = Guarded.attemptLimit retry - (k + 1) := by omega
    rw [ih (Nat.lt_of_succ_lt hk) fun j hj => hn j (Nat.lt_succ_of_lt hj), hfuel, Guarded.attemptFrom_run,
      c.attempt_of_not_decides retry (hn k (Nat.lt_succ_self k))]
    exact if_pos (allows_of_lt hk k.succ_pos)

/-- How a write ends with an attempt that decides it. If the attempt found a version as high as the item's, nothing was
written but by others, and else the item's text was. -/
structure EndsAt (k : Nat) (out : Except StoreError Bool × Guarded (Disturbed SharedMemory)) : Prop where
  attempts : out.2.attempts.length = k + 1
  stale : c.Stale k → out.1 = .ok false ∧ out.2.backend.backend = c.upTo (3 * k + 2)
  fresh : ¬c.Stale k → out.1 = .ok true ∧
    (c.upTo (3 * k + 3)).Gained out.2.backend.backend c.kind.space c.key (c.item.textFor c.key)

/-- The first attempt that decides ends the write. -/
theorem endsAt {k : Nat} (hk : k < Guarded.attemptLimit retry) (hn : ∀ j < k, ¬c.Decides j) (hd : c.Decides k) :
    c.EndsAt k (c.run retry) := by
  rw [c.run_eq hk hn, Guarded.attemptFrom_run]
  by_cases hs : c.Stale k
  · rw [c.attempt_of_stale retry hs]
    exact ⟨List.length_replicate, fun _ => ⟨rfl, rfl⟩, fun hfresh => absurd hs hfresh⟩
  · rw [c.attempt_of_alone retry hs (hd.resolve_left hs)]
    exact ⟨List.length_replicate, fun hstale => absurd hstale hs, fun _ => ⟨rfl, SharedMemory.gained_put _ _ _ _⟩⟩

/-- Every attempt that decides nothing has met a write of others. -/
theorem le_rivalsUpTo {k : Nat} (hn : ∀ j < k, ¬c.Decides j) : k ≤ c.rivalsUpTo (3 * k) := by
  induction k with
  | zero => exact Nat.zero_le _
  | succ k ih =>
    have hmet : c.Met k := not_not.mp (not_or.mp (hn k (Nat.lt_succ_self k))).2
    have hsome : 0 < (c.rivals (3 * k + 1) ++ c.rivals (3 * k + 2)).length := by
      refine List.length_pos_of_ne_nil fun hnil => ?_
      rw [Met, hnil] at hmet
      exact hmet
    have hstep : c.rivalsUpTo (3 * (k + 1)) =
        c.rivalsUpTo (3 * k) + (c.rivals (3 * k)).length + (c.rivals (3 * k + 1)).length +
          (c.rivals (3 * k + 2)).length := rfl
    have hle := ih fun j hj => hn j (Nat.lt_succ_of_lt hj)
    rw [List.length_append] at hsome
    omega

/-- A guarded write ends with the first attempt that reads a version as high as the item's, answering that it did not
write, or that meets no write of others in the item's space, and then it has written.

1. Under a policy of `n` attempts it does so if such an attempt is among the first `max n 1`.
2. If none of them is one, it makes that many, the error says how many, and nothing was written but by others.
3. Under a policy without a bound it gets an answer if others write fewer than `2 ^ 32` times. -/
theorem outcome (retry : Policy) :
    let out := c.run retry
    (∀ n, retry.maxAttempts = some n →
      (∀ k < max n 1, (∀ j < k, ¬c.Decides j) → c.Decides k → c.EndsAt k out) ∧
      ((∀ k < max n 1, ¬c.Decides k) → out.1 = .error (.conflicts c.kind.space c.key (max n 1)) ∧
        out.2.attempts.length = max n 1 ∧ out.2.backend.backend = c.upTo (3 * max n 1))) ∧
    (retry.maxAttempts = none → (∀ n, c.rivalsUpTo n < 2 ^ 32) →
      (∃ written, out.1 = .ok written) ∧ ∃ k, (∀ j < k, ¬c.Decides j) ∧ c.Decides k ∧ c.EndsAt k out) := by
  classical
  intro out
  refine ⟨?_, ?_⟩
  · intro n hmax
    have hlimit : Guarded.attemptLimit retry = max n 1 := by rw [Guarded.attemptLimit, hmax]
    refine ⟨fun k hk => c.endsAt (hlimit ▸ hk), ?_⟩
    intro hn
    obtain ⟨last, hlast⟩ := Nat.exists_eq_succ_of_ne_zero (Nat.ne_of_gt (lt_max_of_lt_right one_pos : 0 < max n 1))
    have hrun : out = (.error (.conflicts c.kind.space c.key (max n 1)), c.after retry (max n 1)) := by
      have hallows : retry.allows (last + 1) = false := by
        rw [Policy.allows, hmax]
        exact decide_eq_false (by omega)
      rw [hlast]
      change c.run retry = _
      rw [c.run_eq (k := last) (by omega) fun j hj => hn j (by omega), Guarded.attemptFrom_run,
        c.attempt_of_not_decides retry (hn last (by omega))]
      simp [hallows]
    rw [hrun]
    exact ⟨rfl, List.length_replicate, rfl⟩
  · intro hmax hfew
    have hlimit : Guarded.attemptLimit retry = 2 ^ 32 := by
      rw [Guarded.attemptLimit, hmax]
      rfl
    -- Each attempt that decides nothing met a rival of its own, and there are fewer rivals than attempts.
    have hsome : ∃ k, c.Decides k := by
      by_contra hnone
      have hle := c.le_rivalsUpTo (k := 2 ^ 32) fun j _ hd => hnone ⟨j, hd⟩
      exact absurd (hfew (3 * 2 ^ 32)) (Nat.not_lt.mpr hle)
    obtain ⟨k, hd, hn⟩ : ∃ k, c.Decides k ∧ ∀ j < k, ¬c.Decides j :=
      ⟨Nat.find hsome, Nat.find_spec hsome, fun j => Nat.find_min hsome⟩
    have hk : k < Guarded.attemptLimit retry := by
      rw [hlimit]
      exact Nat.lt_of_le_of_lt (c.le_rivalsUpTo hn) (hfew _)
    have hends : c.EndsAt k out := c.endsAt hk hn hd
    refine ⟨?_, k, hn, hd, hends⟩
    by_cases hs : c.Stale k
    · exact ⟨false, (hends.stale hs).1⟩
    · exact ⟨true, (hends.fresh hs).1⟩

/-- A tombstone is written for the first time, and somebody else puts another one in the same space during the first
attempt. -/
def disturbedOnce : Contest where
  backend := .empty
  kind := .features
  key := "a"
  item := .ofItem (.tombstone 1)
  rivals n := if n = 1 then [.put "features" "b" ((Stored.ofItem (.tombstone 1)).textFor "b")] else []
  reachable := rfl
  versioned := nofun
  legible n w hw text htext := by
    split at hw
    · obtain rfl := List.mem_singleton.mp hw
      obtain rfl := List.mem_singleton.mp htext
      have hread : (Item.tombstone 1).Readable := ⟨by decide, nofun⟩
      obtain ⟨deleted, htold⟩ := Stored.versionOf_textFor hread "b"
      exact ⟨_, htold⟩
    · cases hw

/-- The first attempt meets the other write, so it fails if it is the only one, and the second one writes. -/
theorem outcome_disturbedOnce :
    (disturbedOnce.run (.attempts 0)).1 = .error (.conflicts "features" "a" 1) ∧
      (disturbedOnce.run (.attempts 2)).1 = .ok true := by
  have hread (k : Nat) (hv : (disturbedOnce.upTo (3 * k + 2)).versionAt "features" "a" = .ok (-1)) :
      ¬disturbedOnce.Stale k := by
    rintro ⟨old, hold, hle⟩
    obtain rfl : -1 = old := Except.ok.inj (hv.symm.trans hold)
    exact absurd hle (by decide)
  have hfirst : ¬disturbedOnce.Decides 0 := not_or.mpr ⟨hread 0 rfl, not_not.mpr (.inl rfl)⟩
  constructor
  · refine (((disturbedOnce.outcome (.attempts 0)).1 0 rfl).2 ?_).1
    intro k hk
    obtain rfl : k = 0 := by omega
    exact hfirst
  · refine ((((disturbedOnce.outcome (.attempts 2)).1 2 rfl).1 1 (by decide) ?_ (.inr id)).fresh (hread 1 rfl)).1
    intro j hj
    obtain rfl : j = 0 := by omega
    exact hfirst

end Contest

end FlagDelivery
