import FlagDelivery.Proofs.Store.Attached
import FlagDelivery.Proofs.Store.Backend
import FlagDelivery.Store.Guarded
import FlagDelivery.Store.Layered

/-!
# Reading what a backend holds

Reads of an attached store over a backend in memory. A read succeeds and changes nothing if the backend can be reached
and every text that is read tells its version, `SharedMemory.Versioned`. Otherwise it fails, and the site is
`Attached.lost`: of the store nothing has changed but that a round of checks is under way, and the failure is posted.
-/

namespace FlagDelivery

/-- A store attached to a backend in memory. -/
abbrev Remote := Attached (Guarded SharedMemory)

/-- Memory over such a store. -/
abbrev Backed := Layered Remote

namespace StoreM

variable {σ α β : Type} {p q : Prop} {s s' : σ}

/-- An operation succeeds and changes nothing if a condition holds. Otherwise it fails and leads to another state. -/
structure Hinges (p : Prop) (op : StoreM σ α) (s s' : σ) : Prop where
  ok : p → ∃ a, op.run s = (.ok a, s)
  error : ¬p → ∃ e, op.run s = (.error e, s')

theorem hinges_pure (a : α) : Hinges True (pure a) s s' := ⟨fun _ => ⟨a, rfl⟩, fun h => absurd trivial h⟩

/-- An operation hinges on whatever is equivalent to what it hinges on. -/
theorem Hinges.congr {op : StoreM σ α} (h : Hinges p op s s') (hpq : p ↔ q) : Hinges q op s s' :=
  ⟨fun hq => h.ok (hpq.mpr hq), fun hq => h.error fun hp => hq (hpq.mp hp)⟩

/-- Of two operations in a row both have to succeed. -/
theorem Hinges.bind {x : StoreM σ α} {f : α → StoreM σ β} (hx : Hinges p x s s') (hf : ∀ a, Hinges q (f a) s s') :
    Hinges (p ∧ q) (x >>= f) s s' := by
  by_cases hp : p
  · obtain ⟨a, ha⟩ := hx.ok hp
    constructor
    · intro h
      rw [bind_run_ok ha]
      exact (hf a).ok h.2
    · intro h
      rw [bind_run_ok ha]
      exact (hf a).error fun hq => h ⟨hp, hq⟩
  · obtain ⟨e, he⟩ := hx.error hp
    exact ⟨fun h => absurd h.1 hp, fun _ => ⟨e, by rw [bind_run, he]⟩⟩

end StoreM

namespace SharedMemory

/-- The text under a key, if there is one, tells its version. -/
def Versioned (b : SharedMemory) (kind : Kind) (key : String) : Prop :=
  ∀ text, b.text? kind.space key = some text → ∃ told, Stored.versionOf text = .ok told

/-- A key has no version exactly if a text is there that tells none. -/
theorem not_versioned_iff {b : SharedMemory} {kind : Kind} {key : String} :
    ¬b.Versioned kind key ↔ ∃ text e, b.text? kind.space key = some text ∧ Stored.versionOf text = .error e := by
  constructor
  · intro h
    obtain ⟨text, ht⟩ := Classical.not_forall.mp h
    obtain ⟨ht, hv⟩ := Classical.not_imp.mp ht
    cases ho : Stored.versionOf text with
    | ok told => exact absurd ⟨told, ho⟩ hv
    | error e => exact ⟨text, e, ht, ho⟩
  · rintro ⟨text, e, ht, he⟩ h
    obtain ⟨told, hv⟩ := h text ht
    rw [he] at hv
    cases hv

/-- All texts of a space are told in order. -/
theorem all_run (name : String) (b : SharedMemory) :
    (Backend.all name : StoreM SharedMemory (List (String × String))).run b =
      if b.reachable then (.ok (b.space name).texts.toList, b) else (.error offline, b) :=
  whenReachable_run _ b

end SharedMemory

namespace Stored

/-- A text that tells a version is read as an item of that version. -/
theorem toItem_of_versionOf {text : String} {version : Int} {deleted : Bool} (h : versionOf text = .ok (version, deleted)) :
    ∃ s item, ofText text = .ok s ∧ s.toItem = .ok item ∧ item.version = version := by
  refine ⟨⟨version, deleted, some text⟩, ?_⟩
  have hs : ofText text = .ok ⟨version, deleted, some text⟩ := by
    rw [ofText, h]
    rfl
  unfold versionOf at h
  cases hp : Json.parse? text with
  | none => simp [hp] at h
  | some content =>
    refine ⟨if deleted || saysDeleted content then .tombstone version else ⟨version, some content⟩, hs, ?_, ?_⟩
    · cases deleted <;> simp [toItem, hp]
    · split <;> rfl

/-- A text that tells no version cannot be read. -/
theorem ofText_of_error {text : String} {e : StoreError} (h : versionOf text = .error e) : ofText text = .error e := by
  rw [ofText, h]
  rfl

end Stored

namespace Guarded

/-- Texts that all tell their versions are read, and read as items. -/
theorem readAll_ok {es : List (String × String)} (h : ∀ e ∈ es, ∃ told, Stored.versionOf e.2 = .ok told) :
    ∃ ss items, readAll es = .ok ss ∧ Attached.toItems ss = .ok items := by
  induction es with
  | nil => exact ⟨[], [], rfl, rfl⟩
  | cons e es ih =>
    obtain ⟨key, text⟩ := e
    obtain ⟨⟨version, deleted⟩, hv⟩ := h _ List.mem_cons_self
    obtain ⟨s, item, hs, hi, -⟩ := Stored.toItem_of_versionOf hv
    obtain ⟨ss, items, hss, his⟩ := ih fun e he => h e (List.mem_cons_of_mem _ he)
    refine ⟨(key, s) :: ss, (key, item) :: items, ?_, ?_⟩
    · rw [readAll, hs, hss]
      rfl
    · rw [Attached.toItems, hi, his]
      rfl

/-- One text that does not tell its version keeps all of them from being read. -/
theorem readAll_error {es : List (String × String)} {e : String × String} {err : StoreError} (he : e ∈ es)
    (h : Stored.versionOf e.2 = .error err) : ∃ err, readAll es = .error err := by
  induction es with
  | nil => cases he
  | cons first es ih =>
    rw [readAll]
    cases hf : Stored.ofText first.2 with
    | error err => exact ⟨err, rfl⟩
    | ok s =>
      have hmem : e ∈ es := by
        rcases List.mem_cons.mp he with rfl | hmem
        · rw [Stored.ofText_of_error h] at hf
          cases hf
        · exact hmem
      obtain ⟨err, herr⟩ := ih hmem
      rw [herr]
      exact ⟨err, rfl⟩

variable (s : Guarded SharedMemory) (kind : Kind) (key : String)

/-- An item is read from the text under its key; a text that cannot be read is an error. -/
theorem find?_run : (SharedStore.find? kind key : StoreM (Guarded SharedMemory) (Option Stored)).run s =
    if s.backend.reachable then
      (match s.backend.text? kind.space key with
        | some text => (Stored.ofText text).map some
        | none => .ok none, s)
    else (.error SharedMemory.offline, s) := by
  by_cases hr : s.backend.reachable
  · cases ht : s.backend.text? kind.space key with
    | none => simp [SharedStore.find?, StoreM.bind_run, onBackend, SharedMemory.get?_run, hr, ht]
    | some text =>
      cases ho : Stored.ofText text <;>
        simp [SharedStore.find?, StoreM.bind_run, onBackend, SharedMemory.get?_run, hr, ht, ho, StoreM.map_run, Except.map]
  · simp [SharedStore.find?, StoreM.bind_run, onBackend, SharedMemory.get?_run, hr]

/-- All items of a kind are read from the texts of its space; one that cannot be read makes the read fail. -/
theorem items_run : (SharedStore.items kind : StoreM (Guarded SharedMemory) (List (String × Stored))).run s =
    if s.backend.reachable then (readAll (s.backend.space kind.space).texts.toList, s)
    else (.error SharedMemory.offline, s) := by
  by_cases hr : s.backend.reachable <;>
    simp [SharedStore.items, StoreM.bind_run, onBackend, SharedMemory.all_run, hr]

end Guarded

namespace Attached

/-- The site once a read has failed. -/
def lost {π : Type} (site : Site (Attached π)) : Site (Attached π) :=
  ⟨{ site.store with polling := true }, site.board.marked⟩

variable {site : Site Remote} {kind : Kind} {key : String}

theorem find?_run (site : Site Remote) (kind : Kind) (key : String) :
    (DataStore.find? kind key : StoreM (Site Remote) (Option Item)).run site =
      if site.store.shared.backend.reachable then
        match site.store.shared.backend.text? kind.space key with
        | none => (.ok none, site)
        | some text => match Stored.ofText text with
          | .error e => (.error e, lost site)
          | .ok s => (s.toItem.map some, site)
      else (.error SharedMemory.offline, lost site) := by
  obtain ⟨a, board⟩ := site
  by_cases hr : a.shared.backend.reachable
  · cases ht : a.shared.backend.text? kind.space key with
    | none => simp [DataStore.find?, StoreM.bind_run, observe_run, Guarded.find?_run, hr, ht]
    | some text =>
      cases ho : Stored.ofText text with
      | error e => simp [DataStore.find?, StoreM.bind_run, observe_run, Guarded.find?_run, hr, ht, ho, lost, Except.map]
      | ok s =>
        simp [DataStore.find?, StoreM.bind_run, observe_run, Guarded.find?_run, hr, ht, ho, StoreM.map_run, Except.map]
  · simp [DataStore.find?, StoreM.bind_run, observe_run, Guarded.find?_run, hr, lost]

/-- What a store answers that is asked for an item. -/
def answer (site : Site Remote) (kind : Kind) (key : String) : Except StoreError (Option Item) :=
  ((DataStore.find? kind key : StoreM _ (Option Item)).run site).1

/-- The answer is read off the text, if the backend can be reached. -/
theorem answer_eq (hr : site.store.shared.backend.reachable = true) (kind : Kind) (key : String) :
    answer site kind key = match site.store.shared.backend.text? kind.space key with
      | none => .ok none
      | some text => ((Stored.ofText text).bind Stored.toItem).map some := by
  rw [answer, find?_run, if_pos hr]
  cases site.store.shared.backend.text? kind.space key with
  | none => rfl
  | some text =>
    simp only
    cases Stored.ofText text <;> rfl

/-- An item is found under a key if its text tells the version. -/
theorem find?_of_versionOf {site : Site Remote} (hr : site.store.shared.backend.reachable = true)
    {kind : Kind} {key text : String} (ht : site.store.shared.backend.text? kind.space key = some text) {version : Int}
    {deleted : Bool} (hv : Stored.versionOf text = .ok (version, deleted)) :
    ∃ item, item.version = version ∧
      (DataStore.find? kind key : StoreM (Site Remote) (Option Item)).run site = (.ok (some item), site) := by
  obtain ⟨s, item, hs, hi, rfl⟩ := Stored.toItem_of_versionOf hv
  exact ⟨item, rfl, by simp [find?_run, hr, ht, hs, hi, Except.map]⟩

/-- Looking up an item succeeds exactly if the backend can be reached and the text under the key tells its version. -/
theorem hinges_find? (site : Site Remote) (kind : Kind) (key : String) :
    StoreM.Hinges (site.store.shared.backend.reachable = true ∧ site.store.shared.backend.Versioned kind key)
      (DataStore.find? kind key : StoreM (Site Remote) (Option Item)) site (lost site) := by
  refine ⟨?_, ?_⟩
  · rintro ⟨hr, hv⟩
    cases ht : site.store.shared.backend.text? kind.space key with
    | none => exact ⟨none, by simp [find?_run, hr, ht]⟩
    | some text =>
      obtain ⟨⟨version, deleted⟩, hv⟩ := hv text ht
      obtain ⟨item, -, hi⟩ := find?_of_versionOf hr ht hv
      exact ⟨some item, hi⟩
  · intro h
    by_cases hr : site.store.shared.backend.reachable = true
    · obtain ⟨text, e, ht, he⟩ := SharedMemory.not_versioned_iff.mp fun hv => h ⟨hr, hv⟩
      exact ⟨e, by simp [find?_run, hr, ht, Stored.ofText_of_error he]⟩
    · exact ⟨_, by simp only [find?_run, hr]; rfl⟩

theorem items_run (site : Site Remote) (kind : Kind) :
    (DataStore.items kind : StoreM (Site Remote) (List (String × Item))).run site =
      if site.store.shared.backend.reachable then
        match Guarded.readAll (site.store.shared.backend.space kind.space).texts.toList with
        | .error e => (.error e, lost site)
        | .ok ss => (toItems ss, site)
      else (.error SharedMemory.offline, lost site) := by
  obtain ⟨a, board⟩ := site
  by_cases hr : a.shared.backend.reachable
  · cases hs : Guarded.readAll (a.shared.backend.space kind.space).texts.toList <;>
      simp [DataStore.items, StoreM.bind_run, observe_run, Guarded.items_run, hr, hs, lost]
  · simp [DataStore.items, StoreM.bind_run, observe_run, Guarded.items_run, hr, lost]

/-- Reading all items of a kind succeeds exactly if the backend can be reached and each text of the kind tells its
version. -/
theorem hinges_items (site : Site Remote) (kind : Kind) :
    StoreM.Hinges (site.store.shared.backend.reachable = true ∧ ∀ key, site.store.shared.backend.Versioned kind key)
      (DataStore.items kind : StoreM (Site Remote) (List (String × Item))) site (lost site) := by
  have hmem (e : String × String) : e ∈ (site.store.shared.backend.space kind.space).texts.toList ↔
      site.store.shared.backend.text? kind.space e.1 = some e.2 := Std.TreeMap.mem_toList_iff_getElem?_eq_some
  refine ⟨?_, ?_⟩
  · rintro ⟨hr, hv⟩
    obtain ⟨ss, items, hss, his⟩ := Guarded.readAll_ok fun e he => hv e.1 e.2 ((hmem e).mp he)
    exact ⟨items, by simp [items_run, hr, hss, his]⟩
  · intro h
    by_cases hr : site.store.shared.backend.reachable = true
    · obtain ⟨key, hkey⟩ := Classical.not_forall.mp fun hv => h ⟨hr, hv⟩
      obtain ⟨text, e, ht, he⟩ := SharedMemory.not_versioned_iff.mp hkey
      obtain ⟨err, herr⟩ := Guarded.readAll_error ((hmem (key, text)).mpr ht) he
      exact ⟨err, by simp [items_run, hr, herr]⟩
    · exact ⟨_, by simp only [items_run, hr]; rfl⟩

end Attached

end FlagDelivery
