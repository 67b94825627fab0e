import FlagDelivery.Proofs.Item.Batching
import FlagDelivery.Proofs.Store.InSync
import FlagDelivery.Proofs.Store.MemoryOnly
import FlagDelivery.Proofs.Store.Reads
import FlagDelivery.Settings

/-!
# What stays usable in a backend

A backend to which nobody else writes holds the texts of a view's items, `Attached.Holds`. An item is read back with its
version, and gives way to a newer one, exactly if there is a place in it for the version, `Item.Stampable`.
`Layered.usable_iff_stampable` says so of everything that a machine delivers.
-/

namespace FlagDelivery

namespace Guarded

variable {b : SharedMemory} (kind : Kind) (key : String) (item : Stored) (retry : Policy) (log : List (String × String))

/-- A write that nobody disturbs is decided by one attempt. -/
theorem upsert_run (hr : b.reachable = true) :
    ∃ log', (upsert kind key item).run ⟨b, retry, fun _ b => b, log⟩ =
      match b.versionAt kind.space key with
      | .error e => (.error e, ⟨b, retry, fun _ b => b, log'⟩)
      | .ok old => (.ok (decide (old < item.version)),
          ⟨if old < item.version then b.put kind.space key (item.textFor key) else b, retry, fun _ b => b, log'⟩) := by
  obtain ⟨fuel, hrun⟩ := upsert_run_attemptFrom kind key item ⟨b, retry, fun _ b => b, log⟩
  have hwatch : (Backend.watch kind.space : StoreM SharedMemory Nat).run b = (.ok (b.space kind.space).revision, b) := by
    rw [SharedMemory.watch_run, if_pos hr]
  have hget : (Backend.get? kind.space key : StoreM SharedMemory (Option String)).run b =
      (.ok (b.text? kind.space key), b) := by
    rw [SharedMemory.get?_run, if_pos hr]
  have hcommit : (Backend.commit (b.space kind.space).revision kind.space key (item.textFor key) :
      StoreM SharedMemory Bool).run b =
      (.ok true, b.put kind.space key (item.textFor key)) := by
    rw [SharedMemory.commit_run, if_pos hr, if_pos rfl]
  have hsupersedes := b.supersedes_text? kind.space key item
  refine ⟨log ++ [(kind.space, key)], ?_⟩
  rw [hrun, attemptFrom_run, attempt_run, hwatch]
  simp only [hget, hsupersedes]
  cases b.versionAt kind.space key with
  | error e => rfl
  | ok old =>
    by_cases hlt : old < item.version
    · simp [hlt, hcommit, Functor.map, Except.map]
    · simp [hlt, Functor.map, Except.map]

end Guarded

namespace Attached

/-- Where the text is that of an item that can be read back, or there is none, the answer is what is read back. -/
theorem answer_of_readable {site : Site Remote} (hr : site.store.shared.backend.reachable = true) {kind : Kind}
    {key : String} {held : Option Item}
    (ht : site.store.shared.backend.text? kind.space key = held.map fun i => i.textAt key)
    (hread : ∀ i, held = some i → i.Readable) : answer site kind key = .ok (held.map Stored.readBack) := by
  rw [answer_eq hr, ht]
  cases held with
  | none => rfl
  | some i =>
    simp only [Option.map_some, Item.textAt, Stored.ofText_textFor (hread i rfl)]
    rfl

/-- Where the text is that of an item that cannot be read back, there is no answer. -/
theorem answer_of_not_readable {site : Site Remote} (hr : site.store.shared.backend.reachable = true) {kind : Kind}
    {key : String} {item : Item} (ht : site.store.shared.backend.text? kind.space key = some (item.textAt key))
    (hw : item.WellFormed) (hn : ¬item.Readable) : ∃ e, answer site kind key = .error e := by
  obtain ⟨e, he⟩ := Stored.versionOf_of_not_readable hw hn key
  refine ⟨e, ?_⟩
  rw [answer_eq hr, ht]
  simp only [Item.textAt, Stored.ofText_of_error he]
  rfl

/-- The shared store's backend can be reached, nobody else writes to it, and it holds the texts of a view's items, all
of which are read as JSON. -/
structure Holds (site : Site Remote) (v : View) : Prop where
  reachable : site.store.shared.backend.reachable = true
  alone : site.store.shared.rival = fun _ b => b
  texts : ∀ kind, TextsOf kind v site.store.shared.backend
  writable : ∀ kind key i, v kind key = some i → i.Writable

variable {site : Site Remote} {v : View} {kind : Kind} {key : String}

/-! ## Reading -/

/-- What is held under a key tells its version exactly if there is a place for it. -/
theorem Holds.versionOf (h : Holds site v) {item : Item} (hi : v kind key = some item) :
    ∃ text, site.store.shared.backend.text? kind.space key = some text ∧
      (item.Stampable → ∃ deleted, Stored.versionOf text = .ok (item.version, deleted)) ∧
      (¬item.Stampable → ∃ e, Stored.versionOf text = .error e) := by
  have hw := h.writable kind key item hi
  refine ⟨item.textAt key, by rw [h.texts kind key, hi]; rfl, ?_, ?_⟩
  · exact fun hs => Stored.versionOf_textFor (hw.storable hs).readable key
  · exact fun hs => Stored.versionOf_of_not_readable hw.wellFormed (fun hr => hs hr.stampable) key

/-- A text tells its version exactly if its item is a tombstone or an object. -/
theorem Holds.versioned_iff (h : Holds site v) :
    site.store.shared.backend.Versioned kind key ↔ ∀ item, v kind key = some item → item.Stampable := by
  cases hi : v kind key with
  | none =>
    refine iff_of_true ?_ nofun
    intro text ht
    rw [h.texts kind key, hi] at ht
    cases ht
  | some item =>
    obtain ⟨text, ht, hok, herror⟩ := h.versionOf hi
    constructor
    · rintro hv _ ⟨⟩
      obtain ⟨told, htold⟩ := hv text ht
      by_contra hs
      obtain ⟨e, he⟩ := herror hs
      rw [htold] at he
      cases he
    · intro hs text' ht'
      obtain rfl : text = text' := Option.some.inj (ht.symm.trans ht')
      obtain ⟨deleted, hv⟩ := hok (hs item rfl)
      exact ⟨_, hv⟩

/-- All items of a kind are read exactly if there is a place for the version in each of them. -/
theorem Holds.items_iff (h : Holds site v) (kind : Kind) :
    (∃ items, ((DataStore.items kind : StoreM _ (List (String × Item))).run site).1 = .ok items) ↔
      ∀ key item, v kind key = some item → item.Stampable := by
  have hinges := hinges_items site kind
  constructor
  · rintro ⟨items, hitems⟩ key
    refine h.versioned_iff.mp ?_
    by_contra hv
    obtain ⟨e, he⟩ := hinges.error fun hp => hv (hp.2 key)
    rw [he] at hitems
    cases hitems
  · intro hs
    obtain ⟨items, hitems⟩ := hinges.ok ⟨h.reachable, fun key => h.versioned_iff.mpr (hs key)⟩
    exact ⟨items, by rw [hitems]⟩

/-- An item is read with its version exactly if there is a place for it. -/
theorem Holds.find?_iff (h : Holds site v) {item : Item} (hi : v kind key = some item) :
    (∃ found, ((DataStore.find? kind key : StoreM _ (Option Item)).run site).1 = .ok (some found) ∧
      found.version = item.version) ↔ item.Stampable := by
  obtain ⟨text, ht, hok, herror⟩ := h.versionOf hi
  constructor
  · rintro ⟨found, hfound, -⟩
    by_contra hs
    obtain ⟨e, he⟩ := herror hs
    rw [find?_run, if_pos h.reachable] at hfound
    simp only [ht, Stored.ofText_of_error he] at hfound
    cases hfound
  · intro hs
    obtain ⟨deleted, hv⟩ := hok hs
    obtain ⟨found, hversion, hfound⟩ := find?_of_versionOf h.reachable ht hv
    exact ⟨found, by rw [hfound], hversion⟩

/-! ## Writing -/

/-- What a write does to a backend that can be reached and to which nobody else writes. -/
theorem upsert_run (hr : site.store.shared.backend.reachable = true) (ha : site.store.shared.rival = fun _ b => b)
    (kind : Kind) (key : String) (item : Item) :
    ∃ log, (upsert kind key item).run site =
      match site.store.shared.backend.versionAt kind.space key with
      | .error e => (.error e, lost (site.mapStore fun a => { a with shared := { a.shared with attempts := log } }))
      | .ok old => (.ok (decide (old < item.version)), site.mapStore fun a => { a with shared := { a.shared with
          backend := if old < item.version then a.shared.backend.put kind.space key (item.textAt key) else a.shared.backend
          attempts := log } }) := by
  obtain ⟨⟨⟨b, retry, rival, log⟩, recovery, polling, filled⟩, board⟩ := site
  obtain rfl : rival = fun _ b => b := ha
  have hshared : (SharedStore.upsert kind key (.ofItem item) : StoreM (Guarded SharedMemory) Bool) =
      Guarded.upsert kind key (.ofItem item) := rfl
  obtain ⟨log', hrun⟩ := Guarded.upsert_run kind key (.ofItem item) retry log hr
  refine ⟨log', ?_⟩
  rw [upsert, observe_run, hshared, hrun, Stored.version_ofItem]
  simp only [Site.mapStore]
  cases b.versionAt kind.space key <;> rfl

/-- A write over an item with a place for its version, or over nothing, is decided by the versions. -/
theorem Holds.upsert_ok (h : Holds site v) (hs : ∀ i, v kind key = some i → i.Stampable) (item : Item) :
    ∃ site', (Attached.upsert kind key item).run site = (.ok (decide (v.versionAt kind key < item.version)), site') ∧
      (item.Writable → Holds site' (v.offered kind key item)) := by
  obtain ⟨hr, ha, htexts, hwritable⟩ := h
  have hversion := (htexts kind).versionAt fun i hi => (hwritable kind key i hi).storable (hs i hi)
  obtain ⟨log, hrun⟩ := upsert_run hr ha kind key item
  rw [hversion] at hrun
  refine ⟨_, hrun, ?_⟩
  intro hi
  by_cases hlt : v.versionAt kind key < item.version
  · simp only [if_pos hlt]
    refine ⟨hr, ha, fun kind' => (htexts kind').put hlt, ?_⟩
    intro kind' key' i hv
    rw [View.offered_of_lt hlt] at hv
    split at hv
    · exact Option.some.inj hv ▸ hi
    · exact hwritable kind' key' i hv
  · simp only [if_neg hlt]
    rw [View.offered_of_le (Int.not_lt.mp hlt)]
    exact ⟨hr, ha, htexts, hwritable⟩

/-- A write over an item without a place for its version fails. -/
theorem Holds.upsert_error (h : Holds site v) {old : Item} (hold : v kind key = some old) (hs : ¬old.Stampable)
    (item : Item) :
    ∃ e site', (Attached.upsert kind key item).run site = (.error e, site') := by
  obtain ⟨text, ht, -, herror⟩ := h.versionOf hold
  obtain ⟨e, he⟩ := herror hs
  have hversion : site.store.shared.backend.versionAt kind.space key = .error e := by
    simp [SharedMemory.versionAt, ht, he, Functor.map, Except.map]
  obtain ⟨log, hrun⟩ := upsert_run h.reachable h.alone kind key item
  rw [hversion] at hrun
  exact ⟨e, _, hrun⟩

/-- A newer item is written exactly if there is a place for the version in the one held. -/
theorem Holds.upsert_iff (h : Holds site v) {old : Item} (hold : v kind key = some old) {item : Item}
    (hlt : old.version < item.version) : ((Attached.upsert kind key item).run site).1 = .ok true ↔ old.Stampable := by
  constructor
  · intro hok
    by_contra hs
    obtain ⟨e, site', he⟩ := h.upsert_error hold hs item
    rw [he] at hok
    cases hok
  · intro hs
    have hversion : v.versionAt kind key = old.version := by rw [View.versionAt, hold]; rfl
    obtain ⟨site', hrun, -⟩ := h.upsert_ok (fun i hi => Option.some.inj (hold.symm.trans hi) ▸ hs) item
    rw [hrun, hversion, decide_eq_true hlt]

/-- Items that were written one after the other without a failure were offered to the view. -/
theorem Holds.upsertAll {es : List (Kind × String × Item)} (h : Holds site v) (hes : ∀ e ∈ es, e.2.2.Writable)
    (hok : ((Attached.upsertAll es).run site).1 = .ok ()) :
    Holds ((Attached.upsertAll es).run site).2 (v.offeredAll es) := by
  induction es generalizing site v with
  | nil => exact h
  | cons e es ih =>
    obtain ⟨kind, key, item⟩ := e
    by_cases hs : ∀ i, v kind key = some i → i.Stampable
    · obtain ⟨site', hupsert, hholds⟩ := h.upsert_ok hs item
      rw [upsertAll_cons_run, hupsert] at hok ⊢
      exact ih (hholds (hes _ List.mem_cons_self)) (fun e he => hes e (List.mem_cons_of_mem _ he)) hok
    · obtain ⟨i, hi⟩ := Classical.not_forall.mp hs
      obtain ⟨hi, hn⟩ := Classical.not_imp.mp hi
      obtain ⟨e, site', he⟩ := h.upsert_error hi hn item
      rw [upsertAll_cons_run, he] at hok
      cases hok

/-- Writing items one after the other does not fail if there is a place for the version in each of them and in what is
held. -/
theorem Holds.upsertAll_ok {es : List (Kind × String × Item)} (h : Holds site v)
    (hv : ∀ kind key i, v kind key = some i → i.Stampable) (hes : ∀ e ∈ es, e.2.2.Writable ∧ e.2.2.Stampable) :
    ((Attached.upsertAll es).run site).1 = .ok () := by
  induction es generalizing site v with
  | nil => rfl
  | cons e es ih =>
    obtain ⟨kind, key, item⟩ := e
    obtain ⟨hwritable, hstampable⟩ := hes _ List.mem_cons_self
    obtain ⟨site', hupsert, hholds⟩ := h.upsert_ok (hv kind key) item
    rw [upsertAll_cons_run, hupsert]
    refine ih (hholds hwritable) ?_ fun e he => hes e (List.mem_cons_of_mem _ he)
    intro kind' key' i hi
    unfold View.offered at hi
    split at hi
    · exact Option.some.inj hi ▸ hstampable
    · exact hv kind' key' i hi

/-- Replacing all data does not fail. -/
theorem fill_run_of_reachable (hr : site.store.shared.backend.reachable = true) (data : Groups Item) (persist : Bool) :
    (fill (stored ⟨data, persist⟩)).run site = (.ok (), ⟨{ site.store with
      shared := { site.store.shared with backend := site.store.shared.backend.replacing data.storedTexts }, filled := true },
      (Board.refreshed site.board).2⟩) := by
  obtain ⟨a, board⟩ := site
  have hinit : (SharedStore.init (stored ⟨data, persist⟩) : StoreM (Guarded SharedMemory) Unit).run a.shared =
      (.ok (), { a.shared with backend := a.shared.backend.replacing data.storedTexts }) := by
    simp only [SharedStore.init, Guarded.onBackend, StoreM.part_run, SharedMemory.replaceAll_run, if_pos hr]
    rfl
  rw [fill_run, hinit]

/-- After a batch that did not fail the backend holds the texts of what memory holds. -/
theorem Holds.apply {m : Memory} (h : Holds site m.find?) {b : Batch} (hb : ∀ e ∈ b.data.entries, e.2.2.Writable)
    (hl : b.extent = .full → ∀ kind, b.data.lists kind = true) (hok : ((Attached.apply b).run site).1 = .ok ()) :
    Holds ((Attached.apply b).run site).2 (m.apply b).find? := by
  cases he : b.extent with
  | full =>
    have hview : (m.apply b).find? = Memory.viewOf (Memory.replace m.tables b.data) := by
      rw [Memory.apply, he]
      rfl
    rw [apply_run, he]
    simp only [fill_run_of_reachable h.reachable]
    refine ⟨?_, h.alone, ?_, ?_⟩
    · exact (SharedMemory.reachable_replacing _ _).trans h.reachable
    · intro kind
      rw [hview]
      exact textsOf_replacing (.inl (hl he kind))
    · intro kind key i hi
      exact (Memory.mem_of_find?_apply hi).elim (hb _) (h.writable kind key i)
  | incremental =>
    rw [apply_run, he] at hok ⊢
    rw [Memory.find?_apply_incremental m he]
    exact h.upsertAll hb hok
  | none =>
    rw [apply_run, he, Memory.find?_apply_none m he]
    exact h

/-- A batch does not fail if there is a place for the version in each of its items and in what is held. -/
theorem Holds.apply_ok {m : Memory} (h : Holds site m.find?)
    (hm : ∀ kind key i, m.find? kind key = some i → i.Stampable) {b : Batch}
    (hb : ∀ e ∈ b.data.entries, e.2.2.Writable ∧ e.2.2.Stampable) : ((Attached.apply b).run site).1 = .ok () := by
  rw [apply_run]
  cases b.extent with
  | full => simp only [fill_run_of_reachable h.reachable]
  | incremental => exact h.upsertAll_ok hm hb
  | none => rfl

end Attached

namespace Layered

open Attached (Holds)

/-! ## What a machine delivers -/

/-- The store that settings call for over an empty backend that may be written to. -/
def overEmpty (s : Settings) : Site Backed :=
  ({ s with mode := .readWrite } : Settings).stores (some SharedMemory.empty)

/-- What is applied to the store over an empty backend is applied to memory and written to the backend. -/
theorem apply_overEmpty (s : Settings) {b : Batch} (hb : b.persist = true) :
    ∃ first : Site Remote, Holds first Memory.empty.find? ∧
      let out := (DataStore.apply b : StoreM (Site Backed) Unit).run (overEmpty s)
      out.1 = ((Attached.apply b).run first).1 ∧ out.2.store.memory = Memory.empty.apply b ∧
        out.2.store.beneath = some ((Attached.apply b).run first).2.store ∧
        out.2.board = ((Attached.apply b).run first).2.board := by
  refine ⟨⟨.ofShared (.ofBackend .empty s.storeRetry) s.storeRecovery, .initial true⟩, ⟨rfl, rfl, ?_, ?_⟩, ?_⟩
  · intro kind key
    rw [Memory.find?_empty]
    rfl
  · intro kind key i hi
    rw [Memory.find?_empty] at hi
    cases hi
  · have hw : (appliedToMemory b (overEmpty s)).store.writable b.persist =
        some (.ofShared (.ofBackend .empty s.storeRetry) s.storeRecovery) := by
      rw [hb]
      rfl
    rw [apply_run, hw]
    exact ⟨rfl, rfl, rfl, rfl⟩

/-- **What stays usable.** The messages' bodies were read from texts, and a change set that a machine delivered for them
is applied to a store over an empty backend.
1. If every item that was put is an object the store accepts.
2. If the store accepts, all items of a kind are read from the backend exactly if each that memory holds is an object or
   a tombstone; and an item that memory holds is read back with its version, and gives way to a newer one, exactly if it
   is one of these itself. -/
theorem usable_iff_stampable (s : Settings) {msgs : List Message} (hr : ∀ msg ∈ msgs, msg.WasRead) {c : ChangeSet}
    (hc : c ∈ Machine.initial.delivered msgs) (environment : Option String) :
    let out := (DataStore.apply (.ofChangeSet c environment true) :
      StoreM (Site Backed) Unit).run (overEmpty s)
    ((∀ change ∈ c.changes, ∀ object, change.object = some object → ∃ fs, object = .obj fs) → out.1 = .ok ()) ∧
    (out.1 = .ok () → ∃ a, out.2.store.beneath = some a ∧
      let held := out.2.store.memory.find?
      let site : Site Remote := ⟨a, out.2.board⟩
      (∀ kind, (∃ items, ((DataStore.items kind : StoreM _ (List (String × Item))).run site).1 = .ok items) ↔
        ∀ key item, held kind key = some item → item.Stampable) ∧
      ∀ kind key item, held kind key = some item →
        ((∃ found, ((DataStore.find? kind key : StoreM _ (Option Item)).run site).1 = .ok (some found) ∧
          found.version = item.version) ↔ item.Stampable) ∧
        ∀ newer : Item, item.version < newer.version →
          (((DataStore.upsert kind key newer : StoreM _ Bool).run site).1 = .ok true ↔ item.Stampable)) := by
  intro out
  have hwritable := fun e => Batch.writable_of_delivered hr hc environment true (e := e)
  obtain ⟨first, hfirst, hanswer, hmemory, hbeneath, hboard⟩ :=
    apply_overEmpty s (b := .ofChangeSet c environment true) rfl
  refine ⟨?_, ?_⟩
  · intro hobjects
    refine hanswer.trans (hfirst.apply_ok (fun kind key i hi => nomatch (Memory.find?_empty kind key).symm.trans hi) ?_)
    intro e he
    refine ⟨hwritable e he, ?_⟩
    obtain ⟨change, hchange, hentry⟩ := Batch.mem_ofChangeSet c environment true he
    intro v hv
    exact hobjects change hchange v ((Change.of_entry? hentry).2 v hv)
  · intro hok
    -- After a write that is accepted the backend holds the texts of what memory holds.
    have hholds := hfirst.apply hwritable (fun hf => Batch.lists_ofChangeSet c environment true hf) (hanswer.symm.trans hok)
    refine ⟨_, hbeneath, ?_⟩
    intro held site
    have hsite : site = ((Attached.apply (.ofChangeSet c environment true)).run first).2 := congrArg (Site.mk _) hboard
    have hheld : held = (Memory.empty.apply (.ofChangeSet c environment true)).find? := congrArg Memory.find? hmemory
    rw [← hsite, ← hheld] at hholds
    refine ⟨hholds.items_iff, ?_⟩
    intro kind key item hi
    exact ⟨hholds.find?_iff hi, fun newer hlt => hholds.upsert_iff hi hlt⟩

/-! ### A flag that is an object, and one that is not -/

/-- The messages of all data, which is one flag. -/
def flagMessages (object : Json) : List Message :=
  [⟨"server-intent",
    .obj [("payloads", .arr [.obj [("id", .str "p"), ("intentCode", .str "xfer-full"), ("target", .int 1)]])]⟩,
    ⟨"put-object", .obj [("key", .str "a"), ("kind", .str "flag"), ("object", object), ("version", .int 1)]⟩,
    ⟨"payload-transferred", .obj [("state", .str "s"), ("version", .int 1)]⟩]

/-- The change set that is delivered for them. -/
def flagChanges (object : Json) : ChangeSet := ⟨.full, [⟨.put, "flag", "a", 1, some object⟩], .point 1 "s"⟩

theorem delivered_flagMessages : flagChanges (.obj []) ∈ Machine.initial.delivered (flagMessages (.obj [])) :=
  List.mem_singleton.mpr rfl

theorem wasRead_flagMessages : ∀ msg ∈ flagMessages (.obj []), msg.WasRead := by
  intro msg hmsg
  simp only [flagMessages, List.mem_cons, List.not_mem_nil, or_false] at hmsg
  rcases hmsg with rfl | rfl | rfl
  · exact ⟨"\x7b\"payloads\":[\x7b\"id\":\"p\",\"intentCode\":\"xfer-full\",\"target\":1\x7d]\x7d", by decide +kernel⟩
  · exact ⟨"\x7b\"key\":\"a\",\"kind\":\"flag\",\"object\":\x7b\x7d,\"version\":1\x7d", by decide +kernel⟩
  · exact ⟨"\x7b\"state\":\"s\",\"version\":1\x7d", by decide +kernel⟩

/-- A flag that is an object is accepted, and gives way to a newer one in the backend. -/
theorem usable_object :
    let out := (DataStore.apply (.ofChangeSet (flagChanges (.obj [])) none true) :
      StoreM (Site Backed) Unit).run (overEmpty .default)
    out.1 = .ok () ∧ ∃ a, out.2.store.beneath = some a ∧
      ((DataStore.upsert .features "a" (.tombstone 2) : StoreM (Site Remote) Bool).run ⟨a, out.2.board⟩).1 =
        .ok true := by
  obtain ⟨haccepts, huses⟩ := usable_iff_stampable .default wasRead_flagMessages delivered_flagMessages none
  have hok := haccepts (by simp [flagChanges])
  obtain ⟨a, ha, -, hheld⟩ := huses hok
  refine ⟨hok, a, ha, ?_⟩
  have hflag := hheld .features "a" ⟨1, some (.obj [])⟩ rfl
  refine (hflag.2 (.tombstone 2) (by decide)).mpr ?_
  rintro _ ⟨⟩
  exact ⟨[], rfl⟩

/-- A flag that is a truth value is accepted, and after that no flag can be read from the backend. -/
theorem unusable_bool : flagChanges (.bool true) ∈ Machine.initial.delivered (flagMessages (.bool true)) ∧
    let out := (DataStore.apply (.ofChangeSet (flagChanges (.bool true)) none true) :
      StoreM (Site Backed) Unit).run (overEmpty .default)
    out.1 = .ok () ∧ ∃ a, out.2.store.beneath = some a ∧
      ((DataStore.items .features : StoreM (Site Remote) (List (String × Item))).run ⟨a, out.2.board⟩).1 =
        .error (.noVersion "true") :=
  ⟨List.mem_singleton.mpr rfl, rfl, _, rfl, rfl⟩

end Layered

end FlagDelivery
