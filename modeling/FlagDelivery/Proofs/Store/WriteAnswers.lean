import FlagDelivery.Proofs.Store.Outages
import FlagDelivery.Proofs.Store.Usable

/-!
# What the answer to a write says

A layered store writes an item to memory and, if it is newer there, through to the backend beneath, which has a gate of
its own. The answer is that of both gates together. `Layered.upsert_cases` lists all that a write can come to while the
backend can be reached, and `Layered.upsert_answer` says what the answer tells: an item that memory refuses changes
nothing, but one that only the backend refuses stays in memory, although the answer is the same.
-/

namespace FlagDelivery

namespace Layered

section

variable {μ : Type} [DataStore μ]

/-- An item is written through if memory takes it and the store beneath may be written to. -/
theorem upsert_run (kind : Kind) (key : String) (item : Item) (site : Site (Layered μ)) :
    (DataStore.upsert kind key item : StoreM (Site (Layered μ)) Bool).run site =
      if (site.store.memory.upsert kind key item).1 then
        match site.store.writable true with
        | some a =>
          onBeneath a (DataStore.upsert kind key item : StoreM (Site μ) Bool).run (upsertMemory kind key item site).2
        | none => (.ok true, (upsertMemory kind key item site).2)
      else (.ok false, (upsertMemory kind key item site).2) := by
  have hwritten : (upsertMemory kind key item site).1 = (site.store.memory.upsert kind key item).1 := rfl
  have hwritable : (upsertMemory kind key item site).2.store.writable true = site.store.writable true := rfl
  change (upsert kind key item).run site = _
  simp only [upsert, StoreM.mk_run, StoreM.bind_apply, StoreM.get_apply, hwritable, hwritten]
  cases site.store.writable true <;> cases (site.store.memory.upsert kind key item).1 <;> rfl

omit [DataStore μ] in
/-- An item that memory refuses changes nothing. -/
theorem upsertMemory_of_refused {kind : Kind} {key : String} {item : Item} {site : Site (Layered μ)}
    (h : (site.store.memory.upsert kind key item).1 = false) : (upsertMemory kind key item site).2 = site := by
  have hsame : (site.store.memory.upsert kind key item).2 = site.store.memory := by
    unfold Memory.upsert at h ⊢
    split at h
    · next hheld => rw [if_pos hheld]
    · cases h
  have hsite : (upsertMemory kind key item site).2 =
      site.mapStore fun s => { s with memory := (site.store.memory.upsert kind key item).2 } := rfl
  rw [hsite, hsame]
  rfl

end

/-! ## All that a write can come to -/

/-- Memory holds the item's version or a higher one. -/
def Stale (s : Backed) (kind : Kind) (key : String) (item : Item) : Prop :=
  ∃ old, s.memory.find? kind key = some old ∧ item.version ≤ old.version

variable {site : Site Backed} {a : Remote} {kind : Kind} {key : String} {item : Item}

/-- Memory refuses exactly the items that are stale. -/
theorem refused_iff : (site.store.memory.upsert kind key item).1 = false ↔ site.store.Stale kind key item := by
  rw [← Bool.not_eq_true, Memory.upsert_fst_iff]
  simp [Stale]

/-- The site with another memory and another store beneath. -/
def renewed (m : Memory) (a : Remote) (site : Site Backed) : Site Backed :=
  site.mapStore fun s => { s with memory := m, beneath := some a }

/-- The memory once it has taken an item. -/
abbrev taken (site : Site Backed) (kind : Kind) (key : String) (item : Item) : Memory :=
  (site.store.memory.upsert kind key item).2

/-- All that a write of an item can come to over a backend that can be reached. -/
inductive Upserted (site : Site Backed) (a : Remote) (kind : Kind) (key : String) (item : Item) :
    Except StoreError Bool × Site Backed → Prop where
  /-- Memory refuses the item. -/
  | stale : site.store.Stale kind key item → Upserted site a kind key item (.ok false, site)
  /-- Memory takes the item, and the backend may not be written to. -/
  | kept : ¬site.store.Stale kind key item → site.store.mode = .readOnly →
      Upserted site a kind key item (.ok true, renewed (taken site kind key item) a site)
  /-- Memory takes the item, and the backend refuses it. -/
  | outdone (old : Int) (log : List (String × String)) : ¬site.store.Stale kind key item → site.store.mode = .readWrite →
      a.shared.backend.versionAt kind.space key = .ok old → item.version ≤ old →
      Upserted site a kind key item
        (.ok false, renewed (taken site kind key item) { a with shared := { a.shared with attempts := log } } site)
  /-- Memory and backend take the item. -/
  | written (old : Int) (log : List (String × String)) : ¬site.store.Stale kind key item → site.store.mode = .readWrite →
      a.shared.backend.versionAt kind.space key = .ok old → old < item.version →
      Upserted site a kind key item (.ok true, renewed (taken site kind key item) { a with shared := { a.shared with
        backend := a.shared.backend.put kind.space key (item.textAt key), attempts := log } } site)
  /-- What the backend holds tells no version. -/
  | failed (e : StoreError) (site' : Site Backed) : ¬site.store.Stale kind key item → site.store.mode = .readWrite →
      a.shared.backend.versionAt kind.space key = .error e → Upserted site a kind key item (.error e, site')

/-- A write of one item ends in one of the ways listed. -/
theorem upsert_cases (hb : site.store.beneath = some a) (hr : a.shared.backend.reachable = true)
    (ha : a.shared.rival = fun _ b => b) (kind : Kind) (key : String) (item : Item) :
    Upserted site a kind key item ((DataStore.upsert kind key item : StoreM (Site Backed) Bool).run site) := by
  rw [upsert_run]
  -- Memory is asked first: the backend gets nothing that memory has refused.
  cases hw : (site.store.memory.upsert kind key item).1 with
  | false =>
    simp only [upsertMemory_of_refused hw]
    exact .stale (refused_iff.mp hw)
  | true =>
    have hfresh : ¬site.store.Stale kind key item := by
      rw [← refused_iff, hw]
      decide
    cases hm : site.store.mode with
    | readOnly =>
      have hclosed : site.store.writable true = none := by simp [writable, hm]
      have hsite : (upsertMemory kind key item site).2 = renewed (taken site kind key item) a site := by
        simp [upsertMemory, renewed, taken, Site.mapStore, hb]
      simp only [hclosed, hsite]
      exact .kept hfresh hm
    | readWrite =>
      have hopen : site.store.writable true = some a := by simp [writable, hm, hb]
      have hreach : (⟨a, site.board⟩ : Site Remote).store.shared.backend.reachable = true := hr
      obtain ⟨log, hrun⟩ := Attached.upsert_run hreach ha kind key item
      have hbeneath : onBeneath a (DataStore.upsert kind key item : StoreM (Site Remote) Bool).run
          (upsertMemory kind key item site).2 =
          let out := (Attached.upsert kind key item).run (⟨a, site.board⟩ : Site Remote)
          (out.1, { renewed (taken site kind key item) out.2.store site with board := out.2.board }) := rfl
      simp only [hopen, if_true, hbeneath, hrun]
      cases hv : a.shared.backend.versionAt kind.space key with
      | error e => exact .failed e _ hfresh hm hv
      | ok old =>
        by_cases hlt : old < item.version
        · simp only [hlt, decide_true, if_true]
          exact .written old log hfresh hm hv hlt
        · simp only [hlt, decide_false, if_false]
          exact .outdone old log hfresh hm hv (Int.not_lt.mp hlt)

/-! ## Reads -/

/-- What the store answers that is asked for an item. -/
def got (site : Site Backed) (kind : Kind) (key : String) : Except StoreError (Option Item) :=
  ((DataStore.find? kind key : StoreM (Site Backed) (Option Item)).run site).1

/-- Once reads come from memory, they answer what memory holds. -/
theorem got_of_reads (site : Site Backed) (h : site.store.readsFromMemory = true) (kind : Kind) (key : String) :
    got site kind key = .ok (site.store.memory.find? kind key) := by
  have hsource : site.store.source = none := if_pos h
  rw [got, find?_of_none hsource]

/-- Before that they answer what the store beneath holds. -/
theorem got_of_beneath (site : Site Backed) (h : site.store.readsFromMemory = false) (hb : site.store.beneath = some a)
    (kind : Kind) (key : String) : got site kind key = Attached.answer ⟨a, site.board⟩ kind key := by
  have hsource : site.store.source = some a := by simp [source, h, hb]
  have hread : (DataStore.find? kind key : StoreM (Site Backed) (Option Item)) =
      read (·.find? kind key) (DataStore.find? kind key) := rfl
  rw [got, hread]
  simp only [read, StoreM.mk_run, StoreM.bind_apply, StoreM.get_apply, hsource]
  rfl

/-! ## What the answer tells -/

/-- The backend may be written to and holds the item's version or a higher one; a missing item counts as one of version
`-1`. -/
def Outdone (s : Backed) (a : Remote) (kind : Kind) (key : String) (item : Item) : Prop :=
  s.mode = .readWrite ∧ ∃ old, a.shared.backend.versionAt kind.space key = .ok old ∧ item.version ≤ old

/-- Memory takes the item, and so does the backend, if it may be written to. -/
def Accepted (s : Backed) (a : Remote) (kind : Kind) (key : String) (item : Item) : Prop :=
  ¬s.Stale kind key item ∧
    (s.mode = .readWrite → ∃ old, a.shared.backend.versionAt kind.space key = .ok old ∧ old < item.version)

variable {out : Except StoreError Bool × Site Backed}

/-- An item that memory refuses is answered with a no, and nothing happens. -/
theorem Upserted.of_stale (h : Upserted site a kind key item out) (hs : site.store.Stale kind key item) :
    out = (.ok false, site) := by
  cases h with
  | stale _ => rfl
  | kept hn _ => exact absurd hs hn
  | outdone _ _ hn _ _ _ => exact absurd hs hn
  | written _ _ hn _ _ _ => exact absurd hs hn
  | failed _ _ hn _ _ => exact absurd hs hn

/-- The answer is a no exactly if one of the gates is closed. -/
theorem Upserted.fst_eq_false_iff (h : Upserted site a kind key item out) :
    out.1 = .ok false ↔ site.store.Stale kind key item ∨ site.store.Outdone a kind key item := by
  cases h with
  | stale hs => exact iff_of_true rfl (.inl hs)
  | kept hn hm =>
    refine iff_of_false nofun ?_
    rintro (hs | ⟨hm', -⟩)
    · exact hn hs
    · exact nomatch hm.symm.trans hm'
  | outdone old log _ hm hv hle => exact iff_of_true rfl (.inr ⟨hm, old, hv, hle⟩)
  | written old log hn _ hv hlt =>
    refine iff_of_false nofun ?_
    rintro (hs | ⟨-, old', hv', hle⟩)
    · exact hn hs
    · obtain rfl := Except.ok.inj (hv.symm.trans hv')
      exact absurd hlt (Int.not_lt.mpr hle)
  | failed e site' hn _ hv =>
    refine iff_of_false nofun ?_
    rintro (hs | ⟨-, old', hv', -⟩)
    · exact hn hs
    · exact nomatch hv.symm.trans hv'

/-- The answer is a yes exactly if the item is taken. -/
theorem Upserted.fst_eq_true_iff (h : Upserted site a kind key item out) :
    out.1 = .ok true ↔ site.store.Accepted a kind key item := by
  cases h with
  | stale hs => exact iff_of_false nofun fun hp => hp.1 hs
  | kept hn hm => exact iff_of_true rfl ⟨hn, fun hm' => nomatch hm.symm.trans hm'⟩
  | outdone old log _ hm hv hle =>
    refine iff_of_false nofun ?_
    intro hp
    obtain ⟨old', hv', hlt⟩ := hp.2 hm
    obtain rfl := Except.ok.inj (hv.symm.trans hv')
    exact absurd hlt (Int.not_lt.mpr hle)
  | written old log hn _ hv hlt => exact iff_of_true rfl ⟨hn, fun _ => ⟨old, hv, hlt⟩⟩
  | failed e site' _ hm hv =>
    refine iff_of_false nofun ?_
    intro hp
    obtain ⟨old, hv', -⟩ := hp.2 hm
    exact nomatch hv.symm.trans hv'

/-- What memory holds once it has taken an item. -/
theorem find?_renewed (hn : ¬site.store.Stale kind key item) (a' : Remote) (kind' : Kind) (key' : String) :
    (renewed (taken site kind key item) a' site).store.memory.find? kind' key' =
      if kind = kind' ∧ key = key' then some item else site.store.memory.find? kind' key' := by
  have hw : (site.store.memory.upsert kind key item).1 = true := by
    by_contra hw
    exact hn (refused_iff.mp (Bool.eq_false_of_not_eq_true hw))
  simp [renewed, Site.mapStore, taken, Memory.find?_upsert, hw]

/-- Once reads come from memory, an item that memory took is read under its key, and nothing else has changed. -/
theorem got_renewed_of_reads (h : site.store.readsFromMemory = true) (hn : ¬site.store.Stale kind key item) (a' : Remote)
    (kind' : Kind) (key' : String) : got (renewed (taken site kind key item) a' site) kind' key' =
      if kind = kind' ∧ key = key' then .ok (some item) else got site kind' key' := by
  rw [got_of_reads (renewed _ _ site) h, got_of_reads site h, find?_renewed hn]
  split <;> rfl

/-- While reads come from the backend, no other change is seen. -/
theorem got_renewed_of_beneath (h : site.store.readsFromMemory = false) (hb : site.store.beneath = some a)
    (hr : a.shared.backend.reachable = true) {a' : Remote} (hsame : a'.shared.backend = a.shared.backend) (m : Memory)
    (kind : Kind) (key : String) : got (renewed m a' site) kind key = got site kind key := by
  have hr' : a'.shared.backend.reachable = true := by rw [hsame, hr]
  rw [got_of_beneath (renewed m a' site) h rfl, got_of_beneath site h hb, Attached.answer_eq hr', Attached.answer_eq hr,
    hsame]

/-- An item that has got into memory and no further. -/
structure OnlyInMemory (site site' : Site Backed) (kind : Kind) (key : String) (item : Item) : Prop where
  beneath : site'.store.beneath.map (·.shared.backend) = site.store.beneath.map (·.shared.backend)
  memory : ∀ kind' key', site'.store.memory.find? kind' key' =
    if kind = kind' ∧ key = key' then some item else site.store.memory.find? kind' key'
  changed : site.store.memory.find? kind key ≠ some item
  got : ∀ kind' key', got site' kind' key' =
    if site.store.readsFromMemory ∧ kind = kind' ∧ key = key' then .ok (some item) else got site kind' key'

/-- An item that only the backend refuses stays in memory. -/
theorem Upserted.of_outdone (h : Upserted site a kind key item out) (hb : site.store.beneath = some a)
    (hr : a.shared.backend.reachable = true) (hn : ¬site.store.Stale kind key item)
    (ho : site.store.Outdone a kind key item) :
    OnlyInMemory site out.2 kind key item := by
  obtain ⟨hm, old, hv, hle⟩ := ho
  cases h with
  | stale hs => exact absurd hs hn
  | kept _ hm' => exact nomatch hm.symm.trans hm'
  | outdone _ log _ _ _ _ =>
    refine ⟨by rw [hb]; rfl, find?_renewed hn _, ?_, ?_⟩
    · intro hheld
      exact hn ⟨item, hheld, Int.le_refl _⟩
    · intro kind' key'
      cases hreads : site.store.readsFromMemory with
      | true =>
        simp only [true_and]
        exact got_renewed_of_reads hreads hn _ kind' key'
      | false =>
        simp only [Bool.false_eq_true, false_and, if_false]
        exact got_renewed_of_beneath hreads hb hr (by rfl) _ kind' key'
  | written old' _ _ _ hv' hlt =>
    obtain rfl := Except.ok.inj (hv.symm.trans hv')
    exact absurd hlt (Int.not_lt.mpr hle)
  | failed e _ _ _ hv' => exact nomatch hv.symm.trans hv'

/-- Where memory holds an item and the backend, if it may be written to, its text, a get finds the item's version
exactly if reads come from memory or the text can be read back. -/
theorem got_version_iff (site : Site Backed) (hb : site.store.beneath = some a) (hr : a.shared.backend.reachable = true)
    (hw : item.WellFormed) (hm : site.store.memory.find? kind key = some item)
    (ht : site.store.readsFromMemory = false → a.shared.backend.text? kind.space key = some (item.textAt key)) :
    (∃ found, got site kind key = .ok (some found) ∧ found.version = item.version) ↔
      site.store.readsFromMemory = true ∨ item.Readable := by
  cases hreads : site.store.readsFromMemory with
  | true => exact iff_of_true ⟨item, by rw [got_of_reads site hreads, hm], rfl⟩ (.inl rfl)
  | false =>
    have hreach : (⟨a, site.board⟩ : Site Remote).store.shared.backend.reachable = true := hr
    rw [got_of_beneath site hreads hb]
    constructor
    · rintro ⟨found, hfound, -⟩
      by_contra hn
      obtain ⟨e, he⟩ := Attached.answer_of_not_readable hreach (ht hreads) hw fun h => hn (.inr h)
      exact nomatch hfound.symm.trans he
    · rintro (h | h)
      · cases h
      · obtain ⟨deleted, hv⟩ := Stored.versionOf_textFor h key
        obtain ⟨found, hversion, hfound⟩ := Attached.find?_of_versionOf hreach (ht hreads) hv
        exact ⟨found, by rw [Attached.answer, hfound], hversion⟩

/-- What a get finds after an item was taken. -/
theorem Upserted.of_ok (h : Upserted site a kind key item out) (hr : a.shared.backend.reachable = true)
    (hw : item.WellFormed) (hok : out.1 = .ok true)
    (hserved : site.store.mode = .readWrite ∨ site.store.readsFromMemory = true) :
    (∃ found, got out.2 kind key = .ok (some found) ∧ found.version = item.version) ↔
      site.store.readsFromMemory = true ∨ item.Readable := by
  cases h with
  | stale _ => cases hok
  | kept hn hm =>
    refine got_version_iff (renewed (taken site kind key item) a site) rfl hr hw (by simp [find?_renewed hn]) ?_
    intro hreads
    rcases hserved with h | h
    · exact nomatch hm.symm.trans h
    · exact nomatch hreads.symm.trans h
  | outdone _ _ _ _ _ _ => cases hok
  | written _ log hn _ _ _ =>
    refine got_version_iff (renewed (taken site kind key item) _ site) rfl hr hw (by simp [find?_renewed hn]) ?_
    intro _
    simp [SharedMemory.text?_put]
  | failed _ _ _ _ _ => cases hok

/-- A write over a backend that can be reached and to which nobody else writes is answered with a no exactly if memory
or the backend refuses the item. If memory does, nothing changes. If only the backend does, the item is in memory all
the same, and reads from memory find it. The answer is a yes exactly if neither refuses it, and then a get finds the
item's version unless it reads a text that cannot be read back. -/
theorem upsert_answer (hb : site.store.beneath = some a) (hr : a.shared.backend.reachable = true)
    (ha : a.shared.rival = fun _ b => b) (kind : Kind) (key : String) (hw : item.WellFormed) :
    let out := (DataStore.upsert kind key item : StoreM (Site Backed) Bool).run site
    (out.1 = .ok false ↔ site.store.Stale kind key item ∨ site.store.Outdone a kind key item) ∧
      (site.store.Stale kind key item → out = (.ok false, site)) ∧
      (¬site.store.Stale kind key item → site.store.Outdone a kind key item → OnlyInMemory site out.2 kind key item) ∧
      (out.1 = .ok true ↔ site.store.Accepted a kind key item) ∧
      (out.1 = .ok true → site.store.mode = .readWrite ∨ site.store.readsFromMemory = true →
        ((∃ found, got out.2 kind key = .ok (some found) ∧ found.version = item.version) ↔
          site.store.readsFromMemory = true ∨ item.Readable)) := by
  intro out
  have h : Upserted site a kind key item out := upsert_cases hb hr ha kind key item
  refine ⟨h.fst_eq_false_iff, h.of_stale, ?_, h.fst_eq_true_iff, ?_⟩
  · intro hn ho
    exact h.of_outdone hb hr hn ho
  · intro hok hserved
    exact h.of_ok hr hw hok hserved

/-! ### A flag that another process has raised -/

open Mirror (plainFlag faithful_plainFlag)

/-- A shared store in which another process has written the flag at version 5. -/
def ahead : Remote :=
  .ofShared (.ofBackend (SharedMemory.empty.put "features" "a" ((plainFlag 5).textAt "a")) .unbounded) .unbounded

/-- The store over it, once all data has arrived without the flag. -/
def behind : Site Backed := ⟨⟨.init [], some ahead, .readWrite, true⟩, .initial true⟩

theorem wellFormed_plainFlag {version : Int} (h : Json.IsVersion version) (h₀ : 0 ≤ version) :
    (plainFlag version).WellFormed := by
  refine ⟨h, ?_⟩
  intro v hv
  obtain ⟨fs, -, hw, -⟩ := (faithful_plainFlag h h₀).toStorable.content v hv
  exact hw

theorem not_stale_behind (item : Item) : ¬behind.store.Stale .features "a" item := by
  rintro ⟨old, hold, -⟩
  cases hold

theorem versionAt_ahead : ahead.shared.backend.versionAt "features" "a" = .ok 5 := by
  have hfaithful : (plainFlag 5).Faithful := faithful_plainFlag (by decide) (by decide)
  obtain ⟨deleted, hv⟩ := Stored.versionOf_textFor hfaithful.toStorable.readable "a"
  have ht : ahead.shared.backend.text? "features" "a" = some ((plainFlag 5).textAt "a") := rfl
  have hv' : Stored.versionOf ((plainFlag 5).textAt "a") = .ok (5, deleted) := hv
  rw [SharedMemory.versionAt, ht]
  simp only [hv']
  rfl

/-- Version 3 is refused by the backend alone. -/
theorem outdone_behind : behind.store.Outdone ahead .features "a" (plainFlag 3) :=
  ⟨rfl, 5, versionAt_ahead, by decide⟩

/-- Version 3 is refused by the backend alone, and version 6 by nobody. -/
theorem upsert_answer_behind :
    OnlyInMemory behind
      ((DataStore.upsert .features "a" (plainFlag 3) : StoreM (Site Backed) Bool).run behind).2 .features "a"
      (plainFlag 3) ∧
    ∃ found, got ((DataStore.upsert .features "a" (plainFlag 6) : StoreM (Site Backed) Bool).run behind).2 .features "a" =
      .ok (some found) ∧ found.version = 6 := by
  have hb : behind.store.beneath = some ahead := rfl
  have hthree : (plainFlag 3).WellFormed := wellFormed_plainFlag (by decide) (by decide)
  have hsix : (plainFlag 6).WellFormed := wellFormed_plainFlag (by decide) (by decide)
  obtain ⟨-, -, hrefused, -⟩ := upsert_answer hb rfl rfl .features "a" hthree
  obtain ⟨-, -, -, hyes, hfound⟩ := upsert_answer hb rfl rfl .features "a" hsix
  have haccepted : behind.store.Accepted ahead .features "a" (plainFlag 6) :=
    ⟨not_stale_behind _, fun _ => ⟨5, versionAt_ahead, by decide⟩⟩
  exact ⟨hrefused (not_stale_behind _) outdone_behind, (hfound (hyes.mpr haccepted) (.inl rfl)).mpr (.inl rfl)⟩

/-- A write can be answered with a no although the item is found from then on. -/
theorem refused_but_found :
    let out := (DataStore.upsert .features "a" (plainFlag 3) : StoreM (Site Backed) Bool).run behind
    out.1 = .ok false ∧ got behind .features "a" = .ok none ∧ got out.2 .features "a" = .ok (some (plainFlag 3)) := by
  intro out
  have h : Upserted behind ahead .features "a" (plainFlag 3) out := upsert_cases rfl rfl rfl .features "a" (plainFlag 3)
  have honly := h.of_outdone rfl rfl (not_stale_behind _) outdone_behind
  have hgot := honly.got .features "a"
  exact ⟨h.fst_eq_false_iff.mpr (.inr outdone_behind), rfl, hgot⟩

end Layered

end FlagDelivery
