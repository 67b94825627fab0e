import FlagDelivery.Proofs.Item.Grouping
import FlagDelivery.Proofs.Store.LocalCopy
import FlagDelivery.Proofs.Store.Outages
import FlagDelivery.Proofs.Store.Usable

/-!
# What a store holds once all data was replaced

Groups list for a key the last entry for it in the last group of its kind, `Groups.last?`. A memory that was filled with
them holds that and nothing else. A backend holds it under the kinds that are listed, and under any other kind what it
held before, so that what is read from it is as `Attached.Refilled` says: `Layered.init_holds_listed`.
-/

namespace FlagDelivery

namespace Groups

variable {α : Type} {g : Groups α}

/-- What groups list for a key: the last entry for it in the last group of the kind. -/
def last? (g : Groups α) (kind : Kind) (key : String) : Option α :=
  (g.reverse.lookup kind).bind fun es => es.reverse.lookup key

theorem lists_eq_false_iff (g : Groups α) (kind : Kind) : g.lists kind = false ↔ ∀ group ∈ g, group.1 ≠ kind := by
  simp [lists]

/-- The last value under a key stands in the last group of its kind, with the key in no entry after it. -/
theorem last?_eq_some_iff {kind : Kind} {key : String} {a : α} :
    g.last? kind key = some a ↔ ∃ before es after, g = before ++ (kind, es) :: after ∧ lists after kind = false ∧
      ∃ earlier later, es = earlier ++ (key, a) :: later ∧ ∀ e ∈ later, e.1 ≠ key := by
  simp only [last?, Option.bind_eq_some_iff, lookup_reverse_eq_some_iff, lists_eq_false_iff]
  constructor
  · rintro ⟨es, ⟨before, after, hg, hafter⟩, hes⟩
    exact ⟨before, es, after, hg, hafter, hes⟩
  · rintro ⟨before, es, after, hg, hafter, hes⟩
    exact ⟨es, ⟨before, after, hg, hafter⟩, hes⟩

/-- What is listed for a key is of a kind that is listed. -/
theorem lists_of_last? {kind : Kind} {key : String} {a : α} (h : g.last? kind key = some a) : g.lists kind = true := by
  obtain ⟨before, es, after, rfl, -⟩ := last?_eq_some_iff.mp h
  simp [lists]

end Groups

/-- A memory that was filled holds what is listed. -/
theorem Memory.find?_init (data : Groups Item) : (init data).find? = data.last? := by
  funext kind key
  have hview : (init data).find? kind key = viewOf (replace (.const none) data) kind key := rfl
  rw [hview, viewOf_replace, Groups.last?]
  cases data.reverse.lookup kind with
  | some es => rfl
  | none => exact find?_empty kind key

namespace SharedMemory

/-- The texts of a kind that is not listed stay. -/
theorem text?_replacing_of_unlisted {data : Groups Item} {kind : Kind} (h : data.lists kind = false) (b : SharedMemory)
    (key : String) : (b.replacing data.storedTexts).text? kind.space key = b.text? kind.space key := by
  induction data generalizing b with
  | nil => rfl
  | cons group data ih =>
    obtain ⟨kind', es⟩ := group
    rw [Groups.lists_cons, Bool.or_eq_false_iff, decide_eq_false_iff_not] at h
    have hs : ¬kind'.space = kind.space := fun he => h.1 (Kind.space_inj he)
    rw [Groups.storedTexts_cons, replacing_cons, ih h.2, text?, space_replace, if_neg hs, text?]

/-- The texts of a kind that is listed are those of what is listed. -/
theorem text?_replacing_of_listed {data : Groups Item} {kind : Kind} (h : data.lists kind = true) (b : SharedMemory)
    (key : String) :
    (b.replacing data.storedTexts).text? kind.space key = (data.last? kind key).map fun i => i.textAt key := by
  rw [← Memory.find?_init]
  exact textsOf_replacing (.inl h) key

end SharedMemory

namespace Attached

variable {before after : Site Remote} {data : Groups Item}

/-- What a store answers after groups of items replaced what it held. Under a kind that is listed it is what is listed
and nothing else, as far as it can be read back; under any other kind it is what it was before. -/
structure Refilled (data : Groups Item) (before after : Site Remote) : Prop where
  unlisted : ∀ kind key, data.lists kind = false → answer after kind key = answer before kind key
  absent : ∀ kind key, data.lists kind = true → data.last? kind key = none → answer after kind key = .ok none
  found : ∀ kind key item, data.last? kind key = some item → item.Readable →
    answer after kind key = .ok (some (Stored.readBack item))
  unread : ∀ kind key item, data.last? kind key = some item → item.WellFormed → ¬item.Readable →
    ∃ e, answer after kind key = .error e

/-- A backend whose texts were replaced makes the store answer as refilled. -/
theorem refilled (hr : before.store.shared.backend.reachable = true)
    (hb : after.store.shared.backend = before.store.shared.backend.replacing data.storedTexts) :
    Refilled data before after := by
  have hr' : after.store.shared.backend.reachable = true := by
    rw [hb, SharedMemory.reachable_replacing, hr]
  have hlisted {kind : Kind} (h : data.lists kind = true) (key : String) :
      after.store.shared.backend.text? kind.space key = (data.last? kind key).map fun i => i.textAt key := by
    rw [hb, SharedMemory.text?_replacing_of_listed h]
  refine ⟨?_, ?_, ?_, ?_⟩
  · intro kind key h
    rw [answer_eq hr', answer_eq hr, hb, SharedMemory.text?_replacing_of_unlisted h]
  · intro kind key h hnone
    have ht : after.store.shared.backend.text? kind.space key = (none : Option Item).map fun i => i.textAt key := by
      rw [hlisted h, hnone]
    exact answer_of_readable hr' ht nofun
  · intro kind key item hitem hread
    refine answer_of_readable hr' ((hlisted (Groups.lists_of_last? hitem) key).trans (by rw [hitem])) ?_
    rintro _ ⟨⟩
    exact hread
  · intro kind key item hitem hwell hread
    exact answer_of_not_readable hr' ((hlisted (Groups.lists_of_last? hitem) key).trans (by rw [hitem]; rfl)) hwell hread

/-- A backend that can be reached is refilled. -/
theorem refilled_init (site : Site Remote) (hr : site.store.shared.backend.reachable = true) (d : DataSet Item) :
    ((DataStore.init d : StoreM (Site Remote) Unit).run site).1 = .ok () ∧
      Refilled d.data site ((DataStore.init d : StoreM (Site Remote) Unit).run site).2 := by
  have hrun : (DataStore.init d : StoreM (Site Remote) Unit).run site = (fill (stored ⟨d.data, d.persist⟩)).run site := rfl
  rw [hrun, fill_run_of_reachable hr]
  exact ⟨rfl, refilled hr rfl⟩

end Attached

namespace Layered

open Attached (Refilled answer)

variable {μ : Type} [DataStore μ]

/-- The site with memory filled and reads turned to it. -/
def filledInMemory (data : Groups Item) (site : Site (Layered μ)) : Site (Layered μ) := site.mapStore fun s =>
  { s with memory := .init data, readsFromMemory := true }

/-- All data is replaced in memory, and then in the store beneath if it may be written to. -/
theorem init_run (d : DataSet Item) (site : Site (Layered μ)) :
    (DataStore.init d : StoreM (Site (Layered μ)) Unit).run site =
      match (filledInMemory d.data site).store.writable d.persist with
      | some a => onBeneath a (DataStore.init d : StoreM (Site μ) Unit).run (filledInMemory d.data site)
      | none => (.ok (), (refreshed (filledInMemory d.data site)).2) := by
  have hsite : filledInMemory d.data site = (switchReads (fillMemory d.data site).2).2 := rfl
  change (init d).run site = _
  rw [hsite]
  cases hw : (switchReads (fillMemory d.data site).2).2.store.writable d.persist <;> simp [init, hw]

/-- **What a store holds once all data was replaced.**
1. What a data set lists for a key is the last entry for the key in the last group of the kind.
2. A memory accepts the data set, and answers for every key what is listed and nothing else.
3. A store attached to a backend that can be reached accepts it. For the kinds that are listed it answers what is
   listed, as far as that can be read back; for the others what it answered before.
4. A memory over such a store, which may be written to, accepts it and answers as a memory does. The store beneath
   answers as in 3 if the data set is one to be persisted, and otherwise what it answered before. -/
theorem init_holds_listed (d : DataSet Item) :
    (∀ kind key item, d.data.last? kind key = some item ↔
      ∃ before es after, d.data = before ++ (kind, es) :: after ∧ Groups.lists after kind = false ∧
        ∃ earlier later, es = earlier ++ (key, item) :: later ∧ ∀ e ∈ later, e.1 ≠ key) ∧
    (∀ site : Site Memory,
      let out := (DataStore.init d : StoreM (Site Memory) Unit).run site
      out.1 = .ok () ∧
        ∀ kind key, ((DataStore.find? kind key : StoreM _ (Option Item)).run out.2).1 = .ok (d.data.last? kind key)) ∧
    (∀ site : Site Remote, site.store.shared.backend.reachable = true →
      let out := (DataStore.init d : StoreM (Site Remote) Unit).run site
      out.1 = .ok () ∧ Refilled d.data site out.2) ∧
    (∀ (site : Site Backed) (a : Remote), site.store.mode = .readWrite → site.store.beneath = some a →
      a.shared.backend.reachable = true →
      let out := (DataStore.init d : StoreM (Site Backed) Unit).run site
      out.1 = .ok () ∧
        (∀ kind key, ((DataStore.find? kind key : StoreM _ (Option Item)).run out.2).1 = .ok (d.data.last? kind key)) ∧
        ∃ a', out.2.store.beneath = some a' ∧
          (d.persist = true → Refilled d.data ⟨a, site.board⟩ ⟨a', out.2.board⟩) ∧
          (d.persist = false → ∀ kind key, answer ⟨a', out.2.board⟩ kind key = answer ⟨a, site.board⟩ kind key)) := by
  refine ⟨fun kind key item => Groups.last?_eq_some_iff, ?_, ?_, ?_⟩
  · intro site out
    refine ⟨rfl, ?_⟩
    intro kind key
    exact congrArg Except.ok (congrFun (congrFun (Memory.find?_init d.data) kind) key)
  · intro site hr
    exact Attached.refilled_init site hr d
  · intro site a hmode hbeneath hr out
    -- Whatever becomes of the store beneath, reads come from memory after the call.
    have hmemory (s : Site Backed) (hs : s.store.copy = (filledInMemory d.data site).store.copy) (kind : Kind)
        (key : String) :
        ((DataStore.find? kind key : StoreM _ (Option Item)).run s).1 = .ok (d.data.last? kind key) := by
      have hreads : s.store.copy.reads = true := congrArg LocalCopy.reads hs
      have hfilled : s.store.memory = .init d.data := congrArg LocalCopy.memory hs
      rw [find?_of_none (source_of_reads hreads), hfilled, Memory.find?_init]
    have hwritable : (filledInMemory d.data site).store.writable d.persist = if d.persist = true then some a else none := by
      simp [filledInMemory, Site.mapStore, writable, hmode, hbeneath]
    cases hp : d.persist with
    | true =>
      have hout : out = onBeneath a (DataStore.init d : StoreM (Site Remote) Unit).run (filledInMemory d.data site) := by
        simp only [out, init_run, hwritable, if_pos hp]
      obtain ⟨hok, hrefilled⟩ := Attached.refilled_init ⟨a, site.board⟩ hr d
      rw [hout]
      exact ⟨hok, hmemory _ rfl, _, rfl, fun _ => hrefilled, fun h => absurd h (by decide)⟩
    | false =>
      have hout : out = (.ok (), (refreshed (filledInMemory d.data site)).2) := by
        simp only [out, init_run, hwritable, if_neg (hp ▸ Bool.false_ne_true)]
      rw [hout]
      refine ⟨rfl, hmemory _ (copy_refreshed _), a, ?_, fun h => absurd h (by decide), ?_⟩
      · rw [store_refreshed]
        exact hbeneath
      · intro _ kind key
        rw [Attached.answer_eq hr, Attached.answer_eq hr]

/-! ### A kind that is not listed -/

open Mirror (plainData plainFlag faithful_plainFlag)

/-- Two versions of a segment, and nothing of flags. -/
def segmentsOnly : DataSet Item := ⟨[(.segments, [("s", .tombstone 1), ("s", .tombstone 2)])], true⟩

/-- A store over a backend that holds nothing. -/
def emptyStore : Site Remote := ⟨.ofShared (.ofBackend .empty .unbounded) .unbounded, .initial true⟩

/-- The store once all its data is one flag. -/
def withFlag : Site Remote := ((DataStore.init (plainData 1) : StoreM (Site Remote) Unit).run emptyStore).2

/-- Once segments were given as all data, the store beneath answers the later version of the segment, and memory has no
flag. -/
theorem init_holds_segments :
    let out :=
      (DataStore.init segmentsOnly : StoreM (Site Backed) Unit).run ⟨.above withFlag.store .readWrite, withFlag.board⟩
    out.1 = .ok () ∧ ((DataStore.find? .features "a" : StoreM _ (Option Item)).run out.2).1 = .ok none ∧
      ∃ a, out.2.store.beneath = some a ∧ answer ⟨a, out.2.board⟩ .segments "s" = .ok (some (.tombstone 2)) := by
  obtain ⟨hlast, -, -, hbacked⟩ := init_holds_listed segmentsOnly
  obtain ⟨hok, hmemory, a, ha, hrefilled, -⟩ :=
    hbacked ⟨.above withFlag.store .readWrite, withFlag.board⟩ withFlag.store rfl rfl rfl
  have hsegment : segmentsOnly.data.last? .segments "s" = some (.tombstone 2) :=
    (hlast _ _ _).mpr ⟨[], _, [], rfl, rfl, [("s", .tombstone 1)], [], rfl, nofun⟩
  exact ⟨hok, hmemory .features "a", a, ha, (hrefilled rfl).found _ _ _ hsegment ⟨by decide, nofun⟩⟩

/-- The flag is still found in a store that was given segments as all its data. -/
theorem flag_outlives_init :
    let out := (DataStore.init segmentsOnly : StoreM (Site Remote) Unit).run withFlag
    out.1 = .ok () ∧ segmentsOnly.data.last? .features "a" = none ∧
      answer out.2 .features "a" = .ok (some ⟨1, some (.obj [("key", .str "a"), ("version", .int 1)])⟩) := by
  intro out
  have hflag : (plainFlag 1).Faithful := faithful_plainFlag (by decide) (by decide)
  obtain ⟨-, hfirst⟩ := Attached.refilled_init emptyStore rfl (plainData 1)
  obtain ⟨hok, hrefilled⟩ := Attached.refilled_init withFlag rfl segmentsOnly
  have hbefore : answer withFlag .features "a" = .ok (some (Stored.readBack (plainFlag 1))) :=
    hfirst.found .features "a" (plainFlag 1) rfl hflag.toStorable.readable
  refine ⟨hok, rfl, ?_⟩
  rw [hrefilled.unlisted .features "a" rfl, hbefore, hflag.readBack]
  rfl

end Layered

end FlagDelivery
