import FlagDelivery.Proofs.Intake.Announced
import FlagDelivery.Proofs.Item.Batching
import FlagDelivery.Proofs.Store.Slots

/-!
# Changes made and changes announced

What an intake for a store in memory announces of a batch, next to what the batch changes. The announcements are told
from the versions that were held before, `Versions.Noted`, and not from what the store holds then. Of a change they tell
what it changes: `Intake.announced_incremental`. Of all data they tell each item that is new, gone or newer once, and
nothing of an item whose version went down: `Intake.announced_full`.
-/

namespace FlagDelivery

/-- The version noted for an item is the one that memory holds. -/
theorem Versions.Noted.find?_eq {v : Versions} {m : Memory} {p : Kind → String → Prop} (h : v.Noted m p) {kind : Kind}
    {key : String} (hp : p kind key) : v.find? kind key = (m.find? kind key).map Item.version := by
  ext n
  rw [h kind key n]
  exact and_iff_right hp

namespace Batch

/-! ## The changes of a batch -/

/-- The kinds and keys of the items of a batch, in order. -/
def listed (b : Batch) : List ItemChange := b.data.entries.map fun (kind, key, _) => ⟨kind, key⟩

theorem newer_sublist (b : Batch) (v : Versions) : (b.newer v).Sublist b.listed := List.filter_sublist.map _

/-- An incremental batch announces its newer items. -/
theorem changes_incremental {b : Batch} (hb : b.extent = .incremental) (v : Versions) : b.changes v = b.newer v := by
  simp [changes, hb]

theorem nodup_dropped (b : Batch) (v : Versions) : (b.dropped v).Nodup := by
  have hkind (kind : Kind) :
      (((v.get kind).keys.filter fun key => !b.data.has kind key).map fun key => (⟨kind, key⟩ : ItemChange)).Nodup :=
    (Std.TreeMap.nodup_keys.filter _).map fun _ _ h => (ItemChange.mk.inj h).2
  simp only [dropped, Kind.all, List.flatMap_cons, List.flatMap_nil, List.append_nil]
  refine List.nodup_append.mpr ⟨hkind .features, hkind .segments, ?_⟩
  rintro _ hfeature _ hsegment rfl
  obtain ⟨key, -, rfl⟩ := List.mem_map.mp hfeature
  obtain ⟨key', -, h⟩ := List.mem_map.mp hsegment
  cases h

variable {b : Batch} {v : Versions} {m : Memory} {kind : Kind} {key : String}

theorem mem_listed : ⟨kind, key⟩ ∈ b.listed ↔ ∃ item, (kind, key, item) ∈ b.data.entries := by
  simp [listed]

/-- The versions held under the keys of a batch are read before it. -/
theorem consults_of_mem (hb : b.extent ≠ .none) {item : Item} (h : (kind, key, item) ∈ b.data.entries) :
    b.Consults kind key := by
  unfold Consults
  cases he : b.extent with
  | full =>
    obtain ⟨group, hgroup, hmem⟩ := List.mem_flatMap.mp h
    obtain ⟨e, -, heq⟩ := List.mem_map.mp hmem
    obtain rfl : group.1 = kind := congrArg Prod.fst heq
    exact ⟨group.2, hgroup⟩
  | incremental => exact ⟨item, h⟩
  | none => exact absurd he hb

/-- An item is told as newer if it is listed with a version above the one held. -/
theorem mem_newer (hb : b.extent ≠ .none) (hv : v.Noted m b.Consults) : ⟨kind, key⟩ ∈ b.newer v ↔
    ∃ item, (kind, key, item) ∈ b.data.entries ∧ ∀ old, m.find? kind key = some old → old.version < item.version := by
  have hnewer {item : Item} (hmem : (kind, key, item) ∈ b.data.entries) :
      ((v.find? kind key).all fun old => old < item.version) = true ↔
        ∀ old, m.find? kind key = some old → old.version < item.version := by
    rw [hv.find?_eq (consults_of_mem hb hmem)]
    cases m.find? kind key <;> simp
  simp only [newer, List.mem_map, List.mem_filter]
  constructor
  · rintro ⟨⟨_, _, item⟩, ⟨hmem, hall⟩, ⟨⟩⟩
    exact ⟨item, hmem, (hnewer hmem).mp hall⟩
  · rintro ⟨item, hmem, hall⟩
    exact ⟨⟨kind, key, item⟩, ⟨hmem, (hnewer hmem).mpr hall⟩, rfl⟩

/-- An item is told as dropped if it was held and is not listed. -/
theorem mem_dropped (hv : v.Noted m b.Consults) (hk : b.Consults kind key) :
    ⟨kind, key⟩ ∈ b.dropped v ↔ m.find? kind key ≠ none ∧ ⟨kind, key⟩ ∉ b.listed := by
  have hheld : key ∈ (v.get kind).keys ↔ m.find? kind key ≠ none := by
    have hfind : (v.get kind)[key]? = (m.find? kind key).map Item.version := hv.find?_eq hk
    rw [Std.TreeMap.mem_keys, Std.TreeMap.mem_iff_isSome_getElem?, hfind]
    cases m.find? kind key <;> simp
  have hlisted : b.data.has kind key = false ↔ ⟨kind, key⟩ ∉ b.listed := by
    rw [mem_listed, ← Groups.has_iff, Bool.not_eq_true]
  rw [← hheld, ← hlisted]
  simp [dropped, Kind.mem_all]

end Batch

/-! ## A store that is given all data -/

namespace Memory

/-- The version held under a key. -/
def version? (m : Memory) (kind : Kind) (key : String) : Option Int := (m.find? kind key).map Item.version

end Memory

namespace Batch

variable {c : ChangeSet} (hone : (c.changes.map fun change => (change.kind, change.key)).Nodup) (environment : Option String)
  (persist : Bool)

/-- The entries of a change set are its images, in some order. -/
theorem perm_ofChangeSet (c : ChangeSet) : (ofChangeSet c environment persist).data.entries.Perm (arrivals c.changes) := by
  simp only [ofChangeSet]
  split
  · rw [entries_listAll]
    exact perm_entries_group _
  · exact perm_entries_group _

include hone

/-- A batch of a change set lists no item twice. -/
theorem nodup_listed : (ofChangeSet c environment persist).listed.Nodup := by
  have hkeys : ((ofChangeSet c environment persist).data.entries.map fun e => (e.1, e.2.1)).Nodup :=
    ((perm_ofChangeSet environment persist c).map _).nodup_iff.mpr (nodup_arrivals _ hone)
  have hlisted : (ofChangeSet c environment persist).listed =
      ((ofChangeSet c environment persist).data.entries.map fun e => (e.1, e.2.1)).map fun (kind, key) => ⟨kind, key⟩ := by
    rw [List.map_map]
    rfl
  rw [hlisted]
  exact hkeys.map fun _ _ h => Prod.ext (ItemChange.mk.inj h).1 (ItemChange.mk.inj h).2

/-- A store that is given all data holds the items listed and nothing else. -/
theorem find?_apply_full (hc : c.extent = .full) (m : Memory) {kind : Kind} {key : String} {item : Item} :
    (m.apply (ofChangeSet c environment persist)).find? kind key = some item ↔
      (kind, key, item) ∈ (ofChangeSet c environment persist).data.entries := by
  have hdata : (ofChangeSet c environment persist).data = listAll (group c.changes) := if_pos hc
  have hview : (m.apply (ofChangeSet c environment persist)).find? =
      Memory.viewOf (Memory.replace m.tables (ofChangeSet c environment persist).data) := by
    have hextent : (ofChangeSet c environment persist).extent = .full := hc
    rw [Memory.apply, hextent]
    rfl
  rw [hview, hdata, Memory.viewOf_replace, (distinct_listAll (distinct_group _)).lookup_reverse, lookup_listAll,
    lookup_group, entries_listAll, (perm_entries_group _).mem_iff, ← Groups.mem_ofKind]
  exact Groups.lookup_reverse_of_nodup (Groups.nodup_ofKind (nodup_arrivals _ hone) kind)

end Batch

namespace Intake

variable {i : Intake Memory}

/-- A store in memory takes every batch, and the changes are told from the versions that it held. -/
theorem apply_onMemory (hi : i.announcing = .heard) (b : Batch) :
    ∃ v : Versions, v.Noted i.site.store b.Consults ∧ (apply b i).1 = true ∧
      (apply b i).2.site.store = i.site.store.apply b ∧ (apply b i).2.announced = i.announced ++ b.changes v := by
  obtain ⟨v, hv, hnoted⟩ := versionsBefore_run (Memory.readsFrom i.site) b
  have hh : hand b i = (.ok (), { i with handed := i.handed ++ [b], site := i.site.mapStore (·.apply b) }) := rfl
  refine ⟨v, hnoted, ?_⟩
  rw [apply_of_versions (by rw [hi]; nofun) hv]
  simp [accept, hh, hi, announced_announce, Site.mapStore]

/-- Of a change an intake for a store in memory announces what it changes. The batch is accepted, and

1. every key under which something else is held than before was announced;
2. if no item has a negative version, what is held under an announced key is newer than anything held there before;
3. the announcements are some of the items of the batch, in order;
4. nothing is announced if for each item one of the same or a higher version was held. -/
theorem announced_incremental (hi : i.announcing = .heard) {b : Batch} (hb : b.extent = .incremental) :
    let before := i.site.store
    let after := (apply b i).2.site.store
    (apply b i).1 = true ∧ after = before.apply b ∧ ∃ sent, (apply b i).2.announced = i.announced ++ sent ∧
      (∀ kind key, after.find? kind key ≠ before.find? kind key → ⟨kind, key⟩ ∈ sent) ∧
      ((∀ e ∈ b.data.entries, 0 ≤ e.2.2.version) → ∀ change ∈ sent, ∃ item, after.find? change.kind change.key = some item ∧
        ∀ old, before.find? change.kind change.key = some old → old.version < item.version) ∧
      sent.Sublist b.listed ∧
      ((∀ e ∈ b.data.entries, ∃ old, before.find? e.1 e.2.1 = some old ∧ e.2.2.version ≤ old.version) → sent = []) := by
  intro before after
  obtain ⟨v, hv, hanswer, hstore, hannounced⟩ := apply_onMemory hi b
  have hsome : b.extent ≠ .none := by rw [hb]; decide
  have hafter (kind : Kind) (key : String) :
      after.find? kind key = Slot.offerAll (before.find? kind key) (Offers.under b.data.entries kind key) := by
    rw [← View.offeredAll_apply, ← Memory.find?_apply_incremental before hb, ← hstore]
  rw [Batch.changes_incremental hb] at hannounced
  refine ⟨hanswer, hstore, b.newer v, hannounced, ?_, ?_, b.newer_sublist v, ?_⟩
  · intro kind key hne
    obtain hsame | ⟨item, hitem, -, hlt⟩ :=
      Slot.offerAll_cases (before.find? kind key) (Offers.under b.data.entries kind key)
    · exact absurd ((hafter kind key).trans hsame) hne
    · refine (Batch.mem_newer hsome hv).mpr ⟨item, Offers.mem_under.mp hitem, ?_⟩
      intro old hold
      rw [hold] at hlt
      exact hlt
  · rintro hnonneg ⟨kind, key⟩ hsent
    obtain ⟨item, hmem, hnew⟩ := (Batch.mem_newer hsome hv).mp hsent
    have hle := Slot.le_version_offerAll (Offers.mem_under.mpr hmem) (before.find? kind key)
    have hpos := hnonneg _ hmem
    rw [← hafter] at hle
    -- A missing item counts as `-1`, so something is held after an item of a version that is not negative.
    cases hheld : after.find? kind key with
    | none =>
      rw [hheld] at hle
      exact absurd (Int.le_trans hpos hle) (by decide)
    | some held =>
      rw [hheld] at hle
      exact ⟨held, rfl, fun old hold => Int.lt_of_lt_of_le (hnew old hold) hle⟩
  · intro hstale
    refine List.eq_nil_iff_forall_not_mem.mpr ?_
    rintro ⟨kind, key⟩ hsent
    obtain ⟨item, hmem, hnew⟩ := (Batch.mem_newer hsome hv).mp hsent
    obtain ⟨old, hold, hle⟩ := hstale _ hmem
    exact absurd (hnew old hold) (Int.not_lt.mpr hle)

/-- A change set that puts flags of some versions. -/
def flagsPut (extent : Extent) (flags : List (String × Int)) : ChangeSet :=
  ⟨extent, flags.map fun (key, version) => ⟨.put, "flag", key, version, some .null⟩, .point 1 "state"⟩

/-- The batch of such a change set. -/
def flagBatch (extent : Extent) (flags : List (String × Int)) : Batch := .ofChangeSet (flagsPut extent flags) none true

/-- An intake that announces, for a memory that holds some flags. -/
def holding (flags : List (String × Int)) : Intake Memory :=
  ofSite ⟨Memory.empty.apply (flagBatch .full flags), .initial false⟩ .heard

/-- An older flag changes nothing and is not announced, one that is raised and one that is new are. -/
theorem announced_incremental_mixed :
    let out := (apply (flagBatch .incremental [("a", 1), ("b", 2), ("c", 1), ("b", 2)]) (holding [("a", 2), ("b", 1)])).2
    ⟨.features, "a"⟩ ∉ out.announced ∧ ⟨.features, "b"⟩ ∈ out.announced ∧ ⟨.features, "c"⟩ ∈ out.announced := by
  obtain ⟨-, -, sent, hsent, hchanged, hnewer, -, -⟩ := announced_incremental (i := holding [("a", 2), ("b", 1)]) rfl
    (b := flagBatch .incremental [("a", 1), ("b", 2), ("c", 1), ("b", 2)]) rfl
  obtain rfl := hsent.symm
  refine ⟨?_, hchanged _ _ (by decide), hchanged _ _ (by decide)⟩
  intro ha
  obtain ⟨item, hitem, hold⟩ := hnewer (by decide) _ ha
  obtain rfl : ⟨2, some .null⟩ = item := Option.some.inj hitem
  exact absurd (hold ⟨2, some .null⟩ rfl) (by decide)

/-- A version went down. -/
def lowered : Option Int → Option Int → Bool
  | some was, some now => now < was
  | _, _ => false

/-- Of all data an intake for a store in memory announces what they change, but for items whose version went down. If no
item is put or deleted twice, the data are accepted, and each key is announced once if the version held under it is new,
gone or higher, and not at all if it is the same as before or lower. -/
theorem announced_full (hi : i.announcing = .heard) {c : ChangeSet} (hc : c.extent = .full)
    (hone : (c.changes.map fun change => (change.kind, change.key)).Nodup) (environment : Option String) (persist : Bool) :
    let b := Batch.ofChangeSet c environment persist
    let was := i.site.store.version?
    let now := (apply b i).2.site.store.version?
    (apply b i).1 = true ∧ (apply b i).2.site.store = i.site.store.apply b ∧
      ∃ sent, (apply b i).2.announced = i.announced ++ sent ∧ ∀ kind key, sent.count ⟨kind, key⟩ =
        if now kind key = was kind key ∨ lowered (was kind key) (now kind key) then 0 else 1 := by
  intro b was now
  obtain ⟨v, hv, hanswer, hstore, hannounced⟩ := apply_onMemory hi b
  have hfull : b.extent = .full := hc
  have hsome : b.extent ≠ .none := by rw [hfull]; decide
  have hconsults (kind : Kind) (key : String) : b.Consults kind key := by
    obtain ⟨group, hgroup, rfl⟩ := List.mem_map.mp
      ((Groups.lists_iff _ _).mp (Batch.lists_ofChangeSet c environment persist hfull kind))
    rw [Batch.Consults, hfull]
    exact ⟨group.2, hgroup⟩
  have hheld {kind : Kind} {key : String} {item : Item} :
      (kind, key, item) ∈ b.data.entries ↔ (apply b i).2.site.store.find? kind key = some item := by
    rw [hstore, Batch.find?_apply_full hone environment persist hc]
  have hchanges : b.changes v = b.newer v ++ b.dropped v := by simp [Batch.changes, hfull]
  -- A newer item is listed and a dropped one is not, so that none is announced as both.
  have hnodup : (b.newer v ++ b.dropped v).Nodup := by
    refine List.nodup_append.mpr
      ⟨(Batch.nodup_listed hone environment persist).sublist (b.newer_sublist v), b.nodup_dropped v, ?_⟩
    rintro ⟨kind, key⟩ hnewer _ hdropped rfl
    exact ((Batch.mem_dropped hv (hconsults kind key)).mp hdropped).2 ((b.newer_sublist v).subset hnewer)
  have hsent (kind : Kind) (key : String) :
      ⟨kind, key⟩ ∈ b.newer v ++ b.dropped v ↔
        ¬(now kind key = was kind key ∨ lowered (was kind key) (now kind key) = true) := by
    rw [List.mem_append, Batch.mem_newer hsome hv, Batch.mem_dropped hv (hconsults kind key), Batch.mem_listed]
    simp only [hheld, was, now, Memory.version?]
    cases i.site.store.find? kind key with
    | none => cases (apply b i).2.site.store.find? kind key <;> simp [lowered]
    | some old =>
      cases (apply b i).2.site.store.find? kind key with
      | none => simp [lowered]
      | some item =>
        simp [lowered]
        omega
  refine ⟨hanswer, hstore, _, hannounced, ?_⟩
  intro kind key
  rw [hchanges, hnodup.count]
  simp only [hsent, ite_not]

/-- Flags that are gone, raised and new are announced once, one that stays as it was is not, and neither is one that is
lowered. -/
theorem announced_full_mixed :
    let out := (apply (flagBatch .full [("b", 1), ("c", 2), ("d", 1), ("e", 1)])
        (holding [("a", 1), ("b", 1), ("c", 1), ("d", 2)])).2
    out.announced.count ⟨.features, "a"⟩ = 1 ∧ out.announced.count ⟨.features, "b"⟩ = 0 ∧
      out.announced.count ⟨.features, "c"⟩ = 1 ∧ out.announced.count ⟨.features, "d"⟩ = 0 ∧
      out.announced.count ⟨.features, "e"⟩ = 1 := by
  obtain ⟨-, -, sent, hsent, hcount⟩ := announced_full (i := holding [("a", 1), ("b", 1), ("c", 1), ("d", 2)]) rfl
    (c := flagsPut .full [("b", 1), ("c", 2), ("d", 1), ("e", 1)]) rfl (by decide) none true
  obtain rfl := hsent.symm
  exact ⟨hcount .features "a", hcount .features "b", hcount .features "c", hcount .features "d", hcount .features "e"⟩

/-- All data with a flag at a lower version are accepted and replace it, and nothing is announced. -/
theorem unannounced_lowered :
    let i := holding [("a", 2)]
    let out := apply (flagBatch .full [("a", 1)]) i
    out.1 = true ∧ i.site.store.version? .features "a" = some 2 ∧ out.2.site.store.version? .features "a" = some 1 ∧
      out.2.announced = i.announced :=
  ⟨rfl, rfl, rfl, rfl⟩

end Intake

end FlagDelivery
