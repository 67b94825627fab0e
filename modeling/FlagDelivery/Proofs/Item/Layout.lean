import FlagDelivery.Proofs.Item.Batching

/-!
# How a batch lists items

A batch lists the items of its change set under their kinds. `Change.image?` says what a change makes of its item,
whatever kind it names, and `Change.imagesOf` what the changes of one kind make of theirs. The batch lists exactly
these: each kind once or not at all, under it the images of its changes in their order of arrival, and the kinds in the
order in which the first of their items arrived, `Batch.lists_images`.
-/

namespace FlagDelivery

/-- The name of a kind on the wire. -/
def Kind.wireName : Kind → String
  | .features => "flag"
  | .segments => "segment"

/-- A kind is read from its own name and from no other. -/
theorem Kind.ofWire?_eq_some_iff {name : String} {kind : Kind} : ofWire? name = some kind ↔ name = kind.wireName := by
  unfold ofWire?
  cases kind <;> simp only [wireName] <;> grind

namespace Change

/-- What a change makes of its item: a put with an object a live item, a deletion a tombstone, each of the change's
version. A put without an object makes nothing. -/
def image? (c : Change) : Option Item :=
  match c.operation, c.object with
  | .put, some object => some ⟨c.version, some object⟩
  | .put, none => none
  | .delete, _ => some (.tombstone c.version)

/-- What the changes that name a kind make of their items, in order of arrival. -/
def imagesOf (cs : List Change) (kind : Kind) : List (String × Item) :=
  (cs.filter fun c => c.kind = kind.wireName).filterMap fun c => c.image?.map fun item => (c.key, item)

/-- The kinds of the changes that make something of an item, in order of arrival. -/
def imagedKinds (cs : List Change) : List Kind := (cs.filter fun c => c.image?.isSome).filterMap fun c => Kind.ofWire? c.kind

/-- The entry of a change is its image, under its kind and key. -/
theorem entry?_eq (c : Change) :
    c.entry? = (Kind.ofWire? c.kind).bind fun kind => c.image?.map fun item => (kind, c.key, item) := by
  unfold entry? image?
  cases Kind.ofWire? c.kind with
  | none => rfl
  | some kind => cases c.operation <;> cases c.object <;> rfl

/-- A change gives an entry exactly if its kind is known and it has an image. -/
theorem isSome_entry? (c : Change) : c.entry?.isSome = ((Kind.ofWire? c.kind).isSome && c.image?.isSome) := by
  rw [entry?_eq]
  cases Kind.ofWire? c.kind <;> cases c.image? <;> rfl

end Change

namespace Groups

variable {α : Type} {g : Groups α}

/-- The groups that hold a value. -/
def inhabited (g : Groups α) : Groups α := List.filter (fun group => !group.2.isEmpty) g

/-- The only group of a kind is the one that is looked up. -/
theorem Distinct.lookup_eq_some_iff (h : g.Distinct) {kind : Kind} {es : List (String × α)} :
    g.lookup kind = some es ↔ (kind, es) ∈ g := by
  rw [← h.lookup_reverse]
  exact lookup_reverse_of_nodup h

theorem size_eq (g : Groups α) : g.size = g.entries.length := by
  induction g with
  | nil => rfl
  | cons group g ih =>
    obtain ⟨kind, es⟩ := group
    rw [entries_cons, List.length_append, List.length_map, ← ih]
    rfl

/-- There are entries of a kind exactly if the kind is borne by one. -/
theorem ofKind_ne_nil_iff {es : List (Kind × String × α)} {kind : Kind} : ofKind es kind ≠ [] ↔ kind ∈ es.map Prod.fst := by
  rw [ne_eq, List.eq_nil_iff_forall_not_mem, not_forall]
  simp only [not_not, mem_ofKind, List.mem_map]
  constructor
  · rintro ⟨e, he⟩
    exact ⟨_, he, rfl⟩
  · rintro ⟨⟨_, e⟩, he, rfl⟩
    exact ⟨e, he⟩

end Groups

namespace Batch

/-! ## The groups of changes -/

variable (cs : List Change)

/-- The items that arrive for a kind are the images of its changes. -/
theorem ofKind_arrivals (kind : Kind) : Groups.ofKind (arrivals cs) kind = Change.imagesOf cs kind := by
  unfold Groups.ofKind arrivals Change.imagesOf
  rw [List.filterMap_filterMap, List.filterMap_filter]
  refine List.filterMap_congr fun c _ => ?_
  rw [Change.entry?_eq]
  by_cases h : c.kind = kind.wireName
  · rw [Kind.ofWire?_eq_some_iff.mpr h]
    cases c.image? <;> simp [h]
  · have hkind : Kind.ofWire? c.kind ≠ some kind := fun hk => h (Kind.ofWire?_eq_some_iff.mp hk)
    cases hw : Kind.ofWire? c.kind with
    | none => simp [h]
    | some kind' =>
      have hne : kind' ≠ kind := fun hk => hkind (hk ▸ hw)
      cases c.image? <;> simp [h, hne]

theorem kinds_arrivals : (arrivals cs).map Prod.fst = Change.imagedKinds cs := by
  unfold arrivals Change.imagedKinds
  rw [List.map_filterMap, List.filterMap_filter]
  refine List.filterMap_congr fun c _ => ?_
  rw [Change.entry?_eq]
  cases Kind.ofWire? c.kind <;> cases c.image? <;> rfl

/-- A kind gets its group when the first of its items arrives. -/
theorem kinds_group : (group cs).kinds = ((arrivals cs).map Prod.fst).eraseDups := by
  induction cs using List.reverseRecOn with
  | nil => rfl
  | append_singleton cs c ih =>
    rw [group_concat, arrivals_concat]
    cases c.entry? with
    | none => simpa using ih
    | some e =>
      obtain ⟨kind, key, item⟩ := e
      have hadded : ((arrivals cs ++ [(kind, key, item)]).map Prod.fst).eraseDups =
          (group cs).kinds ++ ([kind].removeAll ((arrivals cs).map Prod.fst)).eraseDups := by
        rw [List.map_append, List.eraseDups_append, ih]
        rfl
      have hmem : kind ∈ (group cs).kinds ↔ kind ∈ (arrivals cs).map Prod.fst := by
        rw [ih, List.mem_eraseDups]
      change (Groups.push kind key item (group cs)).kinds = _
      rw [Groups.kinds_push, Option.toList_some, hadded]
      by_cases h : kind ∈ (arrivals cs).map Prod.fst
      · rw [if_pos (hmem.mpr h)]
        simp [List.removeAll, h]
      · rw [if_neg (mt hmem.mp h)]
        simp [List.removeAll, h, List.eraseDups_cons]

/-- A kind has a group exactly if some change makes an item of it, and the group is what its changes make. -/
theorem lookup_group_eq (kind : Kind) :
    (group cs).lookup kind = if Change.imagesOf cs kind = [] then none else some (Change.imagesOf cs kind) := by
  have hitems : ((group cs).lookup kind).getD [] = Change.imagesOf cs kind :=
    (lookup_group cs kind).trans (ofKind_arrivals cs kind)
  have hlisted : kind ∈ (group cs).kinds ↔ Change.imagesOf cs kind ≠ [] := by
    rw [kinds_group, List.mem_eraseDups, ← Groups.ofKind_ne_nil_iff, ofKind_arrivals]
  by_cases h : Change.imagesOf cs kind = []
  · rw [if_pos h, Groups.lookup_eq_none_iff, hlisted]
    exact not_not.mpr h
  · rw [if_neg h]
    cases hl : (group cs).lookup kind with
    | none => exact absurd (hlisted.mpr h) ((Groups.lookup_eq_none_iff _ _).mp hl)
    | some es =>
      rw [hl] at hitems
      exact congrArg some hitems

/-! ## The groups of a batch -/

variable (c : ChangeSet) (environment : Option String) (persist : Bool)

/-- The data of a change set has each kind and each key once. -/
theorem distinct_ofChangeSet : (ofChangeSet c environment persist).data.Distinct := by
  unfold ofChangeSet
  split
  · exact distinct_listAll (distinct_group c.changes)
  · exact distinct_group c.changes

/-- The entries of a change set's data are those of its grouped changes, whether all kinds are listed or not. -/
theorem entries_ofChangeSet : (ofChangeSet c environment persist).data.entries = (group c.changes).entries := by
  unfold ofChangeSet
  split
  · exact entries_listAll (group c.changes)
  · rfl

/-- A kind is looked up with its images, if it has any or if the change set is full. -/
theorem lookup_ofChangeSet (kind : Kind) : (ofChangeSet c environment persist).data.lookup kind =
    if c.extent = .full ∨ Change.imagesOf c.changes kind ≠ [] then some (Change.imagesOf c.changes kind) else none := by
  unfold ofChangeSet
  by_cases hf : c.extent = .full
  · simp only [hf, if_true, true_or]
    rw [lookup_listAll, lookup_group, ofKind_arrivals]
  · simp only [hf, if_false, false_or]
    rw [lookup_group_eq, ite_not]

/-- Kinds that are listed without an item come after those with one. -/
theorem inhabited_ofChangeSet : (ofChangeSet c environment persist).data.inhabited = group c.changes := by
  have hfull (g : Kind × List (String × Item)) (h : g ∈ group c.changes) : (!g.2.isEmpty) = true := by
    obtain ⟨kind, es⟩ := g
    have hlookup := (distinct_group c.changes).lookup_eq_some_iff.mpr h
    rw [lookup_group_eq] at hlookup
    split at hlookup
    · cases hlookup
    · next hne =>
      obtain rfl := Option.some.inj hlookup
      simpa using hne
  have hgroups : (group c.changes).inhabited = group c.changes := List.filter_eq_self.mpr hfull
  unfold ofChangeSet
  split
  · have hadded (ks : List Kind) : Groups.inhabited (ks.map fun k => (k, ([] : List (String × Item)))) = [] := by
      simp [Groups.inhabited]
    unfold listAll
    rw [Groups.inhabited, List.filter_append, ← Groups.inhabited, ← Groups.inhabited, hgroups, hadded, List.append_nil]
  · exact hgroups

/-- **A batch lists what its changes make of their items**, whatever the changes are, in four parts.
1. A kind is listed once if the change set is all data or some change makes an item of the kind, and not at all otherwise.
2. A group that is listed holds what the changes of its kind make of their items: all of these, in order of arrival.
3. The number of items is that of the changes of kinds with a meaning that make something of an item.
4. The kinds with items come in the order in which the first of their items arrived. -/
theorem lists_images :
    let data : Groups Item := (ofChangeSet c environment persist).data
    (∀ kind, data.kinds.count kind = if c.extent = .full ∨ Change.imagesOf c.changes kind ≠ [] then 1 else 0) ∧
      (∀ kind es, (kind, es) ∈ data ↔
        es = Change.imagesOf c.changes kind ∧ (c.extent = .full ∨ Change.imagesOf c.changes kind ≠ [])) ∧
      data.size = c.changes.countP (fun change => (Kind.ofWire? change.kind).isSome && change.image?.isSome) ∧
      data.inhabited.kinds = (Change.imagedKinds c.changes).eraseDups := by
  intro data
  have hdistinct : data.Distinct := distinct_ofChangeSet c environment persist
  have hlookup (kind : Kind) : data.lookup kind =
      if c.extent = .full ∨ Change.imagesOf c.changes kind ≠ [] then some (Change.imagesOf c.changes kind) else none :=
    lookup_ofChangeSet c environment persist kind
  refine ⟨?_, ?_, ?_, ?_⟩
  · intro kind
    have hlisted : kind ∈ data.kinds ↔ c.extent = .full ∨ Change.imagesOf c.changes kind ≠ [] := by
      rw [← not_iff_not, ← Groups.lookup_eq_none_iff, hlookup kind, ite_eq_right_iff]
      simp
    rw [hdistinct.count]
    exact if_congr hlisted rfl rfl
  · intro kind es
    rw [← hdistinct.lookup_eq_some_iff, hlookup kind, Option.ite_none_right_eq_some, Option.some.injEq, and_comm]
    exact and_congr_left fun _ => eq_comm
  · have hperm : data.entries.Perm (arrivals c.changes) :=
      (entries_ofChangeSet c environment persist) ▸ perm_entries_group c.changes
    rw [Groups.size_eq, hperm.length_eq, arrivals, List.length_filterMap_eq_countP]
    exact List.countP_congr fun change _ => by rw [Change.isSome_entry?]
  · rw [inhabited_ofChangeSet, kinds_group, kinds_arrivals]

/-- Of four changes two make an item of a known kind. The segment arrived first, so its kind is listed first. -/
example : (ofChangeSet ⟨.incremental, [⟨.delete, "segment", "s", 2, none⟩, ⟨.put, "flag", "a", 3, none⟩,
      ⟨.put, "other", "o", 4, some .null⟩, ⟨.put, "flag", "b", 5, some .null⟩], .empty⟩ none true).data =
    [(.segments, [("s", .tombstone 2)]), (.features, [("b", ⟨5, some .null⟩)])] := rfl

end Batch

end FlagDelivery
