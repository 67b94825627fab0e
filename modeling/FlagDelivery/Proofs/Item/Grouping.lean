import FlagDelivery.Item.Batching
import Mathlib.Data.List.Induction
import Mathlib.Data.List.Nodup

/-!
# Grouping by kind

A batch groups changes by kind. No kind has two groups, `Groups.Distinct`, and under its kind each item keeps its place
among the items of that kind, `Batch.lookup_group`, so grouping loses nothing of what the order of arrival says about
any one kind.
-/

namespace FlagDelivery

namespace Groups

variable {α : Type} {g : Groups α}

/-- The keyed values of one kind, in order. -/
def ofKind (es : List (Kind × String × α)) (kind : Kind) : List (String × α) :=
  es.filterMap fun (kind', e) => if kind' = kind then some e else none

/-- The entries of a kind are those that bear it. -/
theorem mem_ofKind {es : List (Kind × String × α)} {kind : Kind} {e : String × α} : e ∈ ofKind es kind ↔ (kind, e) ∈ es := by
  unfold ofKind
  rw [List.mem_filterMap]
  constructor
  · rintro ⟨⟨kind', e'⟩, hmem, h⟩
    simp only [Option.ite_none_right_eq_some, Option.some.injEq] at h
    obtain ⟨rfl, rfl⟩ := h
    exact hmem
  · intro hmem
    exact ⟨_, hmem, by simp⟩

theorem ofKind_append (es es' : List (Kind × String × α)) (kind : Kind) :
    ofKind (es ++ es') kind = ofKind es kind ++ ofKind es' kind :=
  List.filterMap_append

theorem ofKind_singleton (kind : Kind) (e : String × α) (kind' : Kind) :
    ofKind [(kind, e)] kind' = if kind = kind' then [e] else [] := by
  unfold ofKind
  by_cases h : kind = kind' <;> simp [h]

/-- Entries with different kinds and keys have different keys among those of one kind. -/
theorem nodup_ofKind {es : List (Kind × String × α)} (h : (es.map fun e => (e.1, e.2.1)).Nodup) (kind : Kind) :
    ((ofKind es kind).map Prod.fst).Nodup := by
  have hkeys : (ofKind es kind).map Prod.fst =
      (es.map fun e => (e.1, e.2.1)).filterMap fun e => if e.1 = kind then some e.2 else none := by
    rw [ofKind, List.map_filterMap, List.filterMap_map]
    refine List.filterMap_congr fun e _ => ?_
    by_cases he : e.1 = kind <;> simp [he]
  rw [hkeys]
  refine h.filterMap ?_
  rintro ⟨_, key⟩ ⟨_, key'⟩ found h h'
  simp only [Option.mem_def, Option.ite_none_right_eq_some, Option.some.injEq] at h h'
  exact Prod.ext (h.1.trans h'.1.symm) (h.2.trans h'.2.symm)

theorem entries_cons (kind : Kind) (es : List (String × α)) (g : Groups α) :
    entries ((kind, es) :: g) = (es.map fun e => (kind, e.1, e.2)) ++ entries g := rfl

/-- The first group of a kind is the one that is looked up. -/
theorem lookup_cons (kind : Kind) (es : List (String × α)) (g : Groups α) (kind' : Kind) :
    List.lookup kind' ((kind, es) :: g) = if kind = kind' then some es else g.lookup kind' := by
  by_cases h : kind = kind'
  · simp [h]
  · have hne : (kind' == kind) = false := beq_false_of_ne (Ne.symm h)
    simp [h, List.lookup_cons, hne]

/-- The first group of a kind takes what is pushed under the kind. -/
theorem lookup_push (kind : Kind) (key : String) (a : α) (g : Groups α) (kind' : Kind) :
    (push kind key a g).lookup kind' =
      if kind = kind' then some ((g.lookup kind').getD [] ++ [(key, a)]) else g.lookup kind' := by
  induction g with
  | nil => rw [push, lookup_cons]; rfl
  | cons group g ih =>
    obtain ⟨k, es⟩ := group
    unfold push
    by_cases hk : k = kind
    · subst hk
      rw [if_pos rfl, lookup_cons, lookup_cons]
      by_cases h : k = kind' <;> simp [h]
    · rw [if_neg hk, lookup_cons, lookup_cons, ih]
      by_cases h : k = kind'
      · have hne : kind ≠ kind' := fun he => hk (h.trans he.symm)
        simp [h, hne]
      · simp [h]

/-- The kinds of the groups, in order. -/
def kinds (g : Groups α) : List Kind := List.map Prod.fst g

theorem kinds_cons (group : Kind × List (String × α)) (g : Groups α) : kinds (group :: g) = group.1 :: g.kinds := rfl

theorem lists_iff (g : Groups α) (kind : Kind) : g.lists kind = true ↔ kind ∈ g.kinds := by
  simp [lists, kinds]

/-- A push opens a group where the kind has none. -/
theorem kinds_push (kind : Kind) (key : String) (a : α) (g : Groups α) :
    (push kind key a g).kinds = if kind ∈ g.kinds then g.kinds else g.kinds ++ [kind] := by
  induction g with
  | nil => rfl
  | cons group g ih =>
    obtain ⟨k, es⟩ := group
    unfold push
    by_cases hk : k = kind
    · simp [kinds_cons, hk]
    · rw [if_neg hk, kinds_cons, kinds_cons, ih]
      by_cases hm : kind ∈ kinds g
      · rw [if_pos hm, if_pos (List.mem_cons_of_mem _ hm)]
      · rw [if_neg hm, if_neg fun h => (List.mem_cons.mp h).elim (fun he => hk he.symm) hm, List.cons_append]

/-- There is no group to look up exactly for the kinds that are not there. -/
theorem lookup_eq_none_iff (g : Groups α) (kind : Kind) : g.lookup kind = none ↔ kind ∉ g.kinds := by
  induction g with
  | nil => simp [kinds]
  | cons group g ih =>
    obtain ⟨k, es⟩ := group
    rw [lookup_cons, kinds_cons, List.mem_cons]
    by_cases h : k = kind
    · simp [h]
    · simp [h, Ne.symm h, ih]

/-- A push adds its value to the values there are. -/
theorem perm_entries_push (kind : Kind) (key : String) (a : α) (g : Groups α) :
    (push kind key a g).entries.Perm (g.entries ++ [(kind, key, a)]) := by
  induction g with
  | nil => exact List.Perm.refl _
  | cons group g ih =>
    obtain ⟨k, es⟩ := group
    unfold push
    by_cases hk : k = kind
    · rw [if_pos hk, entries_cons, entries_cons, List.map_append, List.append_assoc, List.append_assoc, hk]
      exact List.perm_append_comm.append_left _
    · rw [if_neg hk, entries_cons, entries_cons, List.append_assoc]
      exact ih.append_left _

/-- Groups have a key of a kind exactly if it is in an entry. -/
theorem has_iff {kind : Kind} {key : String} : g.has kind key = true ↔ ∃ a, (kind, key, a) ∈ g.entries := by
  have hentries : (∃ a, (kind, key, a) ∈ g.entries) ↔ ∃ es, (kind, es) ∈ g ∧ ∃ a, (key, a) ∈ es := by
    simp only [entries, List.mem_flatMap, List.mem_map, Prod.exists, Prod.mk.injEq]
    constructor
    · rintro ⟨_, _, es, hes, _, a, hmem, rfl, rfl, rfl⟩
      exact ⟨es, hes, a, hmem⟩
    · rintro ⟨es, hes, a, hmem⟩
      exact ⟨a, kind, es, hes, key, a, hmem, rfl, rfl, rfl⟩
  rw [hentries]
  simp [has]

/-- What is looked up from the end is the last entry for the key. -/
theorem lookup_reverse_eq_some_iff {κ β : Type} [BEq κ] [LawfulBEq κ] {es : List (κ × β)} {k : κ} {b : β} :
    es.reverse.lookup k = some b ↔ ∃ earlier later, es = earlier ++ (k, b) :: later ∧ ∀ e ∈ later, e.1 ≠ k := by
  rw [List.lookup_eq_some_iff]
  constructor
  · rintro ⟨later, earlier, hes, hlater⟩
    refine ⟨earlier.reverse, later.reverse, ?_, ?_⟩
    · rw [← List.reverse_reverse es, hes]
      simp
    · intro e he
      exact (bne_iff_ne.mp (hlater e (List.mem_reverse.mp he))).symm
  · rintro ⟨earlier, later, rfl, hlater⟩
    refine ⟨later.reverse, earlier.reverse, by simp, ?_⟩
    intro e he
    exact bne_iff_ne.mpr (hlater e (List.mem_reverse.mp he)).symm

/-- Among entries with different keys every one can be looked up. -/
theorem lookup_reverse_of_nodup {κ β : Type} [BEq κ] [LawfulBEq κ] {es : List (κ × β)} (h : (es.map Prod.fst).Nodup)
    {k : κ} {b : β} :
    es.reverse.lookup k = some b ↔ (k, b) ∈ es := by
  rw [lookup_reverse_eq_some_iff]
  constructor
  · rintro ⟨earlier, later, rfl, -⟩
    exact List.mem_append_right _ List.mem_cons_self
  · intro hmem
    obtain ⟨earlier, later, rfl⟩ := List.append_of_mem hmem
    refine ⟨earlier, later, rfl, ?_⟩
    rw [List.map_append, List.map_cons] at h
    intro e he hk
    exact (List.nodup_cons.mp (List.nodup_append.mp h).2.1).1 (List.mem_map.mpr ⟨e, he, hk⟩)

/-- No kind has two groups. -/
def Distinct (g : Groups α) : Prop := g.kinds.Nodup

/-- Pushing an entry keeps groups distinct. -/
theorem Distinct.push (h : g.Distinct) (kind : Kind) (key : String) (a : α) : (Groups.push kind key a g).Distinct := by
  unfold Distinct
  rw [kinds_push]
  split
  · exact h
  · next hm => exact List.nodup_append_comm.mp (List.nodup_cons.mpr ⟨hm, h⟩)

/-- The only group of a kind is the last one as it is the first one. -/
theorem Distinct.lookup_reverse (h : g.Distinct) (kind : Kind) : g.reverse.lookup kind = g.lookup kind := by
  induction g with
  | nil => rfl
  | cons group g ih =>
    obtain ⟨k, es⟩ := group
    obtain ⟨hk, hg⟩ := List.nodup_cons.mp h
    rw [List.reverse_cons, List.lookup_append, ih hg, lookup_cons, lookup_cons]
    by_cases he : k = kind
    · subst he
      rw [(lookup_eq_none_iff g k).mpr hk]
      rfl
    · rw [if_neg he, if_neg he]
      exact Option.or_none

/-- The values of a kind are those of its only group. -/
theorem Distinct.ofKind_entries (h : g.Distinct) (kind : Kind) : ofKind g.entries kind = (g.lookup kind).getD [] := by
  induction g with
  | nil => rfl
  | cons group g ih =>
    obtain ⟨k, es⟩ := group
    obtain ⟨hk, hg⟩ := List.nodup_cons.mp h
    have hfirst : ofKind (es.map fun e => (k, e.1, e.2)) kind = if k = kind then es else [] := by
      unfold ofKind
      by_cases he : k = kind <;> simp [he, List.filterMap_map]
    rw [entries_cons, ofKind_append, hfirst, ih hg, lookup_cons]
    by_cases he : k = kind
    · subst he
      rw [(lookup_eq_none_iff g k).mpr hk]
      simp
    · simp [he]

end Groups

/-- Names of the same kind are the same name. -/
theorem Kind.ofWire?_inj {name name' : String} {kind : Kind} (h : ofWire? name = some kind)
    (h' : ofWire? name' = some kind) :
    name = name' := by
  unfold ofWire? at h h'
  grind

/-- The item of a change goes to the kind and the key that the change names. -/
theorem Change.named_of_entry? {c : Change} {kind : Kind} {key : String} {item : Item}
    (h : c.entry? = some (kind, key, item)) :
    Kind.ofWire? c.kind = some kind ∧ c.key = key := by
  unfold entry? at h
  obtain ⟨kind', hkind, h⟩ := Option.bind_eq_some_iff.mp h
  split at h
  · obtain ⟨rfl, hkey, -⟩ : kind' = kind ∧ c.key = key ∧ _ = item := by simpa using h
    exact ⟨hkind, hkey⟩
  · cases h
  · obtain ⟨rfl, hkey, -⟩ : kind' = kind ∧ c.key = key ∧ _ = item := by simpa using h
    exact ⟨hkind, hkey⟩

namespace Batch

variable (cs : List Change)

/-- The items of changes one by one, in their order of arrival. -/
def arrivals : List (Kind × String × Item) := cs.filterMap Change.entry?

/-- A further change is pushed if it gives an entry, and is left out otherwise. -/
theorem group_concat (c : Change) : group (cs ++ [c]) = match c.entry? with
    | some (kind, key, item) => (group cs).push kind key item
    | none => group cs := by
  unfold group
  rw [List.filterMap_append, List.foldl_append]
  cases hc : c.entry? <;> simp [hc]

/-- What arrives with a further change comes last. -/
theorem arrivals_concat (c : Change) : arrivals (cs ++ [c]) = arrivals cs ++ c.entry?.toList := by
  unfold arrivals
  rw [List.filterMap_append]
  cases hc : c.entry? <;> simp [hc]

theorem distinct_group : (group cs).Distinct := by
  induction cs using List.reverseRecOn with
  | nil => exact List.nodup_nil
  | append_singleton cs c ih =>
    rw [group_concat]
    split
    · exact ih.push _ _ _
    · exact ih

/-- A kind's group holds the items of the kind in their order of arrival. -/
theorem lookup_group (kind : Kind) : ((group cs).lookup kind).getD [] = Groups.ofKind (arrivals cs) kind := by
  induction cs using List.reverseRecOn with
  | nil => rfl
  | append_singleton cs c ih =>
    rw [group_concat, arrivals_concat, Groups.ofKind_append, ← ih]
    cases hc : c.entry? with
    | none => simp [Groups.ofKind]
    | some e =>
      obtain ⟨kind', key, item⟩ := e
      simp only [Option.toList_some, Groups.ofKind_singleton, Groups.lookup_push]
      by_cases h : kind' = kind <;> simp [h]

/-- Taken kind by kind, the items of the groups come in the order of their arrival. -/
theorem ofKind_group (kind : Kind) : Groups.ofKind (group cs).entries kind = Groups.ofKind (arrivals cs) kind := by
  rw [(distinct_group cs).ofKind_entries, lookup_group]

/-- Grouping neither loses nor adds an item. -/
theorem perm_entries_group : (group cs).entries.Perm (arrivals cs) := by
  induction cs using List.reverseRecOn with
  | nil => exact List.Perm.refl _
  | append_singleton cs c ih =>
    rw [group_concat, arrivals_concat]
    cases c.entry? with
    | none => simpa using ih
    | some e => exact (Groups.perm_entries_push _ _ _ _).trans (ih.append_right _)

/-- The items of the groups are those of the changes. -/
theorem mem_group {cs : List Change} {e : Kind × String × Item} (h : e ∈ (group cs).entries) : ∃ c ∈ cs, c.entry? = some e :=
  List.mem_filterMap.mp ((perm_entries_group cs).subset h)

/-- If no item is changed twice, no two items go to one key. -/
theorem nodup_arrivals (h : (cs.map fun c => (c.kind, c.key)).Nodup) : ((arrivals cs).map fun e => (e.1, e.2.1)).Nodup := by
  unfold arrivals List.Nodup at *
  rw [List.pairwise_map] at h ⊢
  rw [List.pairwise_filterMap]
  refine h.imp fun hne => ?_
  rintro ⟨kind, key, item⟩ he ⟨kind', key', item'⟩ he' hsame
  obtain ⟨rfl, rfl⟩ := Prod.mk.inj hsame
  obtain ⟨hkind, hkey⟩ := Change.named_of_entry? he
  obtain ⟨hkind', hkey'⟩ := Change.named_of_entry? he'
  exact hne (Prod.ext (Kind.ofWire?_inj hkind hkind') (hkey.trans hkey'.symm))

/-- Listing all kinds adds those that are missing, in the order of all kinds. -/
theorem kinds_listAll (g : Groups Item) : (listAll g).kinds = g.kinds ++ Kind.all.filter fun k => !g.lists k := by
  have hmap (ks : List Kind) : List.map (Prod.fst ∘ fun k => (k, ([] : List (String × Item)))) ks = ks := List.map_id ks
  simp only [listAll, Groups.kinds, List.map_append, List.map_map, hmap]

/-- Listing all kinds keeps groups distinct. -/
theorem distinct_listAll {g : Groups Item} (h : g.Distinct) : (listAll g).Distinct := by
  have hadded : (Kind.all.filter fun k => !g.lists k).Nodup := List.Nodup.filter _ (by decide)
  unfold Groups.Distinct
  rw [kinds_listAll]
  refine List.nodup_append.mpr ⟨h, hadded, ?_⟩
  rintro k hk _ hk' rfl
  have hlists := (Groups.lists_iff g k).mpr hk
  simp [hlists] at hk'

/-- Once every kind is listed, each kind has a group, be it empty. -/
theorem lookup_listAll (g : Groups Item) (kind : Kind) : (listAll g).lookup kind = some ((g.lookup kind).getD []) := by
  have hadded :
      ∀ ks : List Kind, kind ∈ ks → List.lookup kind (ks.map fun k => (k, ([] : List (String × Item)))) = some [] := by
    intro ks hk
    induction ks with
    | nil => cases hk
    | cons k ks ih =>
      rw [List.map_cons, Groups.lookup_cons]
      split
      · rfl
      · next hne => exact ih ((List.mem_cons.mp hk).resolve_left fun h => hne h.symm)
  unfold listAll
  rw [List.lookup_append]
  cases hl : g.lookup kind with
  | some es => rfl
  | none =>
    have hlists : g.lists kind = false := by
      rw [← Bool.not_eq_true, Groups.lists_iff]
      exact (Groups.lookup_eq_none_iff g kind).mp hl
    exact hadded _ (List.mem_filter.mpr ⟨Kind.mem_all kind, by simp [hlists]⟩)

end Batch

end FlagDelivery
