import FlagDelivery.Proofs.Schema.Records

/-!
# Records and lists that read as they were written

`Format.stable_list` and `Format.stable_record`: the formats of lists and records are stable where their parts are. A
record may have been read from an array, from an object with keys that are no columns, or with columns that were not
there; it is written as the object of its columns' names, and that object reads as the record.
-/

namespace FlagDelivery

namespace Fields

/-- A key that occurs once in a list of fields has the same value in the object made of them. -/
theorem find?_ofList {fs : List (String × Json)} (hn : (fs.map Prod.fst).Nodup) (key : String) :
    find? key (ofList fs) = find? key fs := by
  suffices hfold :
      ∀ acc : Fields, find? key (fs.foldl (fun acc f => set f.1 f.2 acc) acc) = (find? key fs <|> find? key acc) by
    rw [ofList, hfold []]
    cases find? key fs <;> rfl
  induction fs with
  | nil =>
    intro acc
    rfl
  | cons g fs ih =>
    obtain ⟨hg, hn⟩ := List.nodup_cons.mp hn
    intro acc
    rw [List.foldl_cons, ih hn, find?_set, find?_cons]
    by_cases hk : key = g.1
    · have hnone : find? key fs = none := by
        cases hf : find? key fs with
        | none => rfl
        | some v => exact absurd (List.mem_map_of_mem (mem_of_find? hf)) (hk ▸ hg)
      simp [hk, hk ▸ hnone]
    · simp [hk]

end Fields

/-- A column whose values read as they were written, the value for nothing too, and which is left out only for that
value. -/
structure Column.Stable {α : Type} (c : Column α) : Prop where
  format : c.format.Stable
  absent : ∀ a, c.absent = some a → c.format.read (c.format.write a) = .ok a
  omits : ∀ a, c.omits a = true → c.absent = some a

namespace Column.Stable

/-- A column that must be there is stable if its format is. -/
theorem required {α : Type} (name : String) {f : Format α} (hf : f.Stable) : (Column.required name f).Stable :=
  ⟨hf, nofun, nofun⟩

/-- A column of a text that may be there or null is stable. -/
theorem optional (name : String) : (Column.optional name).Stable := by
  refine ⟨Format.stable_optionalText, ?_, nofun⟩
  rintro _ ⟨⟩
  rfl

/-- A column of a text that may be left out is stable. -/
theorem omissible (name : String) : (Column.omissible name).Stable := by
  refine ⟨Format.stable_optionalText, ?_, ?_⟩
  · rintro _ ⟨⟩
    rfl
  · intro a ha
    rw [Option.isNone_iff_eq_none.mp ha]
    rfl

end Column.Stable

namespace Columns

/-- The names of columns. -/
def names : {αs : List Type} → Columns αs → List String
  | [], _ => []
  | _ :: _, (c, cs) => c.name :: names cs

/-- All columns are stable. -/
def Stable : {αs : List Type} → Columns αs → Prop
  | [], _ => True
  | _ :: _, (c, cs) => c.Stable ∧ Stable cs

/-- Each value of a row reads as it was written, and a column is left out only for the value that it has for nothing. -/
def Rereads : {αs : List Type} → Columns αs → Row αs → Prop
  | [], _, _ => True
  | _ :: _, (c, cs), (a, row) =>
    (c.format.read (c.format.write a) = .ok a ∧ (c.omits a = true → c.absent = some a)) ∧ Rereads cs row

variable {αs : List Type} {cs : Columns αs} {row : Row αs}

/-- A row that was read from stable columns reads as it was written. -/
theorem Stable.rereads {p : Json → Prop} (hs : cs.Stable) (h : cs.From p row) : cs.Rereads row := by
  induction αs with
  | nil => trivial
  | cons α αs ih =>
    obtain ⟨c, cs⟩ := cs
    obtain ⟨a, row⟩ := row
    obtain ⟨hc, hs⟩ := hs
    obtain ⟨ha, h⟩ := h
    refine ⟨⟨?_, hc.omits a⟩, ih hs h⟩
    rcases ha with ⟨v, -, hv⟩ | ha
    · exact hc.format v a hv
    · exact hc.absent a ha

/-- A row is written under names of its columns, in their order. -/
theorem keys_write_sublist (cs : Columns αs) (row : Row αs) : ((cs.write row).map Prod.fst).Sublist cs.names := by
  induction αs with
  | nil => exact List.Sublist.slnil
  | cons α αs ih =>
    obtain ⟨c, cs⟩ := cs
    obtain ⟨a, row⟩ := row
    simp only [write]
    split
    · exact (ih cs row).cons c.name
    · exact (ih cs row).cons_cons c.name

/-- A field that is written has the name of a column. -/
theorem mem_names_of_mem_write {f : String × Json} (h : f ∈ cs.write row) : f.1 ∈ cs.names :=
  (keys_write_sublist cs row).subset (List.mem_map_of_mem h)

/-- No field is written but under the names of the columns. -/
theorem find?_write_of_not_mem {key : String} (h : key ∉ cs.names) : Fields.find? key (cs.write row) = none := by
  cases hf : Fields.find? key (cs.write row) with
  | none => rfl
  | some v => exact absurd (mem_names_of_mem_write (Fields.mem_of_find? hf)) h

/-- The entries that a row is written as have nothing wrong. -/
theorem check_write (hn : cs.names.Nodup) (hr : cs.Rereads row) {f : String × Json} (hf : f ∈ cs.write row) :
    cs.check f.1 f.2 = .ok () := by
  induction αs with
  | nil => rfl
  | cons α αs ih =>
    obtain ⟨c, cs⟩ := cs
    obtain ⟨a, row⟩ := row
    obtain ⟨hc, hn⟩ := List.nodup_cons.mp hn
    obtain ⟨⟨ha, -⟩, hr⟩ := hr
    have hrest : f ∈ cs.write row → @check f.1 f.2 (α :: αs) (c, cs) = .ok () := by
      intro hf
      have hne : c.name ≠ f.1 := by
        intro h
        exact hc (h ▸ mem_names_of_mem_write hf)
      rw [check, if_neg hne]
      exact ih hn hr hf
    simp only [write] at hf
    split at hf
    · exact hrest hf
    · rcases List.mem_cons.mp hf with rfl | hf
      · rw [check, if_pos rfl, ha]
        rfl
      · exact hrest hf

/-- Fields that have what a row is written as under the columns' names read as the row. -/
theorem readFields_write {fs : Fields} (hn : cs.names.Nodup) (hr : cs.Rereads row)
    (hfs : ∀ key ∈ cs.names, Fields.find? key fs = Fields.find? key (cs.write row)) : cs.readFields fs = .ok row := by
  induction αs with
  | nil => rfl
  | cons α αs ih =>
    obtain ⟨c, cs⟩ := cs
    obtain ⟨a, row⟩ := row
    obtain ⟨hc, hn⟩ := List.nodup_cons.mp hn
    obtain ⟨⟨ha, homits⟩, hr⟩ := hr
    have hhead := hfs c.name List.mem_cons_self
    have htail : cs.readFields fs = .ok row := by
      apply ih hn hr
      intro key hkey
      have hne : key ≠ c.name := by
        intro h
        exact hc (h ▸ hkey)
      rw [hfs key (List.mem_cons_of_mem _ hkey), write]
      split
      · rfl
      · rw [Fields.find?_cons, if_neg hne]
    rw [write] at hhead
    split at hhead
    · next hom =>
      rw [find?_write_of_not_mem hc] at hhead
      simp only [readFields, hhead, homits hom, htail]
      rfl
    · rw [Fields.find?_cons, if_pos rfl] at hhead
      simp only [readFields, hhead, ha, htail]
      rfl

end Columns

namespace Format

variable {α : Type} {f : Format α}

/-- What holds of everything that is read holds of the items of a list that is read. -/
theorem forall_of_mapM {p : α → Prop} (hp : ∀ v a, f.read v = .ok a → p a) {vs : List Json} {as : List α}
    (h : vs.mapM f.read = .ok as) : ∀ a ∈ as, p a := by
  induction vs generalizing as with
  | nil =>
    obtain rfl := Except.ok.inj h
    intro a ha
    exact absurd ha List.not_mem_nil
  | cons v vs ih =>
    rw [List.mapM_cons] at h
    obtain ⟨a, ha, h⟩ := ok_of_bind h
    obtain ⟨rest, hrest, h⟩ := ok_of_bind h
    obtain rfl := Except.ok.inj h
    exact List.forall_mem_cons.mpr ⟨hp v a ha, ih hrest⟩

/-- What holds of everything that is read by a format holds of each item of a list that is read. -/
theorem forall_of_read_list {p : α → Prop} (hp : ∀ v a, f.read v = .ok a → p a) {v : Json} {as : List α}
    (h : f.list.read v = .ok as) : ∀ a ∈ as, p a := by
  cases v with
  | arr vs => exact forall_of_mapM hp h
  | _ => cases h

theorem mapM_map_write {as : List α} (h : ∀ a ∈ as, f.read (f.write a) = .ok a) :
    (as.map f.write).mapM f.read = .ok as := by
  induction as with
  | nil => rfl
  | cons a as ih =>
    obtain ⟨ha, h⟩ := List.forall_mem_cons.mp h
    rw [List.map_cons, List.mapM_cons, ha, ih h]
    rfl

/-- A list reads as it was written if its items do. -/
theorem stable_list (hf : f.Stable) : f.list.Stable := by
  intro v as h
  exact mapM_map_write (forall_of_read_list hf h)

theorem forM_of_forall {ε : Type} {f : α → Except ε Unit} {as : List α} (h : ∀ a ∈ as, f a = .ok ()) :
    as.forM f = .ok () := by
  induction as with
  | nil => rfl
  | cons a as ih =>
    obtain ⟨ha, h⟩ := List.forall_mem_cons.mp h
    calc
      (a :: as).forM f = f a >>= fun _ => as.forM f := rfl
      _ = as.forM f := by rw [ha]; rfl
      _ = .ok () := ih h

/-- A record reads as it was written, whatever it was read from, if its columns do and have different names. -/
theorem stable_record (name : String) {αs : List Type} {cs : Columns αs} (hn : cs.names.Nodup) (hs : cs.Stable) :
    (record name αs cs).Stable := by
  intro v row h
  have hr := hs.rereads (from_record h)
  have hcheck : (Fields.ofList (cs.write row)).forM (fun f => cs.check f.1 f.2) = .ok () := by
    apply forM_of_forall
    intro f hf
    exact Columns.check_write hn hr (Fields.mem_of_mem_ofList hf)
  have hread : cs.readFields (Fields.ofList (cs.write row)) = .ok row := by
    apply Columns.readFields_write hn hr
    intro key _
    exact Fields.find?_ofList (hn.sublist (Columns.keys_write_sublist cs row)) key
  simp only [record, Json.mkObj, hcheck, hread]
  rfl

end Format

end FlagDelivery
