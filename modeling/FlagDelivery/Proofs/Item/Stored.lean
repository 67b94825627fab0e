import FlagDelivery.Item.Stored
import FlagDelivery.Proofs.Json.Nesting

/-!
# What a stored text tells

An item that is `Item.Readable` has a stored form whose text can be read: `Stored.versionOf_textFor` says that the text
tells the item's version, and `Stored.ofText_textFor` that the item read back is the one stored, with the version
written into its content. The text of any other item tells no version, `Stored.versionOf_of_not_readable`.
-/

namespace FlagDelivery

namespace Json

/-- An integer that fits a version is read as it was written. -/
theorem reread_int {n : Int} (h : IsVersion n) : (int n).reread = int n := by
  have hr := Number.ofChars?_int h.1 (by have := h.2; omega)
  simp [reread, Number.reread, hr]

theorem wellFormed_int {n : Int} (h : IsVersion n) : (int n).WellFormed := ⟨h.1, by have := h.2; omega⟩

theorem bool?_reread (v : Json) : v.reread.bool? = v.bool? := by cases v <;> rfl

/-- A field of what is read back is the field that was written, read back. -/
theorem find?_rereadFields (key : String) (fs : Fields) :
    Fields.find? key (rereadFields fs) = (Fields.find? key fs).map reread := by
  induction fs with
  | nil => rfl
  | cons f fs ih =>
    rw [rereadFields, Fields.find?_cons, Fields.find?_cons, ih]
    split <;> rfl

/-- A field of what is read for a value is what is read for the field. -/
theorem field?_reread (key : String) (v : Json) : v.reread.field? key = (v.field? key).map reread := by
  cases v with
  | obj fs => exact find?_rereadFields key fs
  | _ => rfl

/-- Setting a field and reading back commute. -/
theorem rereadFields_set (key : String) (value : Json) (fs : Fields) :
    rereadFields (Fields.set key value fs) = Fields.set key value.reread (rereadFields fs) := by
  induction fs with
  | nil => rfl
  | cons f fs ih =>
    obtain ⟨k, v⟩ := f
    simp only [Fields.set, rereadFields]
    split
    · rfl
    · split
      · rfl
      · rw [rereadFields, ih]

/-- Setting a field to a value that can be held keeps fields that can be held. -/
theorem WellFormedFields.set {fs : Fields} (h : WellFormedFields fs) (key : String) {value : Json} (hv : value.WellFormed) :
    WellFormedFields (Fields.set key value fs) := by
  induction fs with
  | nil => exact ⟨hv, trivial⟩
  | cons f fs ih =>
    unfold Fields.set
    split
    · exact ⟨hv, h⟩
    · split
      · exact ⟨hv, h.2⟩
      · exact ⟨h.1, ih h.2⟩

/-- Setting a field nests no deeper than the fields and the value do. -/
theorem depthFields_set (key : String) (value : Json) (fs : Fields) :
    depthFields (Fields.set key value fs) ≤ max value.depth (depthFields fs) := by
  induction fs with
  | nil => simp [Fields.set, depthFields]
  | cons f fs ih =>
    unfold Fields.set
    split
    · simp [depthFields]
    · split <;> simp only [depthFields] <;> omega

end Json

/-- An item that can be stored: its version is one, and its content, if it has any, is an object that can be read back. -/
structure Item.Storable (i : Item) : Prop where
  isVersion : Json.IsVersion i.version
  content : ∀ v, i.content = some v → ∃ fs, v = .obj fs ∧ v.WellFormed ∧ v.depth ≤ Json.maxDepth

/-- An item whose text can be read back: its version is one, and its content, if it has any, is an object that does not
nest too deeply once the version is written into it. -/
structure Item.Readable (i : Item) : Prop where
  isVersion : Json.IsVersion i.version
  content : ∀ v, i.content = some v →
    ∃ fs, v = .obj fs ∧ v.WellFormed ∧ (Stored.withVersion i.version v).depth ≤ Json.maxDepth

namespace Stored

open Json

/-- A value says that it is deleted exactly if it says so when it is read back. -/
theorem saysDeleted_reread (v : Json) : saysDeleted v.reread = saysDeleted v := by
  unfold saysDeleted
  rw [field?_reread]
  cases v.field? "deleted" with
  | none => rfl
  | some d => simp [bool?_reread]

/-- Writing a version into a content leaves the other fields as they are. -/
theorem field?_withVersion_of_ne {key : String} (h : key ≠ "version") (version : Int) (v : Json) :
    (withVersion version v).field? key = v.field? key := by
  cases v with
  | obj fs => simp [withVersion, field?, Fields.find?_set, h]
  | _ => rfl

/-- Whether a content says that it is deleted does not hinge on its version. -/
theorem saysDeleted_withVersion (version : Int) (v : Json) : saysDeleted (withVersion version v) = saysDeleted v := by
  unfold saysDeleted
  rw [field?_withVersion_of_ne (by decide)]

/-- The version field of an object is the version that was written into it. -/
theorem field?_withVersion (version : Int) (fs : Fields) :
    (withVersion version (.obj fs)).field? "version" = some (.int version) := by
  simp [withVersion, field?, Fields.find?_set]

/-- A content that can be read back can be with a version written into it. -/
theorem wellFormed_withVersion {version : Int} (h : IsVersion version) {v : Json} (hv : v.WellFormed) :
    (withVersion version v).WellFormed := by
  cases v with
  | obj fs => exact ⟨hv.1.set _ _, hv.2.set _ (wellFormed_int h)⟩
  | _ => exact hv

/-- With the version in it a content nests no deeper than before, or than one level. -/
theorem depth_withVersion (version : Int) (v : Json) : (withVersion version v).depth ≤ max 1 v.depth := by
  cases v with
  | obj fs =>
    have hs := depthFields_set "version" (.int version) fs
    simp only [withVersion, depth] at hs ⊢
    omega
  | _ => exact Nat.le_max_right _ _

/-! ## The texts of tombstones -/

theorem wellFormed_placeholder (key : String) {version : Int} (h : IsVersion version) :
    (placeholder key version).WellFormed := by
  refine ⟨?_, trivial, trivial, wellFormed_int h, trivial⟩
  have hdk : "deleted" < "key" := by decide
  have hdv : "deleted" < "version" := by decide
  have hkv : "key" < "version" := by decide
  simp only [Fields.Ascending, List.pairwise_cons, List.mem_cons, List.not_mem_nil, or_false, forall_eq_or_imp, forall_eq]
  exact ⟨⟨hdk, hdv⟩, hkv, fun _ h => h.elim, .nil⟩

theorem reread_placeholder (key : String) {version : Int} (h : IsVersion version) :
    (placeholder key version).reread = placeholder key version := by
  have hr := reread_int h
  simp only [placeholder, reread, rereadFields] at hr ⊢
  rw [hr]

theorem parse?_placeholder (key : String) {version : Int} (h : IsVersion version) :
    parse? (placeholder key version).text = some (placeholder key version) := by
  have hd : (placeholder key version).depth ≤ maxDepth := by
    simp [placeholder, depth, depthFields, maxDepth]
  rw [parse?_text (wellFormed_placeholder key h) hd, reread_placeholder key h]

/-- The text that stands for a deletion tells the version, and that it is one. -/
theorem versionOf_placeholder (key : String) {version : Int} (h : IsVersion version) :
    versionOf (placeholder key version).text = .ok (version, true) := by
  unfold versionOf
  rw [parse?_placeholder key h]
  simp [placeholder, field?, Fields.find?_cons, version?, h, saysDeleted, bool?]

/-! ## The texts of items -/

/-- What is read for an item's content, with the item's version in it. -/
def stamped (i : Item) (content : Json) : Json := (withVersion i.version content).reread

/-- The text of an item that can be read back is read as its content with the version in it. -/
theorem parse?_withVersion {i : Item} (hi : i.Readable) {content : Json} (hc : i.content = some content) :
    parse? (withVersion i.version content).text = some (stamped i content) := by
  obtain ⟨fs, rfl, hl, hd⟩ := hi.content content hc
  exact parse?_text (wellFormed_withVersion hi.isVersion hl) hd

/-- The text of an item that can be read back tells the version, and whether the content says that it is deleted. -/
theorem versionOf_withVersion {i : Item} (hi : i.Readable) {content : Json} (hc : i.content = some content) :
    versionOf (withVersion i.version content).text = .ok (i.version, saysDeleted content) := by
  have hp := parse?_withVersion hi hc
  obtain ⟨fs, rfl, hl, hd⟩ := hi.content content hc
  have hs : saysDeleted (stamped i (.obj fs)) = saysDeleted (.obj fs) := by
    rw [stamped, saysDeleted_reread, saysDeleted_withVersion]
  have hf : (stamped i (.obj fs)).field? "version" = some (.int i.version) := by
    rw [stamped, field?_reread, field?_withVersion, Option.map_some, reread_int hi.isVersion]
  unfold versionOf
  rw [hp]
  simp [hf, hs, version?, hi.isVersion]

/-- A content that is read as it is written is so with the version in it. -/
theorem stamped_of_exact {i : Item} (hi : i.Readable) {content : Json} (hc : i.content = some content)
    (he : content.reread = content) : stamped i content = withVersion i.version content := by
  obtain ⟨fs, rfl, -, -⟩ := hi.content content hc
  have hfs : rereadFields fs = fs := Json.obj.inj he
  rw [stamped, withVersion, reread, rereadFields_set, reread_int hi.isVersion, hfs]

/-- An item is stored under its own version. -/
theorem version_ofItem (i : Item) : (ofItem i).version = i.version := by
  unfold ofItem
  split <;> rfl

/-- The item that is read back for an item. A content that says that it is deleted is read as a tombstone. -/
def readBack (i : Item) : Item :=
  match i.content with
  | none => i
  | some content => if saysDeleted content then .tombstone i.version else ⟨i.version, some (stamped i content)⟩

/-- An item is read from every text that tells a version. -/
theorem ofText_eq {text : String} {version : Int} {deleted : Bool} (h : versionOf text = .ok (version, deleted)) :
    ofText text = .ok ⟨version, deleted, some text⟩ := by
  rw [ofText, h]
  rfl

/-- The text stored for an item is read as the item that is read back for it. -/
theorem ofText_textFor {i : Item} (hi : i.Readable) (key : String) :
    (ofText ((ofItem i).textFor key)).bind toItem = .ok (readBack i) := by
  cases hc : i.content with
  | none =>
    have ht : (ofItem i).textFor key = (placeholder key i.version).text := by simp [ofItem, hc, textFor]
    have hb : readBack i = .tombstone i.version := by
      obtain ⟨version, content⟩ := i
      obtain rfl : content = none := hc
      rfl
    rw [ht, ofText_eq (versionOf_placeholder key hi.isVersion), hb]
    rfl
  | some content =>
    have ht : (ofItem i).textFor key = (withVersion i.version content).text := by simp [ofItem, hc, textFor]
    have hs : saysDeleted (stamped i content) = saysDeleted content := by
      rw [stamped, saysDeleted_reread, saysDeleted_withVersion]
    rw [ht, ofText_eq (versionOf_withVersion hi hc)]
    simp only [Except.bind, toItem, parse?_withVersion hi hc, hs, readBack, hc]
    split <;> rfl

/-- The text stored for an item tells its version. -/
theorem versionOf_textFor {i : Item} (hi : i.Readable) (key : String) :
    ∃ deleted, versionOf ((ofItem i).textFor key) = .ok (i.version, deleted) := by
  cases hc : i.content with
  | none => exact ⟨true, by simpa [ofItem, hc, textFor] using versionOf_placeholder key hi.isVersion⟩
  | some content => exact ⟨saysDeleted content, by simpa [ofItem, hc, textFor] using versionOf_withVersion hi hc⟩

end Stored

namespace Item

/-- What can be stored can be read back. -/
theorem Storable.readable {i : Item} (h : i.Storable) : i.Readable := by
  refine ⟨h.isVersion, ?_⟩
  intro v hv
  obtain ⟨fs, rfl, hw, hd⟩ := h.content v hv
  have hdepth := Stored.depth_withVersion i.version (.obj fs)
  exact ⟨fs, rfl, hw, by simp only [Json.maxDepth] at hd ⊢; omega⟩

end Item

/-! ## Texts that tell no version -/

namespace Item

/-- An item that a program can hold. -/
structure WellFormed (i : Item) : Prop where
  isVersion : Json.IsVersion i.version
  content : ∀ v, i.content = some v → v.WellFormed

/-- An item whose text is read as JSON. -/
structure Writable (i : Item) : Prop where
  isVersion : Json.IsVersion i.version
  content : ∀ v, i.content = some v → v.WellFormed ∧ v.depth ≤ Json.maxDepth

/-- There is a place for the version: the item is a tombstone or an object. -/
def Stampable (i : Item) : Prop := ∀ v, i.content = some v → ∃ fs, v = .obj fs

theorem Writable.wellFormed {i : Item} (h : i.Writable) : i.WellFormed := ⟨h.isVersion, fun v hv => (h.content v hv).1⟩

/-- A tombstone or an object whose text is read as JSON can be stored. -/
theorem Writable.storable {i : Item} (h : i.Writable) (hs : i.Stampable) : i.Storable := by
  refine ⟨h.isVersion, ?_⟩
  intro v hv
  obtain ⟨fs, rfl⟩ := hs v hv
  exact ⟨fs, rfl, h.content _ hv⟩

/-- An item that can be read back has a place for the version. -/
theorem Readable.stampable {i : Item} (h : i.Readable) : i.Stampable := by
  intro v hv
  obtain ⟨fs, hfs, -⟩ := h.content v hv
  exact ⟨fs, hfs⟩

end Item

namespace Stored

open Json

/-- The text of an item that is neither a tombstone nor an object, or of one that nests too deeply, tells no version. -/
theorem versionOf_of_not_readable {i : Item} (h : i.WellFormed) (hn : ¬i.Readable) (key : String) :
    ∃ e, versionOf ((ofItem i).textFor key) = .error e := by
  obtain ⟨v, hv, hbad⟩ : ∃ v, i.content = some v ∧
      ¬∃ fs, v = .obj fs ∧ v.WellFormed ∧ (withVersion i.version v).depth ≤ maxDepth := by
    by_contra hall
    exact hn ⟨h.isVersion, fun v hv => by_contra fun hbad => hall ⟨v, hv, hbad⟩⟩
  have ht : (ofItem i).textFor key = (withVersion i.version v).text := by simp [ofItem, hv, textFor]
  have hw := wellFormed_withVersion h.isVersion (h.content v hv)
  by_cases hd : (withVersion i.version v).depth ≤ maxDepth
  · have hf : (withVersion i.version v).reread.field? "version" = none := by
      cases v with
      | obj fs => exact absurd ⟨fs, rfl, h.content _ hv, hd⟩ hbad
      | _ => rfl
    exact ⟨.noVersion (withVersion i.version v).text, by rw [ht, versionOf, parse?_text hw hd]; simp [hf]⟩
  · exact ⟨.unreadable, by rw [ht, versionOf, parse?_text_eq_none hw (Nat.lt_of_not_le hd)]⟩

end Stored

end FlagDelivery
