import FlagDelivery.Proofs.Item.Stored

/-!
# Items come back from their texts

An item is stored as a text, and what is read back for it is the item itself with its version written into its content,
or a tombstone where its content says that it is deleted: `Stored.comesBack`. It comes back the same way from its stored
form directly. An item that came back once is stored and read back without any further change, as far as its numbers are
read as they are written. Nothing comes back for an item that nests too deeply once the version is in it.
-/

namespace FlagDelivery

namespace Fields

/-- Setting a key to the value that it has been set to changes nothing. -/
theorem set_set (key : String) (value value' : Json) (fs : Fields) :
    set key value (set key value' fs) = set key value fs := by
  induction fs with
  | nil => simp [set]
  | cons f fs ih =>
    obtain ⟨k, v⟩ := f
    by_cases hlt : key < k
    · simp [set, hlt]
    · by_cases heq : key = k
      · simp [set, heq]
      · simp [set, hlt, heq, ih]

end Fields

namespace Item

/-- The item is a tombstone, or its content says that it is deleted. -/
def isDeleted (i : Item) : Bool := i.content.all Stored.saysDeleted

/-- The item nests no deeper than is read, once its version is written into its content. -/
def Shallow (i : Item) : Prop := ∀ v, i.content = some v → (Stored.withVersion i.version v).depth ≤ Json.maxDepth

/-- An item as it comes back: with the version that it had, deleted if it was, and otherwise with its own fields, each
as it is read, but for the version, which is the item's. -/
structure ComesBackAs (read : Json → Json) (i back : Item) : Prop where
  version : back.version = i.version
  deleted : i.isDeleted = true → back.content = none
  live : i.isDeleted = false → ∃ fs fs', i.content = some (.obj fs) ∧ back.content = some (.obj fs') ∧ Fields.Ascending fs' ∧
    ∀ key, Fields.find? key fs' = if key = "version" then some (.int i.version) else (Fields.find? key fs).map read

/-- What is written for the item's content is read as it was written. -/
def ReadAsWritten (i : Item) : Prop :=
  ∀ v, i.content = some v → Json.parse? (Stored.withVersion i.version v).text = some (Stored.withVersion i.version v)

/-- An item that is not deleted has a content, which does not say that it is. -/
theorem exists_content {i : Item} (h : i.isDeleted = false) : ∃ v, i.content = some v ∧ Stored.saysDeleted v = false := by
  obtain ⟨version, content⟩ := i
  cases content with
  | none => cases h
  | some v => exact ⟨v, rfl, h⟩

/-- A tombstone can be read back. -/
theorem readable_tombstone {version : Int} (h : Json.IsVersion version) : (tombstone version).Readable := ⟨h, nofun⟩

/-- An item that is a tombstone or an object and does not nest too deeply can be read back. -/
theorem readable_of_shallow {i : Item} (h : i.WellFormed) (hs : i.Stampable) (hd : i.Shallow) : i.Readable := by
  refine ⟨h.isVersion, ?_⟩
  intro v hv
  obtain ⟨fs, hfs⟩ := hs v hv
  exact ⟨fs, hfs, h.content v hv, hd v hv⟩

end Item

namespace Stored

open Json

/-! ## What comes back -/

/-- What is deleted is read back as a tombstone of its version. -/
theorem readBack_of_isDeleted {i : Item} (h : i.isDeleted = true) : readBack i = .tombstone i.version := by
  obtain ⟨version, content⟩ := i
  cases content with
  | none => rfl
  | some v => exact if_pos h

/-- What is not deleted is read back with its version written into its content. -/
theorem readBack_of_live {i : Item} {v : Json} (hv : i.content = some v) (h : saysDeleted v = false) :
    readBack i = ⟨i.version, some (stamped i v)⟩ := by
  unfold readBack
  rw [hv]
  simp [h]

/-- The stored form and the text of it give the same item. -/
theorem toItem_ofItem {i : Item} (hi : i.Readable) : (ofItem i).toItem = .ok (readBack i) := by
  cases hc : i.content with
  | none =>
    have hb : readBack i = .tombstone i.version := readBack_of_isDeleted (by rw [Item.isDeleted, hc]; rfl)
    rw [hb, ofItem, hc]
    rfl
  | some v =>
    have hs : saysDeleted (stamped i v) = saysDeleted v := by rw [stamped, saysDeleted_reread, saysDeleted_withVersion]
    simp only [ofItem, hc, toItem, Bool.false_eq_true, if_false, parse?_withVersion hi hc, hs, readBack]

/-- The text tells the item's version and whether the item is deleted. -/
theorem versionOf_textFor_isDeleted {i : Item} (hi : i.Readable) (key : String) :
    versionOf ((ofItem i).textFor key) = .ok (i.version, i.isDeleted) := by
  cases hc : i.content with
  | none => simpa [ofItem, hc, textFor, Item.isDeleted] using versionOf_placeholder key hi.isVersion
  | some v => simpa [ofItem, hc, textFor, Item.isDeleted] using versionOf_withVersion hi hc

/-- Whatever is read back has the version that was written. -/
theorem version_readBack (i : Item) : (readBack i).version = i.version := by
  cases h : i.isDeleted with
  | true => rw [readBack_of_isDeleted h]; rfl
  | false =>
    obtain ⟨v, hv, hs⟩ := i.exists_content h
    rw [readBack_of_live hv hs]

/-- An item that can be read back comes back, with its content as the reader gives it. -/
theorem comesBackAs_readBack {i : Item} (hi : i.Readable) : i.ComesBackAs reread (readBack i) := by
  refine ⟨version_readBack i, fun h => by rw [readBack_of_isDeleted h]; rfl, ?_⟩
  intro h
  obtain ⟨v, hv, hs⟩ := i.exists_content h
  obtain ⟨fs, rfl, hw, -⟩ := hi.content v hv
  refine ⟨fs, rereadFields (Fields.set "version" (.int i.version) fs), hv, congrArg Item.content (readBack_of_live hv hs),
    ascending_rereadFields (hw.1.set _ _), ?_⟩
  intro key
  rw [find?_rereadFields, Fields.find?_set]
  split
  · rw [Option.map_some, reread_int hi.isVersion]
  · rfl

/-! ## Numbers that are read as they are written -/

/-- If the reader gives the content as it was written, only its version field may be another one. -/
theorem readBack_of_readAsWritten {i : Item} (hi : i.Readable) (he : i.ReadAsWritten) {v : Json} (hv : i.content = some v)
    (hs : saysDeleted v = false) : readBack i = ⟨i.version, some (withVersion i.version v)⟩ := by
  have hsame : stamped i v = withVersion i.version v := Option.some.inj ((parse?_withVersion hi hv).symm.trans (he v hv))
  rw [readBack_of_live hv hs, hsame]

theorem withVersion_withVersion (version : Int) (v : Json) :
    withVersion version (withVersion version v) = withVersion version v := by
  cases v with
  | obj fs => rw [withVersion, withVersion, Fields.set_set]
  | _ => rfl

/-- An item whose content the reader gives as it was written comes back as it is. -/
theorem comesBackAs_of_readAsWritten {i : Item} (hi : i.Readable) (he : i.ReadAsWritten) :
    i.ComesBackAs id (readBack i) := by
  refine ⟨version_readBack i, fun h => by rw [readBack_of_isDeleted h]; rfl, ?_⟩
  intro h
  obtain ⟨v, hv, hs⟩ := i.exists_content h
  obtain ⟨fs, rfl, hw, -⟩ := hi.content v hv
  refine ⟨fs, Fields.set "version" (.int i.version) fs, hv,
    congrArg Item.content (readBack_of_readAsWritten hi he hv hs), hw.1.set _ _, ?_⟩
  intro key
  rw [Fields.find?_set, Option.map_id]
  rfl

/-- What came back comes back as it is. -/
theorem readBack_readBack {i : Item} (hi : i.Readable) (he : i.ReadAsWritten) :
    (readBack i).Readable ∧ readBack (readBack i) = readBack i := by
  cases h : i.isDeleted with
  | true =>
    rw [readBack_of_isDeleted h]
    exact ⟨Item.readable_tombstone hi.isVersion, rfl⟩
  | false =>
    obtain ⟨v, hv, hs⟩ := i.exists_content h
    obtain ⟨fs, rfl, hw, hd⟩ := hi.content v hv
    rw [readBack_of_readAsWritten hi he hv hs]
    have hagain := withVersion_withVersion i.version (.obj fs)
    have hreadable : (⟨i.version, some (withVersion i.version (.obj fs))⟩ : Item).Readable := by
      refine ⟨hi.isVersion, ?_⟩
      rintro w ⟨⟩
      exact ⟨_, rfl, wellFormed_withVersion hi.isVersion hw, (congrArg depth hagain).trans_le hd⟩
    refine ⟨hreadable, ?_⟩
    have hwritten : (⟨i.version, some (withVersion i.version (.obj fs))⟩ : Item).ReadAsWritten := by
      rintro w ⟨⟩
      rw [hagain]
      exact he _ hv
    rw [readBack_of_readAsWritten hreadable hwritten rfl ((saysDeleted_withVersion _ _).trans hs), hagain]

/-! ## Items that nest too deeply -/

/-- An item that nests too deeply can be read back in neither form. -/
theorem unreadable_of_not_shallow {i : Item} (h : i.WellFormed) (hd : ¬i.Shallow) (key : String) :
    ofText ((ofItem i).textFor key) = .error .unreadable ∧ (ofItem i).toItem = .error .unreadable := by
  obtain ⟨v, hv, hdeep⟩ : ∃ v, i.content = some v ∧ maxDepth < (withVersion i.version v).depth := by
    by_contra hall
    exact hd fun v hv => Nat.not_lt.mp fun hlt => hall ⟨v, hv, hlt⟩
  have hnone : parse? (withVersion i.version v).text = none :=
    parse?_text_eq_none (wellFormed_withVersion h.isVersion (h.content v hv)) hdeep
  have ht : (ofItem i).textFor key = (withVersion i.version v).text := by simp [ofItem, hv, textFor]
  constructor
  · rw [ht, ofText, versionOf, hnone]
    rfl
  · simp only [ofItem, hv, toItem, Bool.false_eq_true, if_false, hnone]

/-- **Items come back from their texts**, under every key: tombstones, and objects whatever they hold, in three parts.
1. The text of an item that does not nest too deeply tells the item's version and whether it is deleted. Read back from
   the text, or taken from the stored form directly, it is the tombstone of its version if it is deleted, and otherwise
   the object with its version written into it and every other field as it is read.
2. Where what is written is read as it was written, these fields are the object's own, and the item that came back is
   written and read back as it is.
3. The text of an item that nests too deeply is not read, nor is its stored form. -/
theorem comesBack (key : String) {i : Item} (h : i.WellFormed) (hs : i.Stampable) :
    (i.Shallow → ∃ s back, ofText ((ofItem i).textFor key) = .ok s ∧ s.version = i.version ∧ s.deleted = i.isDeleted ∧
        s.toItem = .ok back ∧ (ofItem i).toItem = .ok back ∧ i.ComesBackAs reread back ∧
        (i.ReadAsWritten → i.ComesBackAs id back ∧ (ofText ((ofItem back).textFor key)).bind toItem = .ok back)) ∧
      (¬i.Shallow → ofText ((ofItem i).textFor key) = .error .unreadable ∧ (ofItem i).toItem = .error .unreadable) := by
  refine ⟨?_, fun hd => unreadable_of_not_shallow h hd key⟩
  intro hd
  have hi := Item.readable_of_shallow h hs hd
  have htext := ofText_eq (versionOf_textFor_isDeleted hi key)
  have hback := ofText_textFor hi key
  rw [htext] at hback
  refine ⟨_, readBack i, htext, rfl, rfl, hback, toItem_ofItem hi, comesBackAs_readBack hi, ?_⟩
  intro he
  obtain ⟨hreadable, hsame⟩ := readBack_readBack hi he
  exact ⟨comesBackAs_of_readAsWritten hi he, (ofText_textFor hreadable key).trans (congrArg Except.ok hsame)⟩

/-- A flag at version 3 that is not deleted, and whose content has a version of its own. -/
def misversioned : Item := ⟨3, some (.obj [("deleted", .bool false), ("on", .bool true), ("version", .str "old")])⟩

theorem wellFormed_misversioned : misversioned.WellFormed := by
  refine ⟨by decide, ?_⟩
  rintro v ⟨⟩
  refine ⟨?_, trivial, trivial, trivial, trivial⟩
  unfold Fields.Ascending
  decide

theorem readAsWritten_misversioned : misversioned.ReadAsWritten := by
  rintro v ⟨⟩
  exact parse?_text (wellFormed_withVersion (by decide) (wellFormed_misversioned.content _ rfl)) (by decide)

/-- The flag comes back with its own version in its content, and everything else as it was. -/
theorem comesBack_misversioned :
    ∃ s back, ofText ((ofItem misversioned).textFor "a") = .ok s ∧ s.version = 3 ∧ s.deleted = false ∧ s.toItem = .ok back ∧
      (∃ v, back.content = some v ∧ v.field? "version" = some (.int 3) ∧ v.field? "on" = some (.bool true)) ∧
      (ofText ((ofItem back).textFor "a")).bind toItem = .ok back := by
  have hstampable : misversioned.Stampable := by
    rintro v ⟨⟩
    exact ⟨_, rfl⟩
  have hshallow : misversioned.Shallow := by
    rintro v ⟨⟩
    decide
  obtain ⟨s, back, htext, hversion, hdeleted, hback, -, -, hexact⟩ :=
    (comesBack "a" wellFormed_misversioned hstampable).1 hshallow
  obtain ⟨⟨-, -, hlive⟩, hagain⟩ := hexact readAsWritten_misversioned
  obtain ⟨fs, fs', hfs, hfs', -, hfind⟩ := hlive rfl
  obtain rfl : [("deleted", .bool false), ("on", .bool true), ("version", .str "old")] = fs := by
    cases hfs
    rfl
  exact ⟨s, back, htext, hversion, hdeleted, hback, ⟨_, hfs', (hfind "version").trans rfl, (hfind "on").trans rfl⟩, hagain⟩

end Stored

end FlagDelivery
