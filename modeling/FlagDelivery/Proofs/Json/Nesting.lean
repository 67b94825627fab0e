import FlagDelivery.Proofs.Json.Parsed

/-!
# Values that nest too deeply

A reader that allows deeper nesting reads whatever one that allows less reads, and reads it alike:
`Json.covers_readValue`. So a value's text is read at all exactly if the value nests no deeper than is read:
`Json.parse?_text_eq_none`.
-/

namespace FlagDelivery

namespace Json

open Token

/-- What one reader reads the other reads alike. -/
def Covers {α : Type} (read read' : Reader α) : Prop := ∀ ⦃ts r⦄, read ts = some r → read' ts = some r

/-- If one reader of values reads all that another one does, so do the readers of items made of them. -/
theorem covers_readItems {value value' : Reader Json} (h : Covers value value') (fuel : Nat) :
    Covers (readItems value fuel) (readItems value' fuel) := by
  intro ts r hr
  fun_induction readItems value fuel ts generalizing r with
  | case1 =>
    rw [readItems]
    exact hr
  | case2 fuel ts ih =>
    obtain ⟨⟨v, ts₁⟩, hv, hr⟩ := Option.bind_eq_some_iff.mp hr
    obtain ⟨⟨vs, ts₂⟩, hvs, hr⟩ := Option.bind_eq_some_iff.mp hr
    rw [readItems]
    exact Option.bind_eq_some_iff.mpr ⟨_, h hv, Option.bind_eq_some_iff.mpr ⟨_, ih ts₁ hvs, hr⟩⟩
  | case3 => cases hr

/-- If one reader of values reads all that another one does, so do the readers of a field. -/
theorem covers_readField {value value' : Reader Json} (h : Covers value value') :
    Covers (readField value) (readField value') := by
  intro ts r hr
  unfold readField at hr ⊢
  split at hr
  · obtain ⟨⟨v, ts₁⟩, hv, hr⟩ := Option.map_eq_some_iff.mp hr
    exact Option.map_eq_some_iff.mpr ⟨_, h hv, hr⟩
  · cases hr

theorem covers_readFields {value value' : Reader Json} (h : Covers value value') (fuel : Nat) :
    Covers (readFields value fuel) (readFields value' fuel) := by
  intro ts r hr
  fun_induction readFields value fuel ts generalizing r with
  | case1 =>
    rw [readFields]
    exact hr
  | case2 fuel ts ih =>
    obtain ⟨⟨f, ts₁⟩, hf, hr⟩ := Option.bind_eq_some_iff.mp hr
    obtain ⟨⟨fs, ts₂⟩, hfs, hr⟩ := Option.bind_eq_some_iff.mp hr
    rw [readFields]
    exact Option.bind_eq_some_iff.mpr ⟨_, covers_readField h hf, Option.bind_eq_some_iff.mpr ⟨_, ih ts₁ hfs, hr⟩⟩
  | case3 => cases hr

/-- What is read with a bound on the depth is read with the next higher one. -/
theorem covers_readValue (bound : Nat) : Covers (readValue bound) (readValue (bound + 1)) := by
  induction bound using Nat.strong_induction_on with
  | _ bound ih =>
    intro ts r
    fun_cases readValue bound ts with
    | case6 bound ts hne =>
      intro hr
      have hbelow := ih bound (Nat.lt_succ_self bound)
      obtain ⟨⟨v, ts₁⟩, hv, hr⟩ := Option.bind_eq_some_iff.mp hr
      obtain ⟨⟨vs, ts₂⟩, hvs, hr⟩ := Option.bind_eq_some_iff.mp hr
      rw [readValue]
      · exact Option.bind_eq_some_iff.mpr ⟨_, hbelow hv, Option.bind_eq_some_iff.mpr ⟨_, covers_readItems hbelow _ hvs, hr⟩⟩
      · exact hne
    | case8 bound ts hne =>
      intro hr
      have hbelow := ih bound (Nat.lt_succ_self bound)
      obtain ⟨⟨f, ts₁⟩, hf, hr⟩ := Option.bind_eq_some_iff.mp hr
      obtain ⟨⟨fs, ts₂⟩, hfs, hr⟩ := Option.bind_eq_some_iff.mp hr
      rw [readValue]
      · exact Option.bind_eq_some_iff.mpr ⟨_, covers_readField hbelow hf,
          Option.bind_eq_some_iff.mpr ⟨_, covers_readFields hbelow _ hfs, hr⟩⟩
      · exact hne
    | case9 =>
      intro hr
      cases hr
    -- a value without parts is read alike whatever the bound
    | _ =>
      intro hr
      rw [readValue]
      exact hr

/-- What is read with a bound on the depth is read with every higher one. -/
theorem readValue_mono {bound bound' : Nat} (h : bound ≤ bound') : Covers (readValue bound) (readValue bound') := by
  induction h with
  | refl => exact fun _ _ => id
  | step _ ih => exact fun ts r hr => covers_readValue _ (ih hr)

mutual

/-- A value that is read back nests as deeply as what was written. -/
theorem depth_reread : ∀ v : Json, v.reread.depth = v.depth
  | .null | .bool _ | .num _ | .str _ => rfl
  | .arr vs => congrArg (· + 1) (depth_rereadItems vs)
  | .obj fs => congrArg (· + 1) (depth_rereadFields fs)

theorem depth_rereadItems : ∀ vs : List Json, depthItems (rereadItems vs) = depthItems vs
  | [] => rfl
  | v :: vs => congrArg₂ max (depth_reread v) (depth_rereadItems vs)

theorem depth_rereadFields : ∀ fs : Fields, depthFields (rereadFields fs) = depthFields fs
  | [] => rfl
  | (_, v) :: fs => congrArg₂ max (depth_reread v) (depth_rereadFields fs)

end

/-- The text of a value that nests too deeply is not read. -/
theorem parse?_text_eq_none {v : Json} (hv : v.WellFormed) (hd : maxDepth < v.depth) : parse? v.text = none := by
  by_contra hread
  obtain ⟨w, hw⟩ := Option.ne_none_iff_exists'.mp hread
  have hscan : scan? v.text.toList = some v.reread.tokens := by
    simpa [chars, text] using scan?_tokens v hv breaks_nil scan?_nil
  obtain ⟨ts, hts, hrest⟩ := Option.bind_eq_some_iff.mp hw
  obtain rfl : v.reread.tokens = ts := Option.some.inj (hscan.symm.trans hts)
  obtain ⟨⟨w', rest⟩, hvalue, -⟩ := Option.bind_eq_some_iff.mp hrest
  -- With enough depth the tokens are read as the value, so what was read with less is the value too.
  have hdeep : readValue v.depth v.reread.tokens = some (v.reread, []) := by
    simpa using readValue_tokens v hv v.depth (Nat.le_refl _) []
  have hsame : w' = v.reread :=
    (Prod.mk.inj (Option.some.inj ((readValue_mono (Nat.le_of_lt hd) hvalue).symm.trans hdeep))).1
  have hshallow : w'.depth ≤ maxDepth := (yields_readValue maxDepth (fit_scanFrom? hscan) hvalue).1.2
  rw [hsame, depth_reread] at hshallow
  exact Nat.lt_irrefl _ (Nat.lt_of_lt_of_le hd hshallow)

end Json

end FlagDelivery
