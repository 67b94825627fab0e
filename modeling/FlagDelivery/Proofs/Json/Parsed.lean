import FlagDelivery.Proofs.Json.Reading

/-!
# What is read can be held

`Json.wellFormed_of_parse?` says that every value that is read from a text is one that a program can hold, and no deeper
than the reader allows.
-/

namespace FlagDelivery

namespace Number

/-- A number that is read fits 64 bits. -/
theorem fits_of_ofChars? {cs : List Char} {n : Number} (h : ofChars? cs = some n) : n.Fits := by
  obtain ⟨l, -, h⟩ := Option.bind_eq_some_iff.mp h
  have hfloat : l.float? = some n → n.Fits := by
    intro h
    obtain ⟨x, -, rfl⟩ := Option.map_eq_some_iff.mp h
    trivial
  unfold Literal.number? at h
  cases hneg : l.negative <;> simp only [hneg, if_true, Bool.false_eq_true, if_false] at h
  · by_cases hc : l.fraction.isNone = true ∧ l.exponent.isNone = true ∧ ¬(False ∧ ofDigits l.whole = 0) ∧
        ofDigits l.whole ≤ greatest
    · rw [if_pos hc] at h
      obtain rfl := Option.some.inj h
      have hle := hc.2.2.2
      rw [greatest] at hle
      exact ⟨by omega, by omega⟩
    · rw [if_neg hc] at h
      exact hfloat h
  · by_cases hc : l.fraction.isNone = true ∧ l.exponent.isNone = true ∧ ¬(True ∧ ofDigits l.whole = 0) ∧
        ofDigits l.whole ≤ 9223372036854775808
    · rw [if_pos hc] at h
      obtain rfl := Option.some.inj h
      have hle := hc.2.2.2
      exact ⟨by omega, by omega⟩
    · rw [if_neg hc] at h
      exact hfloat h

end Number

namespace Token

/-- All numbers among the tokens fit 64 bits. -/
def Fit (ts : List Token) : Prop := ∀ n, .num n ∈ ts → n.Fits

/-- If all numbers among tokens fit, so do those after the first token. -/
theorem Fit.tail {t : Token} {ts : List Token} (h : Fit (t :: ts)) : Fit ts := fun n hn => h n (List.mem_cons_of_mem _ hn)

theorem ofMark?_ne_num (c : Char) (n : Number) : ofMark? c ≠ some (.num n) := by
  intro h
  rw [ofMark?] at h
  split_ifs at h <;> cases h

theorem ofWord?_ne_num (cs : List Char) (n : Number) : ofWord? cs ≠ some (.num n) := by
  intro h
  rw [ofWord?] at h
  split_ifs at h <;> cases h

/-- A number that comes next in a text fits. -/
theorem fits_next? {c : Char} {cs : List Char} {n : Number} {rest : List Char} (h : next? c cs = some (.num n, rest)) :
    n.Fits := by
  rw [next?] at h
  cases hm : ofMark? c with
  | some t =>
    rw [hm] at h
    obtain rfl : t = .num n := congrArg Prod.fst (Option.some.inj h)
    exact absurd hm (ofMark?_ne_num c n)
  | none =>
    rw [hm] at h
    simp only at h
    split at h
    · obtain ⟨r, -, he⟩ := Option.map_eq_some_iff.mp h
      cases he
    · split at h
      · obtain ⟨t, ht, he⟩ := Option.map_eq_some_iff.mp h
        obtain rfl : t = .num n := congrArg Prod.fst he
        exact absurd ht (ofWord?_ne_num _ n)
      · obtain ⟨m, hm, he⟩ := Option.map_eq_some_iff.mp h
        obtain rfl : m = n := Token.num.inj (congrArg Prod.fst he)
        exact Number.fits_of_ofChars? hm

/-- All numbers of a text that is scanned fit. -/
theorem fit_scanFrom? {fuel : Nat} {cs : List Char} {ts : List Token} (h : scanFrom? fuel cs = some ts) : Fit ts := by
  induction fuel generalizing cs ts with
  | zero =>
    cases cs with
    | nil =>
      obtain rfl := Option.some.inj h
      intro n hn
      exact absurd hn List.not_mem_nil
    | cons c cs => cases h
  | succ fuel ih =>
    cases cs with
    | nil =>
      obtain rfl := Option.some.inj h
      intro n hn
      exact absurd hn List.not_mem_nil
    | cons c cs =>
      rw [scanFrom?] at h
      split at h
      · exact ih h
      · obtain ⟨⟨t, rest⟩, ht, h⟩ := Option.bind_eq_some_iff.mp h
        obtain ⟨us, hus, h⟩ := Option.bind_eq_some_iff.mp h
        obtain rfl := Option.some.inj h
        rintro n (_ | ⟨_, hn⟩)
        · exact fits_next? ht
        · exact ih hus n hn

end Token

namespace Json

open Token

/-- Items can be held exactly if each can. -/
theorem wellFormedItems_iff {vs : List Json} : WellFormedItems vs ↔ ∀ v ∈ vs, v.WellFormed := by
  induction vs with
  | nil => simp [WellFormedItems]
  | cons v vs ih => simp [WellFormedItems, ih]

/-- Fields can be held exactly if the value of each can. -/
theorem wellFormedFields_iff {fs : Fields} : WellFormedFields fs ↔ ∀ f ∈ fs, f.2.WellFormed := by
  induction fs with
  | nil => simp [WellFormedFields]
  | cons f fs ih => simp [WellFormedFields, ih]

/-- Items nest within a bound exactly if each does. -/
theorem depthItems_le_iff {vs : List Json} {n : Nat} : depthItems vs ≤ n ↔ ∀ v ∈ vs, v.depth ≤ n := by
  induction vs with
  | nil => simp [depthItems]
  | cons v vs ih => simp [depthItems, ih]

/-- Fields nest within a bound exactly if the value of each does. -/
theorem depthFields_le_iff {fs : Fields} {n : Nat} : depthFields fs ≤ n ↔ ∀ f ∈ fs, f.2.depth ≤ n := by
  induction fs with
  | nil => simp [depthFields]
  | cons f fs ih => simp [depthFields, ih]

/-- A reader gives values with a property, and leaves tokens whose numbers fit. -/
def Yields {α : Type} (read : Reader α) (p : α → Prop) : Prop :=
  ∀ ⦃ts a rest⦄, Fit ts → read ts = some (a, rest) → p a ∧ Fit rest

/-- What holds of each value that is read holds of all items that are read. -/
theorem yields_readItems {value : Reader Json} {p : Json → Prop} (h : Yields value p) (fuel : Nat) :
    Yields (readItems value fuel) fun vs => ∀ v ∈ vs, p v := by
  intro ts vs rest ht hr
  fun_induction readItems value fuel ts generalizing vs rest with
  | case1 =>
    obtain ⟨rfl, rfl⟩ := Prod.mk.inj (Option.some.inj hr)
    exact ⟨by simp, ht.tail⟩
  | case2 fuel ts ih =>
    obtain ⟨⟨v, ts₁⟩, hv, hr⟩ := Option.bind_eq_some_iff.mp hr
    obtain ⟨⟨vs', ts₂⟩, hvs, hr⟩ := Option.bind_eq_some_iff.mp hr
    obtain ⟨rfl, rfl⟩ := Prod.mk.inj (Option.some.inj hr)
    obtain ⟨hp, ht₁⟩ := h ht.tail hv
    obtain ⟨hps, ht₂⟩ := ih ts₁ ht₁ hvs
    exact ⟨List.forall_mem_cons.mpr ⟨hp, hps⟩, ht₂⟩
  | case3 => cases hr

/-- What holds of each value that is read holds of the value of a field that is read. -/
theorem yields_readField {value : Reader Json} {p : Json → Prop} (h : Yields value p) :
    Yields (readField value) fun f => p f.2 := by
  intro ts f rest ht hr
  unfold readField at hr
  split at hr
  · obtain ⟨⟨v, ts₁⟩, hv, hr⟩ := Option.map_eq_some_iff.mp hr
    obtain ⟨rfl, rfl⟩ := Prod.mk.inj hr
    exact h ht.tail.tail hv
  · cases hr

/-- What holds of each value that is read holds of the values of all fields that are read. -/
theorem yields_readFields {value : Reader Json} {p : Json → Prop} (h : Yields value p) (fuel : Nat) :
    Yields (readFields value fuel) fun fs => ∀ f ∈ fs, p f.2 := by
  intro ts fs rest ht hr
  fun_induction readFields value fuel ts generalizing fs rest with
  | case1 =>
    obtain ⟨rfl, rfl⟩ := Prod.mk.inj (Option.some.inj hr)
    exact ⟨by simp, ht.tail⟩
  | case2 fuel ts ih =>
    obtain ⟨⟨f, ts₁⟩, hf, hr⟩ := Option.bind_eq_some_iff.mp hr
    obtain ⟨⟨fs', ts₂⟩, hfs, hr⟩ := Option.bind_eq_some_iff.mp hr
    obtain ⟨rfl, rfl⟩ := Prod.mk.inj (Option.some.inj hr)
    obtain ⟨hp, ht₁⟩ := yields_readField h ht.tail hf
    obtain ⟨hps, ht₂⟩ := ih ts₁ ht₁ hfs
    exact ⟨List.forall_mem_cons.mpr ⟨hp, hps⟩, ht₂⟩
  | case3 => cases hr

/-- A value that is read is well-formed and nests no deeper than the bound. -/
theorem yields_readValue (bound : Nat) : Yields (readValue bound) fun v => v.WellFormed ∧ v.depth ≤ bound := by
  induction bound using Nat.strong_induction_on with
  | _ bound ih =>
    intro ts v rest ht
    fun_cases readValue bound ts with
    | case6 bound ts =>
      intro hr
      obtain ⟨⟨v', ts₁⟩, hv, hr⟩ := Option.bind_eq_some_iff.mp hr
      obtain ⟨⟨vs, ts₂⟩, hvs, hr⟩ := Option.bind_eq_some_iff.mp hr
      obtain ⟨rfl, rfl⟩ := Prod.mk.inj (Option.some.inj hr)
      have hbelow := ih bound (Nat.lt_succ_self bound)
      obtain ⟨⟨hwf, hd⟩, ht₁⟩ := hbelow ht.tail hv
      obtain ⟨hall, ht₂⟩ := yields_readItems hbelow ts₁.length ht₁ hvs
      have hitems : ∀ w ∈ v' :: vs, w.WellFormed ∧ w.depth ≤ bound := List.forall_mem_cons.mpr ⟨⟨hwf, hd⟩, hall⟩
      have hdepth : depthItems (v' :: vs) ≤ bound := depthItems_le_iff.mpr fun w hw => (hitems w hw).2
      exact ⟨⟨wellFormedItems_iff.mpr fun w hw => (hitems w hw).1, by rw [depth]; omega⟩, ht₂⟩
    | case8 bound ts =>
      intro hr
      obtain ⟨⟨f, ts₁⟩, hf, hr⟩ := Option.bind_eq_some_iff.mp hr
      obtain ⟨⟨fs, ts₂⟩, hfs, hr⟩ := Option.bind_eq_some_iff.mp hr
      obtain ⟨rfl, rfl⟩ := Prod.mk.inj (Option.some.inj hr)
      have hbelow := ih bound (Nat.lt_succ_self bound)
      obtain ⟨hone, ht₁⟩ := yields_readField hbelow ht.tail hf
      obtain ⟨hall, ht₂⟩ := yields_readFields hbelow ts₁.length ht₁ hfs
      have hread : ∀ g ∈ f :: fs, g.2.WellFormed ∧ g.2.depth ≤ bound := List.forall_mem_cons.mpr ⟨hone, hall⟩
      have hfields : ∀ g ∈ Fields.ofList (f :: fs), g.2.WellFormed ∧ g.2.depth ≤ bound := fun g hg =>
        hread g (Fields.mem_of_mem_ofList hg)
      have hdepth : depthFields (Fields.ofList (f :: fs)) ≤ bound := depthFields_le_iff.mpr fun g hg => (hfields g hg).2
      exact ⟨⟨⟨Fields.ascending_ofList _, wellFormedFields_iff.mpr fun g hg => (hfields g hg).1⟩,
        by rw [mkObj, depth]; omega⟩, ht₂⟩
    | case3 bound n ts =>
      intro hr
      obtain ⟨rfl, rfl⟩ := Prod.mk.inj (Option.some.inj hr)
      exact ⟨⟨ht n List.mem_cons_self, Nat.zero_le _⟩, ht.tail⟩
    | case5 bound ts =>
      intro hr
      obtain ⟨rfl, rfl⟩ := Prod.mk.inj (Option.some.inj hr)
      exact ⟨⟨trivial, Nat.succ_le_succ (Nat.zero_le _)⟩, ht.tail.tail⟩
    | case7 bound ts =>
      intro hr
      obtain ⟨rfl, rfl⟩ := Prod.mk.inj (Option.some.inj hr)
      exact ⟨⟨⟨List.Pairwise.nil, trivial⟩, Nat.succ_le_succ (Nat.zero_le _)⟩, ht.tail.tail⟩
    | case9 =>
      intro hr
      exact absurd hr (by simp)
    -- the end of a value that has no parts
    | _ =>
      intro hr
      obtain ⟨rfl, rfl⟩ := Prod.mk.inj (Option.some.inj hr)
      exact ⟨⟨trivial, Nat.zero_le _⟩, ht.tail⟩

/-- A value that is read can be held by a program. -/
theorem wellFormed_of_parse? {text : String} {v : Json} (h : parse? text = some v) : v.WellFormed ∧ v.depth ≤ maxDepth := by
  obtain ⟨ts, hts, h⟩ := Option.bind_eq_some_iff.mp h
  obtain ⟨⟨v', rest⟩, hv, h⟩ := Option.bind_eq_some_iff.mp h
  obtain ⟨hwf, -⟩ := yields_readValue maxDepth (fit_scanFrom? hts) hv
  cases rest with
  | nil =>
    obtain rfl : v' = v := Option.some.inj h
    exact hwf
  | cons t rest => cases h

end Json

end FlagDelivery
