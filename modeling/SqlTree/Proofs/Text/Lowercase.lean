import Mathlib.Data.List.TakeWhile
import SqlTree.Text.Ascii
import SqlTree.Text.Lowercase

/-!
# Lowercase and numbers behind names

Names are told apart by their lowercase, and a name is made different from others by a number behind
it. Two facts make that work.

* `lower_eq_of_asciiLower_eq`: names that are equal up to ASCII case have one lowercase.
* `lower_numbered_injective`: a name with two different numbers behind it has two lowercases. What
  stands in front of the number may differ, since the part set apart does, but not its length.
-/

namespace SqlTree

namespace Text

/-! ## ASCII letters -/

/-- The capitals `A` to `Z`. -/
def asciiCapitals : List Char := "ABCDEFGHIJKLMNOPQRSTUVWXYZ".toList

theorem mem_asciiCapitals_or_toLower_eq (c : Char) : c ∈ asciiCapitals ∨ c.toLower = c := by
  unfold Char.toLower
  split
  case isFalse h => exact .inr rfl
  case isTrue h =>
    left
    obtain ⟨hA, hZ⟩ := h
    have hlow : 65 ≤ c.toNat := hA
    have hhigh : c.toNat ≤ 90 := hZ
    have hc : c = Char.ofNat c.toNat := (Char.ofNat_toNat c).symm
    rw [hc]
    generalize c.toNat = n at hlow hhigh
    have all : ∀ k < 26, Char.ofNat (65 + k) ∈ asciiCapitals := by decide
    have hn := all (n - 65) (by omega)
    rwa [show 65 + (n - 65) = n by omega] at hn

/-- What is read off characters is the same for a capital and its small letter when it is for the
capitals `A` to `Z`. -/
theorem apply_toLower {β : Type} {p : Char → β}
    (h : asciiCapitals.map (fun c => p c.toLower) = asciiCapitals.map p) (c : Char) :
    p c.toLower = p c := by
  rcases mem_asciiCapitals_or_toLower_eq c with hc | hc
  · exact List.map_inj_left.1 h c hc
  · rw [hc]

/-- What the tables of cases say of a character. -/
def caseTraits (c : Char) : Char × Bool × Bool := (smallForm c, isCased c, isCaseIgnorable c)

theorem caseTraits_toLower (c : Char) : caseTraits c.toLower = caseTraits c :=
  apply_toLower (by decide +kernel) c

@[simp] theorem smallForm_toLower (c : Char) : smallForm c.toLower = smallForm c :=
  congrArg (·.1) (caseTraits_toLower c)

@[simp] theorem isCased_toLower (c : Char) : isCased c.toLower = isCased c :=
  congrArg (·.2.1) (caseTraits_toLower c)

@[simp] theorem isCaseIgnorable_toLower (c : Char) :
    isCaseIgnorable c.toLower = isCaseIgnorable c :=
  congrArg (·.2.2) (caseTraits_toLower c)

@[simp] theorem isAscii_toLower (c : Char) : isAscii c.toLower = isAscii c :=
  apply_toLower (by decide) c

@[simp] theorem toLower_eq_sigma (c : Char) : c.toLower = 'Σ' ↔ c = 'Σ' := by
  have h := apply_toLower (p := fun c => decide (c = 'Σ')) (by decide) c
  simpa using h

@[simp] theorem toLower_eq_dotted (c : Char) : c.toLower = 'İ' ↔ c = 'İ' := by
  have h := apply_toLower (p := fun c => decide (c = 'İ')) (by decide) c
  simpa using h

@[simp] theorem meetsCased_map_toLower (cs : List Char) :
    meetsCased (cs.map Char.toLower) = meetsCased cs := by
  have hfind : (cs.map Char.toLower).find? (!isCaseIgnorable ·) =
      (cs.find? (!isCaseIgnorable ·)).map Char.toLower := by
    rw [List.find?_map]
    congr 2
    funext c
    simp
  unfold meetsCased
  rw [hfind]
  cases cs.find? (!isCaseIgnorable ·) <;> simp

theorem lowerFrom_map_toLower (before cs : List Char) :
    lowerFrom (before.map Char.toLower) (cs.map Char.toLower) = lowerFrom before cs := by
  induction cs generalizing before with
  | nil => rfl
  | cons c rest ih =>
    have hrest := ih (c :: before)
    rw [List.map_cons] at hrest
    simp only [List.map_cons, lowerFrom, hrest, smallSigma, meetsCased_map_toLower,
      toLower_eq_sigma, toLower_eq_dotted, smallForm_toLower]

theorem lead_map_toLower (cs : List Char) : lead (cs.map Char.toLower) = lead cs := by
  have h : isAscii ∘ Char.toLower = isAscii := by
    funext c
    simp
  rw [lead, lead, List.takeWhile_map, List.length_map, h]

theorem asciiLower_asciiLower (s : String) : asciiLower (asciiLower s) = asciiLower s := by
  have h : Char.toLower ∘ Char.toLower = Char.toLower :=
    funext fun c => apply_toLower (by decide) c
  simp only [asciiLower, String.toList_ofList, List.map_map, h]

theorem length_asciiLower (s : String) : (asciiLower s).length = s.length := by
  rw [asciiLower, String.length_ofList, List.length_map, String.length_toList]

theorem asciiLower_append (s t : String) : asciiLower (s ++ t) = asciiLower s ++ asciiLower t := by
  rw [asciiLower, String.toList_append, List.map_append, String.ofList_append]
  rfl

/-- Small letters make no difference to the lowercase. -/
theorem lower_asciiLower (s : String) : lower (asciiLower s) = lower s := by
  have hsmall : smallForm ∘ Char.toLower = smallForm := by
    funext c
    simp
  have hrest := lowerFrom_map_toLower [] (s.toList.drop (lead s.toList))
  rw [List.map_nil] at hrest
  simp only [lower, asciiLower, String.toList_ofList, lead_map_toLower, ← List.map_take,
    ← List.map_drop, List.map_map, hsmall, hrest]

/-- **Names that are equal up to ASCII case have one lowercase.** -/
theorem lower_eq_of_asciiLower_eq {s t : String} (h : asciiLower s = asciiLower t) :
    lower s = lower t := by
  rw [← lower_asciiLower s, h, lower_asciiLower]

/-! ## Numbers -/

/-- The length of the lowercase of characters. -/
def lowerLength : List Char → Nat
  | [] => 0
  | c :: rest => (if c = 'İ' then 2 else 1) + lowerLength rest

theorem smallForm_digit {c : Char} (h : c.isDigit) : smallForm c = c ∧ c ≠ 'Σ' ∧ c ≠ 'İ' := by
  have hlow : 48 ≤ c.toNat := by
    simp only [Char.isDigit, Bool.and_eq_true, decide_eq_true_eq] at h
    exact h.1
  have hhigh : c.toNat ≤ 57 := by
    simp only [Char.isDigit, Bool.and_eq_true, decide_eq_true_eq] at h
    exact h.2
  have all : ∀ k < 10, smallForm (Char.ofNat (48 + k)) = Char.ofNat (48 + k) ∧
      Char.ofNat (48 + k) ≠ 'Σ' ∧ Char.ofNat (48 + k) ≠ 'İ' := by decide +kernel
  have hc := all (c.toNat - 48) (by omega)
  rwa [show 48 + (c.toNat - 48) = c.toNat by omega, Char.ofNat_toNat] at hc

variable {ds : List Char}

theorem map_smallForm_digits (hds : ∀ d ∈ ds, d.isDigit) : ds.map smallForm = ds := by
  induction ds with
  | nil => rfl
  | cons d ds ih =>
    have hd := (smallForm_digit (hds d List.mem_cons_self)).1
    have hrest := ih fun e he => hds e (List.mem_cons_of_mem d he)
    rw [List.map_cons, hd, hrest]

theorem lowerFrom_digits (hds : ∀ d ∈ ds, d.isDigit) (before : List Char) :
    lowerFrom before ds = ds := by
  induction ds generalizing before with
  | nil => rfl
  | cons d ds ih =>
    obtain ⟨hsmall, hsigma, hdotted⟩ := smallForm_digit (hds d List.mem_cons_self)
    have hrest := ih (fun e he => hds e (List.mem_cons_of_mem d he)) (d :: before)
    rw [lowerFrom, if_neg hsigma, if_neg hdotted, hsmall, hrest]
    rfl

/-- Digits behind other characters stay as they are, behind a lowercase of known length. -/
theorem lowerFrom_append_digits (hds : ∀ d ∈ ds, d.isDigit) (before cs : List Char) :
    ∃ low, lowerFrom before (cs ++ ds) = low ++ ds ∧ low.length = lowerLength cs := by
  induction cs generalizing before with
  | nil => exact ⟨[], lowerFrom_digits hds before, rfl⟩
  | cons c cs ih =>
    obtain ⟨low, hlow, hlength⟩ := ih (c :: before)
    refine ⟨_ ++ low, by rw [List.cons_append, lowerFrom, hlow, ← List.append_assoc], ?_⟩
    rw [List.length_append, hlength, lowerLength]
    congr 1
    by_cases hsigma : c = 'Σ'
    · subst hsigma
      rfl
    · by_cases hdotted : c = 'İ' <;> simp [hsigma, hdotted]

/-- The same with a part set apart that does not hold a dotted capital. -/
theorem lower_parts_append_digits (hds : ∀ d ∈ ds, d.isDigit) (cs : List Char) (k : Nat)
    (hk : 'İ' ∉ (cs ++ ds).take k) :
    ∃ low, ((cs ++ ds).take k).map smallForm ++ lowerFrom [] ((cs ++ ds).drop k) = low ++ ds ∧
      low.length = lowerLength cs := by
  induction cs generalizing k with
  | nil =>
    have hfirst : (ds.take k).map smallForm = ds.take k :=
      map_smallForm_digits fun d hd => hds d (List.mem_of_mem_take hd)
    have hrest : lowerFrom [] (ds.drop k) = ds.drop k :=
      lowerFrom_digits (fun d hd => hds d (List.mem_of_mem_drop hd)) []
    refine ⟨[], ?_, rfl⟩
    rw [List.nil_append, hfirst, hrest, List.take_append_drop]
  | cons c cs ih =>
    cases k with
    | zero => exact lowerFrom_append_digits hds [] (c :: cs)
    | succ k =>
      simp only [List.cons_append, List.take_succ_cons, List.mem_cons, not_or] at hk
      obtain ⟨low, hlow, hlength⟩ := ih k hk.2
      refine ⟨smallForm c :: low, ?_, ?_⟩
      · simp only [List.cons_append, List.take_succ_cons, List.drop_succ_cons, List.map_cons, hlow]
      · rw [List.length_cons, hlength, lowerLength, if_neg (Ne.symm hk.1), Nat.add_comm]

theorem dotted_not_mem_take_lead (cs : List Char) : 'İ' ∉ cs.take (lead cs) := by
  intro h
  have hlead : lead cs ≤ (cs.takeWhile isAscii).length := Nat.div_mul_le_self _ 16
  have hfirst : cs.takeWhile isAscii = cs.take (cs.takeWhile isAscii).length :=
    List.prefix_iff_eq_take.1 (List.takeWhile_prefix isAscii)
  have hmem : 'İ' ∈ cs.takeWhile isAscii := by
    rw [hfirst]
    exact (List.take_subset_take_left cs hlead) h
  have hascii := List.mem_takeWhile_imp hmem
  exact absurd hascii (by decide)

theorem isDigit_of_mem_toString {n : Nat} {c : Char} (h : c ∈ (toString n).toList) :
    c.isDigit := by
  rw [Nat.toString_eq_repr, Nat.toList_repr] at h
  exact Nat.isDigit_of_mem_toDigits (by decide) (by decide) h

/-- A name with different numbers behind it has different lowercases. -/
theorem lower_numbered_injective (name : String) :
    Function.Injective fun n : Nat => lower (name ++ toString n) := by
  have parts : ∀ n : Nat, ∃ low, (lower (name ++ toString n)).toList = low ++ (toString n).toList ∧
      low.length = lowerLength name.toList := by
    intro n
    have hds : ∀ d ∈ (toString n).toList, d.isDigit := fun d hd => isDigit_of_mem_toString hd
    have hdotted := dotted_not_mem_take_lead (name.toList ++ (toString n).toList)
    simpa only [lower, String.toList_append, String.toList_ofList] using
      lower_parts_append_digits hds name.toList _ hdotted
  intro m n h
  obtain ⟨low, hm, hlength⟩ := parts m
  obtain ⟨low', hn, hlength'⟩ := parts n
  have hlists : low ++ (toString m).toList = low' ++ (toString n).toList := by
    rw [← hm, ← hn]
    exact congrArg String.toList h
  have hdigits := (List.append_inj hlists (hlength.trans hlength'.symm)).2
  simp only [Nat.toString_eq_repr, Nat.toList_repr] at hdigits
  have hread := congrArg (Nat.ofDigitChars 10 · 0) hdigits
  simpa using hread

end Text

end SqlTree
