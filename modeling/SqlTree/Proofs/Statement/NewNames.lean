import SqlTree.Proofs.Alias.Root
import SqlTree.Proofs.Statement.Naming
import SqlTree.Proofs.Statement.Rename

/-!
# Names in a larger statement

The sources of a statement get other names when it is part of a larger one. As every occurrence has
a name of its own in both, one name for another is a change of names that tells apart what was told
apart.

* `Context.newName` is the name in the larger statement of what goes by a name in the smaller one.
* `Context.renames_newName`: with it, the occurrences of the one are occurrences of the other
  (`Context.Renames`), and different names stay different (`RespectsNames`).
-/

namespace SqlTree

namespace Text

/-- A text longer than all of some texts. -/
def longer (xs : List String) : String := xs.foldr (· ++ ·) "_"

theorem length_longer_cons (x : String) (xs : List String) :
    (longer (x :: xs)).length = x.length + (longer xs).length := by
  rw [longer, List.foldr_cons, String.length_append]
  rfl

theorem length_lt_longer {x : String} {xs : List String} (h : x ∈ xs) :
    x.length < (longer xs).length := by
  have hpos : ∀ xs, 0 < (longer xs).length := by
    intro xs
    induction xs with
    | nil => decide
    | cons x xs ih =>
      rw [length_longer_cons]
      omega
  induction xs with
  | nil => cases h
  | cons y xs ih =>
    rw [length_longer_cons]
    rcases List.mem_cons.1 h with rfl | h
    · exact Nat.lt_add_of_pos_right (hpos xs)
    · exact Nat.lt_add_left _ (ih h)

/-- A text with a longer one in front of others is none of them. -/
theorem sameName_longer_append {x : String} {xs : List String} (h : x ∈ xs) (y : String) :
    sameName x (longer xs ++ y) = false := by
  rw [Bool.eq_false_iff]
  intro hsame
  have hlength := congrArg String.length (sameName_iff.1 hsame)
  rw [length_asciiLower, length_asciiLower, String.length_append] at hlength
  have hlt := length_lt_longer h
  omega

theorem sameName_append_left (s x y : String) : sameName (s ++ x) (s ++ y) = sameName x y := by
  rw [Bool.eq_iff_iff, sameName_iff, sameName_iff, asciiLower_append, asciiLower_append,
    String.append_right_inj]

theorem sameName_comm (x y : String) : sameName x y = sameName y x := by
  rw [Bool.eq_iff_iff, sameName_iff, sameName_iff, eq_comm]

end Text

namespace Context

variable {f g : Forest} {db : Schema} {q q' : Query} {c c' : Context} {m : Alias → Alias}
  {p p' : Alias × String} {a : Alias} {x y : String}

/-! ## Names and occurrences -/

/-- The occurrence of a name is that of a source. -/
theorem exists_source (hc : ofQuery f db q = .ok c) (hp : p ∈ c.names) :
    ∃ a ∈ q.statementAliases, f.root a = p.1 := by
  have hmem : p.1 ∈ q.statementAliases.map f.root := by
    rw [← List.mem_eraseDups, ← map_fst_names hc]
    exact List.mem_map_of_mem hp
  exact List.mem_map.1 hmem

/-- An occurrence has one name. -/
theorem eq_of_fst_eq (hc : ofQuery f db q = .ok c) (hp : p ∈ c.names) (hp' : p' ∈ c.names)
    (h : p.1 = p'.1) : p = p' := by
  have hroots : (c.names.map (·.1)).Nodup := map_fst_names hc ▸ nodup_eraseDups _
  exact List.inj_on_of_nodup_map hroots hp hp' h

/-- A name is the name of one occurrence. -/
theorem eq_of_sameName (hc : ofQuery f db q = .ok c) (hp : p ∈ c.names) (hp' : p' ∈ c.names)
    (h : Text.sameName p.2 p'.2) : p = p' := by
  obtain ⟨-, -, hnames⟩ := ofQuery_eq_ok hc
  by_contra hne
  exact ne_of_pairwise (assignNames_eq_ok hnames).2 hp hp' hne
    (Text.lower_eq_of_asciiLower_eq (Text.sameName_iff.1 h))

/-! ## New names -/

/-- The name in `c'` of the occurrence that goes by a name in `c`. A text that is no name in `c`
becomes one that is no name in `c'`. -/
def newName (m : Alias → Alias) (c c' : Context) (x : String) : String :=
  match c.names.find? (Text.sameName ·.2 x) with
  | some p => (c'.name (m p.1)).toOption.getD ""
  | none => Text.longer (c'.names.map (·.2)) ++ x

theorem sameName_of_find? (h : c.names.find? (Text.sameName ·.2 x) = some p) :
    Text.sameName p.2 x := by
  have hp := List.find?_some h
  exact hp

theorem newName_of_unnamed (h : c.names.find? (Text.sameName ·.2 x) = none) :
    c.newName m c' x = Text.longer (c'.names.map (·.2)) ++ x := by
  rw [newName, h]

/-- The source of a name has a new name in the other statement. -/
theorem lookup_newName (hc : ofQuery f db q = .ok c) (hc' : ofQuery g db q' = .ok c')
    (hf : f.IsGrounded) (hroot : ∀ a, g.root (m a) = m (f.root a))
    (hsub : ∀ a ∈ q.statementAliases, m a ∈ q'.statementAliases) (hp : p ∈ c.names)
    (hx : Text.sameName p.2 x) : c'.names.lookup (m p.1) = some (c.newName m c' x) := by
  obtain ⟨a, ha, hpa⟩ := exists_source hc hp
  obtain ⟨y, hy⟩ := name_of_mem hc' (hsub a ha)
  have hroots : c'.forest.root (m p.1) = m p.1 ∧ c'.forest.root (m a) = m p.1 := by
    rw [(ofQuery_eq_ok hc').1, hroot, hroot, ← hpa, (hf.isRoot_root a).root_eq]
    exact ⟨rfl, rfl⟩
  have hlookup : c'.names.lookup (m p.1) = some y := by
    rw [name_eq_ok, hroots.2] at hy
    exact hy
  have hfind : c.names.find? (Text.sameName ·.2 x) = some p := by
    cases hp' : c.names.find? (Text.sameName ·.2 x) with
    | none => exact absurd hx (List.find?_eq_none.1 hp' p hp)
    | some p' =>
      have hsame := sameName_of_find? hp'
      rw [Text.sameName_iff] at hx hsame
      rw [eq_of_sameName hc (List.mem_of_find?_eq_some hp') hp
        (Text.sameName_iff.2 (hsame.trans hx.symm))]
  rw [newName, hfind]
  simp only [toOption_name, hroots.1, hlookup, Option.getD_some]

theorem respectsNames_newName (hc : ofQuery f db q = .ok c) (hc' : ofQuery g db q' = .ok c')
    (hf : f.IsGrounded) (hm : Function.Injective m) (hroot : ∀ a, g.root (m a) = m (f.root a))
    (hsub : ∀ a ∈ q.statementAliases, m a ∈ q'.statementAliases) :
    RespectsNames (c.newName m c') := by
  have hfound : ∀ {p x}, c.names.find? (Text.sameName ·.2 x) = some p →
      Text.sameName p.2 x ∧ p ∈ c.names ∧
        c'.names.lookup (m p.1) = some (c.newName m c' x) := by
    intro p x hp
    have hx := sameName_of_find? hp
    have hmem := List.mem_of_find?_eq_some hp
    exact ⟨hx, hmem, lookup_newName hc hc' hf hroot hsub hmem hx⟩
  -- A name and a text that is none differ, and so do what becomes of them.
  have hdiffer : ∀ {p x y}, c.names.find? (Text.sameName ·.2 x) = some p →
      c.names.find? (Text.sameName ·.2 y) = none →
        Text.sameName (c.newName m c' x) (c.newName m c' y) = Text.sameName x y := by
    intro p x y hp hy
    obtain ⟨hx, hmem, hlookup⟩ := hfound hp
    have hxy : Text.sameName x y = false := by
      rw [Bool.eq_false_iff]
      intro hsame
      rw [Text.sameName_iff] at hx hsame
      exact List.find?_eq_none.1 hy p hmem (Text.sameName_iff.2 (hx.trans hsame))
    have hnew : c.newName m c' x ∈ c'.names.map (·.2) :=
      List.mem_map_of_mem (mem_of_lookup_eq_some hlookup)
    rw [newName_of_unnamed hy, hxy, Text.sameName_longer_append hnew]
  intro x y
  cases hx : c.names.find? (Text.sameName ·.2 x) with
  | none =>
    cases hy : c.names.find? (Text.sameName ·.2 y) with
    | none => rw [newName_of_unnamed hx, newName_of_unnamed hy, Text.sameName_append_left]
    | some p => rw [Text.sameName_comm, hdiffer hy hx, Text.sameName_comm]
  | some p =>
    cases hy : c.names.find? (Text.sameName ·.2 y) with
    | none => exact hdiffer hx hy
    | some p' =>
      obtain ⟨hpx, hp, hlookup⟩ := hfound hx
      obtain ⟨hpy, hp', hlookup'⟩ := hfound hy
      rw [Text.sameName_iff] at hpx hpy
      rw [Bool.eq_iff_iff, Text.sameName_iff, Text.sameName_iff]
      constructor
      · intro hsame
        have hpair := eq_of_sameName hc' (mem_of_lookup_eq_some hlookup)
          (mem_of_lookup_eq_some hlookup') (Text.sameName_iff.2 hsame)
        have hpp := eq_of_fst_eq hc hp hp' (hm (congrArg Prod.fst hpair))
        rw [← hpx, hpp, hpy]
      · intro hsame
        have hpp := eq_of_sameName hc hp hp'
          (Text.sameName_iff.2 (hpx.trans (hsame.trans hpy.symm)))
        rw [hpp, hlookup'] at hlookup
        rw [Option.some.inj hlookup]

/-- **New names are names of the same occurrences, and tell them apart as before.** -/
theorem renames_newName (hc : ofQuery f db q = .ok c) (hc' : ofQuery g db q' = .ok c')
    (hf : f.IsGrounded) (hm : Function.Injective m) (hroot : ∀ a, g.root (m a) = m (f.root a))
    (huser : ∀ a, g.userName? (m a) = f.userName? a)
    (hsub : ∀ a ∈ q.statementAliases, m a ∈ q'.statementAliases) :
    c.Renames m (c.newName m c') c' := by
  obtain ⟨hforest, hschema, -⟩ := ofQuery_eq_ok hc
  obtain ⟨hforest', hschema', -⟩ := ofQuery_eq_ok hc'
  refine ⟨hschema'.trans hschema.symm, hm, ?_, ?_, fun a x hx => ?_⟩
  · rw [hforest, hforest']
    exact hroot
  · rw [hforest, hforest']
    exact huser
  · have hp := mem_of_lookup_eq_some (name_eq_ok.1 hx)
    have hlookup := lookup_newName hc hc' hf hroot hsub hp (Text.sameName_iff.2 rfl)
    rw [hforest, ← hroot, ← hforest'] at hlookup
    exact name_eq_ok.2 hlookup

end Context

end SqlTree
