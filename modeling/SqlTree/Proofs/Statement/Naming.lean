import Mathlib.Data.List.Nodup
import Mathlib.Data.List.Pairwise
import Mathlib.Data.List.Perm.Subperm
import Mathlib.Order.Bounds.Basic
import SqlTree.Proofs.Runs
import SqlTree.Proofs.Text.Lowercase
import SqlTree.Statement.Scope

/-!
# Names in a statement are different

The occurrences of a statement are told apart by their names, also by a reader that does not
distinguish capitals.

* `numbered_not_mem` and `numbered_isLeast`: the search for a free number ends with the smallest
  one.
* `namesFrom_pairwise`: no two occurrences get one name.
* `Context.name_ne` and `Context.name_eq_of_root_eq` say so of the names in a statement: they agree
  for two identities of one occurrence and differ in more than ASCII case for all others.
-/

namespace SqlTree

/-! ## Numbers -/

/-- When the search ends with a name that is taken, all candidates are taken. -/
theorem numberedFrom_taken {taken : List String} {name : String} {candidates : Nat} :
    ∀ {n : Nat}, Text.lower (numberedFrom taken name n candidates) ∈ taken →
      ∀ i ≤ candidates, Text.lower (name ++ toString (n + i)) ∈ taken := by
  induction candidates with
  | zero =>
    intro n h i hi
    obtain rfl : i = 0 := Nat.le_zero.1 hi
    exact h
  | succ k ih =>
    intro n h i hi
    rw [numberedFrom] at h
    split at h
    case isFalse hfree => exact absurd h hfree
    case isTrue hfirst =>
      cases i with
      | zero => exact hfirst
      | succ i =>
        have hrest := ih h i (Nat.le_of_succ_le_succ hi)
        rwa [show n + 1 + i = n + (i + 1) by omega] at hrest

/-- **The name with a number is not taken.** -/
theorem numbered_not_mem (taken : List String) (name : String) :
    Text.lower (numbered taken name) ∉ taken := by
  intro h
  have hall := numberedFrom_taken h
  let candidates := (List.range (taken.length + 1)).map fun i =>
    Text.lower (name ++ toString (1 + i))
  have hnodup : candidates.Nodup := by
    refine List.Nodup.map ?_ List.nodup_range
    intro i j hij
    have hij := Text.lower_numbered_injective name hij
    omega
  have hsub : candidates ⊆ taken := by
    intro c hc
    obtain ⟨i, hi, rfl⟩ := List.mem_map.1 hc
    exact hall i (Nat.le_of_lt_succ (List.mem_range.1 hi))
  have hlength := (hnodup.subperm hsub).length_le
  simp only [candidates, List.length_map, List.length_range] at hlength
  omega

/-- The search goes past names that are taken only. -/
theorem numberedFrom_eq (taken : List String) (name : String) (candidates : Nat) : ∀ n,
    ∃ i, numberedFrom taken name n candidates = name ++ toString (n + i) ∧
      ∀ j < i, Text.lower (name ++ toString (n + j)) ∈ taken := by
  induction candidates with
  | zero => exact fun n => ⟨0, rfl, fun j hj => absurd hj (Nat.not_lt_zero j)⟩
  | succ k ih =>
    intro n
    rw [numberedFrom]
    split
    · rename_i hfirst
      obtain ⟨i, hi, hrest⟩ := ih (n + 1)
      refine ⟨i + 1, by rw [hi, show n + 1 + i = n + (i + 1) by omega], fun j hj => ?_⟩
      cases j with
      | zero => exact hfirst
      | succ j =>
        have hnext := hrest j (Nat.lt_of_succ_lt_succ hj)
        rwa [show n + 1 + j = n + (j + 1) by omega] at hnext
    · exact ⟨0, rfl, fun j hj => absurd hj (Nat.not_lt_zero j)⟩

/-- **The number is the smallest positive one whose name is not taken.** -/
theorem numbered_isLeast (taken : List String) (name : String) :
    ∃ n, numbered taken name = name ++ toString n ∧
      IsLeast {n : Nat | 0 < n ∧ Text.lower (name ++ toString n) ∉ taken} n := by
  obtain ⟨i, hi, hpassed⟩ := numberedFrom_eq taken name taken.length 1
  refine ⟨1 + i, hi, ⟨by omega, ?_⟩, ?_⟩
  · rw [← hi]
    exact numbered_not_mem taken name
  · rintro m ⟨hpos, hfree⟩
    by_contra hsmaller
    have hm := hpassed (m - 1) (by omega)
    rw [show 1 + (m - 1) = m by omega] at hm
    exact hfree hm

/-! ## Names of occurrences -/

/-- Whether an occurrence keeps the name that it goes by. -/
def Occurrence.KeepsName (all : List String) (o : Occurrence) : Prop :=
  o.isUserGiven ∨ all.count (Text.lower o.name) = 1

/-- No name is repeated when no name that a user gave is among those given before, and no two of
them are one. -/
theorem repeatedName?_eq_none_iff {os : List Occurrence} : ∀ {given : List String},
    repeatedName? given os = none ↔
      (∀ o ∈ os, o.isUserGiven → Text.lower o.name ∉ given) ∧
        os.Pairwise fun o o' =>
          o.isUserGiven → o'.isUserGiven → Text.lower o.name ≠ Text.lower o'.name := by
  induction os with
  | nil => simp [repeatedName?]
  | cons o os ih =>
    intro given
    rw [repeatedName?, List.forall_mem_cons, List.pairwise_cons]
    by_cases ho : o.isUserGiven
    · rw [if_pos ho]
      split
      · rename_i hin
        simp [ho, hin]
      · rename_i hnew
        simp only [ih, ho, hnew, List.mem_cons, not_or, not_false_eq_true, true_imp_iff, true_and]
        refine ⟨fun ⟨hrest, hpairs⟩ => ⟨fun o' ho' hgiven => (hrest o' ho' hgiven).2,
          fun o' ho' hgiven => Ne.symm (hrest o' ho' hgiven).1, hpairs⟩, ?_⟩
        rintro ⟨hrest, hfirst, hpairs⟩
        exact ⟨fun o' ho' hgiven => ⟨Ne.symm (hfirst o' ho' hgiven), hrest o' ho' hgiven⟩, hpairs⟩
    · simp [ih, ho]

/-- Of two occurrences that go by one name neither is the only one. -/
theorem count_ne_one (os : List Occurrence) :
    os.Pairwise fun o o' => Text.lower o.name = Text.lower o'.name →
      (os.map (Text.lower ·.name)).count (Text.lower o.name) ≠ 1 := by
  refine List.pairwise_iff_forall_sublist.2 fun {o o'} hsub hname => ?_
  have hcount := (hsub.map (Text.lower ·.name)).count_le (Text.lower o.name)
  simp only [List.map_cons, List.map_nil, ← hname, List.count_cons_self] at hcount
  omega

/-- Occurrences that keep their names have different ones. -/
theorem keptNames_pairwise {os : List Occurrence} (h : repeatedName? [] os = none) :
    os.Pairwise fun o o' => o.KeepsName (os.map (Text.lower ·.name)) →
      o'.KeepsName (os.map (Text.lower ·.name)) → Text.lower o.name ≠ Text.lower o'.name := by
  have hgiven := (repeatedName?_eq_none_iff.1 h).2
  refine (hgiven.and (count_ne_one os)).imp fun {o o'} ⟨hpair, hcount⟩ ho ho' hname => ?_
  have hcount := hcount hname
  have hcount' := hname ▸ hcount
  exact hpair (ho.resolve_right hcount) (ho'.resolve_right hcount') hname

theorem mem_namesFrom {all : List String} {os : List Occurrence} {p : Alias × String} :
    ∀ {taken : List String}, p ∈ namesFrom all taken os →
      (∃ o ∈ os, o.KeepsName all ∧ p.2 = o.name) ∨ Text.lower p.2 ∉ taken := by
  induction os with
  | nil =>
    intro taken hp
    cases hp
  | cons o os ih =>
    intro taken hp
    rw [namesFrom] at hp
    split at hp
    · rename_i hkeeps
      rcases List.mem_cons.1 hp with rfl | hp
      · exact .inl ⟨o, List.mem_cons_self, hkeeps, rfl⟩
      · rcases ih hp with ⟨o', ho', hkept⟩ | hfree
        · exact .inl ⟨o', List.mem_cons_of_mem o ho', hkept⟩
        · exact .inr hfree
    · rcases List.mem_cons.1 hp with rfl | hp
      · exact .inr (numbered_not_mem taken o.name)
      · rcases ih hp with ⟨o', ho', hkept⟩ | hfree
        · exact .inl ⟨o', List.mem_cons_of_mem o ho', hkept⟩
        · exact .inr fun hin => hfree (List.mem_cons_of_mem _ hin)

/-- **No two occurrences get one name**, also without regard to case: a name that is kept is taken
from the beginning, and a name with a number is not taken when it is made. -/
theorem namesFrom_pairwise {all : List String} {os : List Occurrence} :
    ∀ {taken : List String}, (∀ o ∈ os, Text.lower o.name ∈ taken) →
      (os.Pairwise fun o o' =>
        o.KeepsName all → o'.KeepsName all → Text.lower o.name ≠ Text.lower o'.name) →
      (namesFrom all taken os).Pairwise fun p p' => Text.lower p.2 ≠ Text.lower p'.2 := by
  induction os with
  | nil =>
    intro taken _ _
    exact .nil
  | cons o os ih =>
    intro taken htaken hkept
    obtain ⟨hfirst, hkept⟩ := List.pairwise_cons.1 hkept
    obtain ⟨hown, htaken⟩ := List.forall_mem_cons.1 htaken
    rw [namesFrom]
    split
    · rename_i hkeeps
      refine List.pairwise_cons.2 ⟨fun p hp hname => ?_, ih htaken hkept⟩
      rcases mem_namesFrom hp with ⟨o', ho', hkeeps', hp'⟩ | hfree
      · rw [hp'] at hname
        exact hfirst o' ho' hkeeps hkeeps' hname
      · rw [← hname] at hfree
        exact hfree hown
    · have hmore : ∀ o' ∈ os, Text.lower o'.name ∈ Text.lower (numbered taken o.name) :: taken :=
        fun o' ho' => List.mem_cons_of_mem _ (htaken o' ho')
      refine List.pairwise_cons.2 ⟨fun p hp hname => ?_, ih hmore hkept⟩
      rcases mem_namesFrom hp with ⟨o', ho', -, hp'⟩ | hfree
      · rw [hp'] at hname
        have hin : Text.lower (numbered taken o.name) ∈ taken := by
          rw [show Text.lower (numbered taken o.name) = Text.lower o'.name from hname]
          exact htaken o' ho'
        exact numbered_not_mem taken o.name hin
      · rw [← hname] at hfree
        exact hfree List.mem_cons_self

theorem namesFrom_roots {all : List String} {os : List Occurrence} : ∀ {taken : List String},
    (namesFrom all taken os).map (·.1) = os.map (·.root) := by
  induction os with
  | nil =>
    intro taken
    rfl
  | cons o os ih =>
    intro taken
    rw [namesFrom]
    split <;> simp [ih]

theorem assignNames_eq_ok {os : List Occurrence} {names : List (Alias × String)}
    (h : assignNames os = .ok names) :
    names.map (·.1) = os.map (·.root) ∧
      names.Pairwise fun p p' => Text.lower p.2 ≠ Text.lower p'.2 := by
  rw [assignNames] at h
  split at h
  · cases h
  · rename_i hnone
    obtain rfl := Except.ok.inj h
    refine ⟨namesFrom_roots, namesFrom_pairwise ?_ (keptNames_pairwise hnone)⟩
    intro o ho
    exact List.mem_map_of_mem ho

/-! ## Names in a statement -/

/-- The occurrences of some identities, each once. -/
theorem Forest.map_root_occurrences {f : Forest} {as : List Alias} :
    (f.occurrences as).map (·.root) = (as.map f.root).eraseDups := by
  rw [occurrences, List.map_map]
  exact List.map_id _

theorem ne_of_pairwise {names : List (Alias × String)} {p p' : Alias × String}
    (h : names.Pairwise fun p p' => Text.lower p.2 ≠ Text.lower p'.2) (hp : p ∈ names)
    (hp' : p' ∈ names) (hne : p ≠ p') : Text.lower p.2 ≠ Text.lower p'.2 := by
  have : Std.Symm fun p p' : Alias × String => Text.lower p.2 ≠ Text.lower p'.2 :=
    ⟨fun _ _ hpq => hpq.symm⟩
  exact h.forall hp hp' hne

theorem mem_of_lookup_eq_some {α β : Type} [BEq α] [LawfulBEq α] {l : List (α × β)} {k : α} {b : β}
    (h : l.lookup k = some b) : (k, b) ∈ l := by
  obtain ⟨front, back, rfl, -⟩ := List.lookup_eq_some_iff.1 h
  simp

namespace Context

variable {c : Context} {f : Forest} {db : Schema} {q : Query} {a b : Alias} {x y : String}

theorem ofQuery_eq_ok (h : ofQuery f db q = .ok c) :
    c.forest = f ∧ c.schema = db ∧ assignNames (f.occurrences q.statementAliases) = .ok c.names := by
  simp only [ofQuery, bind_eq_ok, pure_eq_ok] at h
  obtain ⟨names, hnames, rfl⟩ := h
  exact ⟨rfl, rfl, hnames⟩

/-- Named are the occurrences of the sources, each once. -/
theorem map_fst_names (hc : ofQuery f db q = .ok c) :
    c.names.map (·.1) = (q.statementAliases.map f.root).eraseDups := by
  obtain ⟨-, -, hnames⟩ := ofQuery_eq_ok hc
  rw [(assignNames_eq_ok hnames).1, Forest.map_root_occurrences]

theorem name_eq_ok : c.name a = .ok x ↔ c.names.lookup (c.forest.root a) = some x := by
  rw [name]
  cases c.names.lookup (c.forest.root a) <;> simp

theorem toOption_name (c : Context) (a : Alias) :
    (c.name a).toOption = c.names.lookup (c.forest.root a) := by
  rw [name]
  cases c.names.lookup (c.forest.root a) <;> rfl

/-- Identities of one occurrence have one name. -/
theorem name_eq_of_root_eq (h : c.forest.root a = c.forest.root b) (ha : c.name a = .ok x)
    (hb : c.name b = .ok y) : x = y := by
  rw [name_eq_ok, h] at ha
  rw [name_eq_ok] at hb
  exact Option.some.inj (ha.symm.trans hb)

/-- **Different occurrences have names that differ in more than ASCII case.** -/
theorem name_ne (hc : ofQuery f db q = .ok c) (h : c.forest.root a ≠ c.forest.root b)
    (ha : c.name a = .ok x) (hb : c.name b = .ok y) : Text.asciiLower x ≠ Text.asciiLower y := by
  obtain ⟨-, -, hnames⟩ := ofQuery_eq_ok hc
  have hpairs := (assignNames_eq_ok hnames).2
  have hpa := mem_of_lookup_eq_some (name_eq_ok.1 ha)
  have hpb := mem_of_lookup_eq_some (name_eq_ok.1 hb)
  have hne : (c.forest.root a, x) ≠ (c.forest.root b, y) := fun hp => h (congrArg Prod.fst hp)
  have hlower := ne_of_pairwise hpairs hpa hpb hne
  intro heq
  exact hlower (Text.lower_eq_of_asciiLower_eq heq)

/-- An occurrence has a name in the statement. -/
def Knows (c : Context) (a : Alias) : Prop := ∃ name, c.name a = .ok name

/-- Every source of a statement has a name. -/
theorem name_of_mem (hc : ofQuery f db q = .ok c) (ha : a ∈ q.statementAliases) : c.Knows a := by
  have hmem : c.forest.root a ∈ c.names.map (·.1) := by
    rw [map_fst_names hc, (ofQuery_eq_ok hc).1, List.mem_eraseDups]
    exact List.mem_map_of_mem ha
  obtain ⟨p, hp, hpa⟩ := List.mem_map.1 hmem
  have hsome : (c.names.lookup (c.forest.root a)).isSome := by
    rw [List.lookup_isSome_iff]
    exact ⟨p, hp, by simp [hpa]⟩
  obtain ⟨x, hx⟩ := Option.isSome_iff_exists.1 hsome
  exact ⟨x, name_eq_ok.2 hx⟩

end Context

end SqlTree
