import SqlTree.Value

/-!
# Three truth values

A condition is true, false, or unknown where a value that it depends on is `NULL`. A conjunction is
true when all its terms are, a disjunction when one of them is.
-/

namespace SqlTree

/-- True, false, or unknown. -/
abbrev Truth := Option Bool

namespace Truth

/-- The negation; that of the unknown is unknown. -/
def not (t : Truth) : Truth := t.map (!·)

/-- The conjunction: false when one is false, else unknown when one is unknown. -/
def all (ts : List Truth) : Truth :=
  if some false ∈ ts then some false else if none ∈ ts then none else some true

/-- The disjunction: true when one is true, else unknown when one is unknown. -/
def any (ts : List Truth) : Truth :=
  if some true ∈ ts then some true else if none ∈ ts then none else some false

/-- A truth value as a value. -/
def value : Truth → Value
  | none => .null
  | some b => .ofBool b

variable {ts : List Truth}

theorem all_eq_true : all ts = some true ↔ ∀ t ∈ ts, t = some true := by
  rw [all]
  constructor
  · intro h t ht
    split at h
    · cases h
    · split at h
      · cases h
      · rename_i hfalse hunknown
        rcases t with _ | _ | _
        · exact absurd ht hunknown
        · exact absurd ht hfalse
        · rfl
  · intro h
    have hfalse : some false ∉ ts := fun hmem => by cases h _ hmem
    have hunknown : none ∉ ts := fun hmem => by cases h _ hmem
    rw [if_neg hfalse, if_neg hunknown]

theorem any_eq_true : any ts = some true ↔ some true ∈ ts := by
  rw [any]
  constructor
  · intro h
    split at h
    · assumption
    · split at h <;> cases h
  · exact fun h => if_pos h

/-- A conjunction among the terms of a conjunction counts for its terms. -/
theorem all_nested (before after : List Truth) (inner : List Truth) :
    all (before ++ all inner :: after) = all (before ++ inner ++ after) := by
  unfold all
  grind

/-- A disjunction among the terms of a disjunction counts for its terms. -/
theorem any_nested (before after : List Truth) (inner : List Truth) :
    any (before ++ any inner :: after) = any (before ++ inner ++ after) := by
  unfold any
  grind

end Truth

end SqlTree
