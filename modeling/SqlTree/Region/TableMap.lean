import SqlTree.Region.IdSet

/-!
# Tables and their rows

For each of some tables, which of its rows are meant: all of them or those with given row ids. The
tables stand in strictly ascending order of their names.

* `TableMap.find?` are the rows given for a table.
* `TableMap.insert`, `TableMap.union` and `TableMap.inter` build maps.
-/

namespace SqlTree

/-- Which rows of a table are meant. -/
inductive Rows where
  | all
  | only (ids : IdSet)
  deriving DecidableEq

namespace Rows

/-- Whether a row is meant. -/
def contains (n : Int64) : Rows → Bool
  | all => true
  | only ids => n ∈ ids

/-- The rows meant by either. -/
def union : Rows → Rows → Rows
  | only s, only t => only (s.union t)
  | _, _ => all

/-- The rows meant by both, unless two sets of row ids have none in common. -/
def meet? : Rows → Rows → Option Rows
  | all, t => some t
  | s, all => some s
  | only s, only t => if (s.inter t).isEmpty then none else some (only (s.inter t))

/-- Whether no row is meant. -/
def isEmpty : Rows → Bool
  | all => false
  | only ids => ids.isEmpty

end Rows

/-- Rows of tables, the names of the tables strictly ascending. -/
structure TableMap where
  entries : List (String × Rows)
  ascending : entries.Pairwise (·.1 < ·.1)
  deriving DecidableEq

namespace TableMap

/-- The rows given for a table. -/
def find? (m : TableMap) (name : String) : Option Rows := m.entries.lookup name

/-! ## Building -/

/-- The map without tables. -/
def empty : TableMap := ⟨[], .nil⟩

/-- Whether there are no tables. -/
def isEmpty (m : TableMap) : Bool := m.entries.isEmpty

/-- Ascending entries with one more in its place, or in the place of one of the same name. -/
def insertInto (name : String) (rows : Rows) : List (String × Rows) → List (String × Rows)
  | [] => [(name, rows)]
  | e :: rest =>
    if name < e.1 then (name, rows) :: e :: rest
    else if name = e.1 then (name, rows) :: rest
    else e :: insertInto name rows rest

theorem fst_mem_insertInto {name : String} {rows : Rows} {l : List (String × Rows)}
    {e : String × Rows} (h : e ∈ insertInto name rows l) : e.1 = name ∨ e ∈ l := by
  induction l with
  | nil => simp_all [insertInto]
  | cons d rest ih =>
    unfold insertInto at h
    split at h
    · rcases List.mem_cons.1 h with rfl | h
      · exact .inl rfl
      · exact .inr h
    · split at h
      · rcases List.mem_cons.1 h with rfl | h
        · exact .inl rfl
        · exact .inr (List.mem_cons_of_mem _ h)
      · rcases List.mem_cons.1 h with rfl | h
        · exact .inr List.mem_cons_self
        · exact (ih h).imp_right (List.mem_cons_of_mem _)

theorem lt_or_eq_or_gt (a b : String) : a < b ∨ a = b ∨ b < a := by
  by_cases h : a < b
  · exact .inl h
  by_cases h' : b < a
  · exact .inr (.inr h')
  exact .inr (.inl (String.le_antisymm (String.not_lt.1 h') (String.not_lt.1 h)))

theorem insertInto_ascending {name : String} {rows : Rows} {l : List (String × Rows)}
    (h : l.Pairwise (·.1 < ·.1)) : (insertInto name rows l).Pairwise (·.1 < ·.1) := by
  induction h with
  | nil => simp [insertInto]
  | @cons d rest lower _ ih =>
    unfold insertInto
    split
    case isTrue hlt =>
      refine List.pairwise_cons.2 ⟨fun e he => ?_, List.pairwise_cons.2 ⟨lower, by assumption⟩⟩
      rcases List.mem_cons.1 he with rfl | he
      · exact hlt
      · exact String.lt_trans hlt (lower e he)
    case isFalse hlt =>
      split
      case isTrue heq =>
        exact List.pairwise_cons.2 ⟨fun e he => by subst heq; exact lower e he, by assumption⟩
      case isFalse hne =>
        refine List.pairwise_cons.2 ⟨fun e he => ?_, ih⟩
        rcases fst_mem_insertInto he with h | he
        · rw [h]
          rcases lt_or_eq_or_gt d.1 name with h | h | h
          · exact h
          · exact absurd h.symm hne
          · exact absurd h hlt
        · exact lower e he

/-- The map with the rows of a table given, in place of those given before. -/
def insert (m : TableMap) (name : String) (rows : Rows) : TableMap :=
  ⟨insertInto name rows m.entries, insertInto_ascending m.ascending⟩

/-- The map with some tables left out. -/
def filter (keep : String × Rows → Bool) (m : TableMap) : TableMap :=
  ⟨m.entries.filter keep, m.ascending.filter keep⟩

/-- The map of a list of entries; of two under one name the later counts. -/
def ofList (l : List (String × Rows)) : TableMap := l.foldl (fun m e => m.insert e.1 e.2) empty

/-- The map with the rows of one more table meant too. -/
def add (m : TableMap) (e : String × Rows) : TableMap :=
  m.insert e.1 (match m.find? e.1 with
    | some rows => rows.union e.2
    | none => e.2)

/-- The rows meant by either map. -/
def union (m n : TableMap) : TableMap := n.entries.foldl add m

/-- An entry narrowed to the rows that `n` means too. -/
def meet? (n : TableMap) (e : String × Rows) : Option (String × Rows) := do
  let rows ← n.find? e.1
  let common ← e.2.meet? rows
  return (e.1, common)

theorem fst_eq_of_meet? {n : TableMap} {e d : String × Rows} (h : n.meet? e = some d) :
    d.1 = e.1 := by
  simp only [meet?, bind, pure, Option.bind_eq_some_iff, Option.some.injEq] at h
  obtain ⟨_, _, _, _, rfl⟩ := h
  rfl

/-- The rows meant by both maps. -/
def inter (m n : TableMap) : TableMap :=
  ⟨m.entries.filterMap n.meet?, m.ascending.filterMap n.meet? fun _ _ h _ hd _ hd' => by
    rw [fst_eq_of_meet? hd, fst_eq_of_meet? hd']; exact h⟩

/-! ## Rows of a table -/

theorem lookup_insertInto {name key : String} {rows : Rows} {l : List (String × Rows)} :
    (insertInto name rows l).lookup key = if key = name then some rows else l.lookup key := by
  induction l with
  | nil => grind [insertInto]
  | cons d rest ih =>
    obtain ⟨other, _⟩ := d
    unfold insertInto
    split
    · grind
    · split <;> grind

@[simp]
theorem find?_insert {m : TableMap} {name key : String} {rows : Rows} :
    (m.insert name rows).find? key = if key = name then some rows else m.find? key :=
  lookup_insertInto

end TableMap

end SqlTree
