/-!
# Sets of row ids

A set of row ids is the strictly ascending list of its members, so two sets with the same members
are one (`IdSet.ext_mem`).

* `IdSet.ofList`, `IdSet.union` and `IdSet.inter` build sets; their members are stated beside them.
-/

namespace SqlTree

/-- A strictly ascending list of row ids. -/
structure IdSet where
  ids : List Int64
  ascending : ids.Pairwise (· < ·)
  deriving DecidableEq

namespace IdSet

instance : Membership Int64 IdSet := ⟨fun s n => n ∈ s.ids⟩

theorem mem_def {n : Int64} {s : IdSet} : n ∈ s ↔ n ∈ s.ids := Iff.rfl

instance (n : Int64) (s : IdSet) : Decidable (n ∈ s) := inferInstanceAs (Decidable (n ∈ s.ids))

/-! ## The order of row ids -/

theorem lt_or_eq_or_gt (a b : Int64) : a < b ∨ a = b ∨ b < a := by
  rw [Int64.lt_iff_toInt_lt, Int64.lt_iff_toInt_lt, ← Int64.toInt_inj]
  omega

/-! ## Building -/

/-- The set without members. -/
def empty : IdSet := ⟨[], .nil⟩

/-- An ascending list with one more row id in its place. -/
def insertInto (n : Int64) : List Int64 → List Int64
  | [] => [n]
  | m :: rest =>
    if n < m then n :: m :: rest
    else if n = m then m :: rest
    else m :: insertInto n rest

theorem mem_insertInto {n k : Int64} {l : List Int64} : k ∈ insertInto n l ↔ k = n ∨ k ∈ l := by
  induction l with
  | nil => simp [insertInto]
  | cons m rest ih =>
    unfold insertInto
    split
    · simp
    · split
      · subst n; simp
      · simp only [List.mem_cons, ih]
        exact ⟨fun h => by grind, fun h => by grind⟩

theorem insertInto_ascending {n : Int64} {l : List Int64} (h : l.Pairwise (· < ·)) :
    (insertInto n l).Pairwise (· < ·) := by
  induction h with
  | nil => simp [insertInto]
  | @cons m rest lower _ ih =>
    unfold insertInto
    split
    case isTrue hnm =>
      refine List.pairwise_cons.2 ⟨fun k hk => ?_, List.pairwise_cons.2 ⟨lower, by assumption⟩⟩
      rcases List.mem_cons.1 hk with rfl | hk
      · exact hnm
      · exact Int64.lt_trans hnm (lower k hk)
    case isFalse hnm =>
      split
      · exact List.pairwise_cons.2 ⟨lower, by assumption⟩
      · rename_i hne
        refine List.pairwise_cons.2 ⟨fun k hk => ?_, ih⟩
        rcases mem_insertInto.1 hk with rfl | hk
        · rcases lt_or_eq_or_gt m k with h | h | h
          · exact h
          · exact absurd h.symm hne
          · exact absurd h hnm
        · exact lower k hk

/-- The set with one more member. -/
def insert (n : Int64) (s : IdSet) : IdSet :=
  ⟨insertInto n s.ids, insertInto_ascending s.ascending⟩

/-- The set of the members of a list. -/
def ofList : List Int64 → IdSet
  | [] => empty
  | n :: rest => (ofList rest).insert n

/-- The members of either set. -/
def union (s t : IdSet) : IdSet := ofList (s.ids ++ t.ids)

/-- The members of both sets. -/
def inter (s t : IdSet) : IdSet := ⟨s.ids.filter (· ∈ t), s.ascending.filter _⟩

/-- Whether a set has no members. -/
def isEmpty (s : IdSet) : Bool := s.ids.isEmpty

/-! ## Members -/

@[simp]
theorem not_mem_empty {n : Int64} : ¬ n ∈ empty := by simp [mem_def, empty]

@[simp]
theorem mem_insert {n m : Int64} {s : IdSet} : n ∈ s.insert m ↔ n = m ∨ n ∈ s := mem_insertInto

@[simp]
theorem mem_ofList {n : Int64} {l : List Int64} : n ∈ ofList l ↔ n ∈ l := by
  induction l with
  | nil => simp [ofList]
  | cons m rest ih => simp [ofList, ih]

@[simp]
theorem mem_union {n : Int64} {s t : IdSet} : n ∈ s.union t ↔ n ∈ s ∨ n ∈ t := by
  rw [union, mem_ofList, List.mem_append, mem_def, mem_def]

@[simp]
theorem mem_inter {n : Int64} {s t : IdSet} : n ∈ s.inter t ↔ n ∈ s ∧ n ∈ t := by
  simp [inter, mem_def]

theorem isEmpty_iff {s : IdSet} : s.isEmpty = true ↔ ∀ n, ¬ n ∈ s := by
  simp [isEmpty, mem_def, List.isEmpty_iff, List.eq_nil_iff_forall_not_mem]

/-- Two strictly ascending lists with the same members are equal. -/
theorem eq_of_ascending {l l' : List Int64} (h : l.Pairwise (· < ·)) (h' : l'.Pairwise (· < ·))
    (mem : ∀ n, n ∈ l ↔ n ∈ l') : l = l' := by
  induction l generalizing l' with
  | nil => exact (List.eq_nil_iff_forall_not_mem.2 fun n hn => by simpa using (mem n).2 hn).symm
  | cons a l ih =>
    cases l' with
    | nil => exact absurd ((mem a).1 (by simp)) (by simp)
    | cons b l' =>
      have hl := List.pairwise_cons.1 h
      have hl' := List.pairwise_cons.1 h'
      have hab : a = b := by
        rcases List.mem_cons.1 ((mem a).1 (by simp)) with e | ha
        · exact e
        rcases List.mem_cons.1 ((mem b).2 (by simp)) with e | hb
        · exact e.symm
        exact absurd (Int64.lt_trans (hl.1 b hb) (hl'.1 a ha)) Int64.lt_irrefl
      subst hab
      congr 1
      refine ih hl.2 hl'.2 fun n => ⟨fun hn => ?_, fun hn => ?_⟩
      · rcases List.mem_cons.1 ((mem n).1 (List.mem_cons_of_mem _ hn)) with rfl | h
        · exact absurd (hl.1 _ hn) Int64.lt_irrefl
        · exact h
      · rcases List.mem_cons.1 ((mem n).2 (List.mem_cons_of_mem _ hn)) with rfl | h
        · exact absurd (hl'.1 _ hn) Int64.lt_irrefl
        · exact h

/-- Sets with the same members are equal. -/
theorem ext_mem {s t : IdSet} (mem : ∀ n, n ∈ s ↔ n ∈ t) : s = t := by
  cases s; cases t
  congr
  exact eq_of_ascending ‹_› ‹_› mem

end IdSet

end SqlTree
