import SqlTree.Region.OfQuery
import Mathlib.Data.List.Basic

/-!
# Rows in regions

Which rows lie in the regions that are built from others.

* `TableMap.find?_union`, `TableMap.find?_inter` and `TableMap.find?_filter` are the rows of a table
  in maps that are built from others, and `TableMap.ext_find?` tells maps apart by them.
* `TableMap.hasRow` says whether a row of a table is in a map, and `Region.contains_tables` reads a
  region through it.
* `Region.contains_union` and `Region.contains_inter`: a row lies in a union when it lies in either
  region, and in an intersection when it lies in both.
* `Region.contains_ofTables` and `Region.contains_narrow` are about the regions of requests.
-/

namespace SqlTree

namespace Rows

@[simp] theorem contains_union (n : Int64) (s t : Rows) :
    (s.union t).contains n = (s.contains n || t.contains n) := by
  cases s <;> cases t <;> simp [union, contains]

theorem contains_of_isEmpty {s : Rows} (hs : s.isEmpty = true) (n : Int64) :
    s.contains n = false := by
  cases s with
  | all => cases hs
  | only ids => simpa [contains] using IdSet.isEmpty_iff.1 hs n

theorem contains_meet? (n : Int64) (s t : Rows) :
    (s.meet? t).any (·.contains n) = (s.contains n && t.contains n) := by
  cases s with
  | all => simp [meet?, contains]
  | only ids =>
    cases t with
    | all => simp [meet?, contains]
    | only ids' =>
      rw [meet?]
      split
      case isTrue hempty => simpa [contains] using (IdSet.isEmpty_iff.1 hempty n)
      case isFalse => simp [contains]

end Rows

namespace TableMap

variable {m n : TableMap} {name key : String} {rows : Rows} {id : Int64}

/-! ## Rows of a table -/

/-- Of ascending entries only one is under a given name. -/
theorem lookup_eq_some_iff {l : List (String × Rows)} (h : l.Pairwise (·.1 < ·.1)) :
    l.lookup key = some rows ↔ (key, rows) ∈ l := by
  induction h with
  | nil => simp
  | @cons e rest lower _ ih =>
    rw [List.lookup_cons, List.mem_cons]
    by_cases hkey : key = e.1
    · subst hkey
      have hother : (e.1, rows) ∉ rest := fun hmem => String.lt_irrefl _ (lower (e.1, rows) hmem)
      simp [hother, Prod.ext_iff, eq_comm]
    · have hne : (key == e.1) = false := by simpa using hkey
      simp [hne, ih, Prod.ext_iff, hkey]

theorem find?_eq_some_iff : m.find? key = some rows ↔ (key, rows) ∈ m.entries :=
  lookup_eq_some_iff m.ascending

/-- Maps with the same rows of every table are equal. -/
theorem ext_find? (h : ∀ key, m.find? key = n.find? key) : m = n := by
  have hmem : ∀ e, e ∈ m.entries ↔ e ∈ n.entries := by
    rintro ⟨key, rows⟩
    rw [← find?_eq_some_iff, ← find?_eq_some_iff, h]
  have hnodup : ∀ m : TableMap, m.entries.Nodup := fun m => m.ascending.imp <| by
    rintro e d hlt rfl
    exact String.lt_irrefl _ hlt
  have hperm := (List.perm_ext_iff_of_nodup (hnodup m) (hnodup n)).2 hmem
  have hentries : m.entries = n.entries := hperm.eq_of_pairwise
    (fun _ _ _ _ hlt hgt => absurd (String.lt_trans hlt hgt) (String.lt_irrefl _))
    m.ascending n.ascending
  cases m
  cases n
  exact (mk.injEq ..).mpr hentries

theorem find?_add (e : String × Rows) :
    (m.add e).find? key =
      if key = e.1 then mergeWith .union (m.find? e.1) (some e.2) else m.find? key := by
  rw [add, find?_insert]
  split
  · cases m.find? e.1 <;> rfl
  · rfl

theorem find?_foldl_add {l : List (String × Rows)} (h : l.Pairwise (·.1 < ·.1)) :
    ∀ m : TableMap, (l.foldl add m).find? key = mergeWith .union (m.find? key) (l.lookup key) := by
  induction h with
  | nil => exact fun m => by cases hm : m.find? key <;> simp [mergeWith, hm]
  | @cons e rest lower hrest ih =>
    intro m
    rw [List.foldl_cons, ih, find?_add, List.lookup_cons]
    by_cases hkey : key = e.1
    · subst hkey
      have hother : rest.lookup e.1 = none := by
        rw [Option.eq_none_iff_forall_ne_some]
        intro rows hrows
        exact String.lt_irrefl _ (lower (e.1, rows) ((lookup_eq_some_iff hrest).1 hrows))
      rw [if_pos rfl, hother, beq_self_eq_true]
      cases m.find? e.1 <;> rfl
    · have hne : (key == e.1) = false := by simpa using hkey
      rw [if_neg hkey, hne]

/-- **The rows of a table in a union.** -/
theorem find?_union : (m.union n).find? key = mergeWith .union (m.find? key) (n.find? key) :=
  find?_foldl_add n.ascending m

/-- **The rows of a table in an intersection.** -/
theorem find?_inter : (m.inter n).find? key =
    (m.find? key).bind fun s => (n.find? key).bind s.meet? := by
  ext rows
  simp only [find?_eq_some_iff, inter, List.mem_filterMap, Option.bind_eq_some_iff, meet?, bind,
    pure, Option.some.injEq, Prod.mk.injEq]
  constructor
  · rintro ⟨⟨_, s⟩, hs, t, ht, common, hcommon, rfl, rfl⟩
    exact ⟨s, hs, t, ht, hcommon⟩
  · rintro ⟨s, hs, t, ht, hcommon⟩
    exact ⟨(key, s), hs, t, ht, rows, hcommon, rfl, rfl⟩

theorem find?_filter {keep : String × Rows → Bool} :
    (m.filter keep).find? key = (m.find? key).filter fun rows => keep (key, rows) := by
  ext rows
  rw [Option.filter_eq_some_iff, find?_eq_some_iff, find?_eq_some_iff]
  exact List.mem_filter

/-- The map without tables gives no rows. -/
theorem find?_of_isEmpty (hm : m.isEmpty = true) : m.find? key = none := by
  rw [isEmpty, List.isEmpty_iff] at hm
  rw [find?, hm, List.lookup_nil]

/-! ## Whether a row is there -/

/-- Whether a row of a table is meant. -/
def hasRow (m : TableMap) (key : String) (id : Int64) : Bool := (m.find? key).any (·.contains id)

theorem hasRow_insert (rows : Rows) :
    (m.insert name rows).hasRow key id =
      if key = name then rows.contains id else m.hasRow key id := by
  rw [hasRow, find?_insert]
  split <;> rfl

theorem hasRow_union : (m.union n).hasRow key id = (m.hasRow key id || n.hasRow key id) := by
  rw [hasRow, find?_union, hasRow, hasRow]
  cases m.find? key <;> cases n.find? key <;> simp [mergeWith]

theorem hasRow_inter : (m.inter n).hasRow key id = (m.hasRow key id && n.hasRow key id) := by
  rw [hasRow, find?_inter, hasRow, hasRow]
  cases m.find? key <;> cases n.find? key <;> simp [Rows.contains_meet?]

/-- Leaving tables without rows out makes no difference. -/
theorem hasRow_filter_nonempty :
    (m.filter (!·.2.isEmpty)).hasRow key id = m.hasRow key id := by
  rw [hasRow, find?_filter, hasRow]
  cases m.find? key with
  | none => rfl
  | some rows =>
    by_cases hempty : rows.isEmpty = true
    · simp [Option.filter, hempty, Rows.contains_of_isEmpty hempty]
    · simp [Option.filter, hempty]

end TableMap

namespace Region

variable {r s : Region} {name : String} {id : Int64}

@[simp] theorem contains_tables (m : TableMap) :
    (tables m).contains name id = m.hasRow (Text.asciiLower name) id := rfl

/-- **A row lies in a union when it lies in either region.** -/
@[simp] theorem contains_union :
    (r.union s).contains name id = (r.contains name id || s.contains name id) := by
  cases r with
  | full => simp [union, contains]
  | empty => cases s <;> simp [union, contains]
  | tables m =>
    cases s with
    | full => simp [union, contains]
    | empty => simp [union, contains]
    | tables n => exact TableMap.hasRow_union

theorem contains_ofMap (m : TableMap) :
    (ofMap m).contains name id = m.hasRow (Text.asciiLower name) id := by
  rw [ofMap]
  split
  case isTrue hempty => rw [TableMap.hasRow, TableMap.find?_of_isEmpty hempty]; rfl
  case isFalse => rfl

/-- **A row lies in an intersection when it lies in both regions.** -/
@[simp] theorem contains_inter :
    (r.inter s).contains name id = (r.contains name id && s.contains name id) := by
  cases r with
  | empty => simp [inter, contains]
  | full => cases s <;> simp [inter, contains]
  | tables m =>
    cases s with
    | full => simp [inter, contains]
    | empty => simp [inter, contains]
    | tables n => rw [inter, contains_ofMap]; exact TableMap.hasRow_inter

/-- A union has the tables of both regions. -/
@[simp] theorem containsTable_union :
    (r.union s).containsTable name = (r.containsTable name || s.containsTable name) := by
  cases r with
  | full => simp [union, containsTable]
  | empty => cases s <;> simp [union, containsTable]
  | tables m =>
    cases s with
    | full => simp [union, containsTable]
    | empty => simp [union, containsTable]
    | tables n =>
      rw [union, containsTable, containsTable, containsTable, TableMap.find?_union]
      cases m.find? _ <;> cases n.find? _ <;> rfl

theorem contains_table (table : String) :
    (Region.table table).contains name id =
      decide (Text.asciiLower name = Text.asciiLower table) := by
  rw [Region.table, ofRows, contains_tables, TableMap.hasRow_insert]
  split <;> simp_all [Rows.contains, TableMap.hasRow, TableMap.find?, TableMap.empty]

/-- All rows of the given tables, and no others. -/
theorem contains_ofTables (names : List String) :
    (ofTables names).contains name id =
      names.any fun table => decide (Text.asciiLower name = Text.asciiLower table) := by
  have hfold : ∀ r : Region,
      (names.foldl (fun r name => r.union (.table name)) r).contains name id =
        (r.contains name id ||
          names.any fun table => decide (Text.asciiLower name = Text.asciiLower table)) := by
    induction names with
    | nil => simp
    | cons table rest ih =>
      intro r
      rw [List.foldl_cons, ih, contains_union, contains_table, List.any_cons, Bool.or_assoc]
  rw [ofTables, hfold]
  rfl

theorem isFull_ofTables (names : List String) : (ofTables names).isFull = false := by
  have hfold : ∀ r : Region, r.isFull = false →
      (names.foldl (fun r name => r.union (.table name)) r).isFull = false := by
    induction names with
    | nil => exact fun r hr => hr
    | cons table rest ih =>
      intro r hr
      refine ih _ ?_
      cases r with
      | full => cases hr
      | empty => rfl
      | tables m => rfl
  exact hfold _ rfl

/-- Narrowing a table of which a region has rows leaves the given rows of it, and all other rows
that lay in the region. -/
theorem contains_narrow {own : String} {ids : IdSet} {other : Int64} (hfull : r.isFull = false)
    (hr : r.contains own other = true) :
    (r.narrow own ids).contains name id =
      if Text.asciiLower name = own then decide (id ∈ ids) else r.contains name id := by
  cases r with
  | full => cases hfull
  | empty => cases hr
  | tables m =>
    rw [narrow, contains_ofMap, TableMap.hasRow_filter_nonempty, TableMap.hasRow_insert]
    rfl

end Region

end SqlTree
