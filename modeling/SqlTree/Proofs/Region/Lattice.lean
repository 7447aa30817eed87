import SqlTree.Proofs.Query.Nodes
import SqlTree.Proofs.Region.Contains
import SqlTree.Proofs.Runs
import SqlTree.Proofs.Text.Lowercase
import Mathlib.Order.CompletePartialOrder
import Mathlib.Order.ConditionallyCompleteLattice.Basic

/-!
# The lattice of regions

Regions are combined like elements of a lattice. It is not quite the one of sets of rows: a region
with all rows of a table is more than any with some rows of it, and the region of everything is more
than any region of tables. Both are a top put above what is there without them.

* `Region.view` is what a region is in that lattice. Unions and intersections of regions are joins
  and meets there (`Region.view_union`, `Region.view_inter`).
* `Region.IsNormal`: there are no tables without rows in a region, nor a map without tables. Such
  regions are told apart by their views (`Region.IsNormal.ext`).
* `Region.IsBuilt` are the regions that the operations of the program give. They are normal
  (`Region.IsBuilt.isNormal`), and with that they are a distributive lattice that goes along with
  `Region.contains` (`Region.IsBuilt.lattice`).
-/

namespace SqlTree

/-! ## Views -/

/-- All rows of a table as a top above the sets of row ids. -/
def Rows.view : Rows → WithTop (Set Int64)
  | all => ⊤
  | only ids => ({n | n ∈ ids} : Set Int64)

namespace Rows

variable {s t : Rows}

theorem view_union : (s.union t).view = s.view ⊔ t.view := by
  cases s with
  | all => exact (top_sup_eq _).symm
  | only ids =>
    cases t with
    | all => exact (sup_top_eq _).symm
    | only ids' =>
      have hset : {n | n ∈ ids.union ids'} = ({n | n ∈ ids} ∪ {n | n ∈ ids'} : Set Int64) := by
        ext n
        exact IdSet.mem_union
      exact (congrArg _ hset).trans (WithTop.coe_sup _ _)

theorem view_eq_bot_iff : s.view = ⊥ ↔ s.isEmpty = true := by
  cases s with
  | all => exact iff_of_false WithTop.top_ne_coe nofun
  | only ids =>
    rw [view, ← WithTop.coe_bot, WithTop.coe_eq_coe, isEmpty, IdSet.isEmpty_iff]
    exact Set.eq_empty_iff_forall_notMem

theorem view_meet? : (s.meet? t).elim ⊥ view = s.view ⊓ t.view := by
  cases s with
  | all => exact (top_inf_eq _).symm
  | only ids =>
    cases t with
    | all => exact (inf_top_eq _).symm
    | only ids' =>
      have hset : {n | n ∈ ids.inter ids'} = ({n | n ∈ ids} ∩ {n | n ∈ ids'} : Set Int64) := by
        ext n
        exact IdSet.mem_inter
      have hview : (only (ids.inter ids')).view = (only ids).view ⊓ (only ids').view :=
        (congrArg _ hset).trans (WithTop.coe_inf _ _)
      rw [meet?]
      split
      case isTrue hempty => exact (hview.symm.trans (view_eq_bot_iff.2 hempty)).symm
      case isFalse => exact hview

theorem view_injective (h : s.view = t.view) : s = t := by
  cases s with
  | all =>
    cases t with
    | all => rfl
    | only ids' => exact absurd h WithTop.top_ne_coe
  | only ids =>
    cases t with
    | all => exact absurd h WithTop.coe_ne_top
    | only ids' =>
      have hset := WithTop.coe_eq_coe.1 h
      exact congrArg only (IdSet.ext_mem fun n => Set.ext_iff.1 hset n)

theorem exists_contains (hs : s.isEmpty = false) : ∃ n, s.contains n = true := by
  cases s with
  | all => exact ⟨0, rfl⟩
  | only ids =>
    have hsome : ¬ ∀ n, ¬ n ∈ ids := fun hnone => by
      rw [isEmpty, IdSet.isEmpty_iff.2 hnone] at hs
      cases hs
    obtain ⟨n, hn⟩ := not_forall_not.1 hsome
    exact ⟨n, decide_eq_true hn⟩

theorem isEmpty_union (hs : s.isEmpty = false) : (s.union t).isEmpty = false := by
  obtain ⟨n, hn⟩ := exists_contains hs
  rw [Bool.eq_false_iff]
  intro hempty
  have hnone := contains_of_isEmpty hempty n
  rw [contains_union, hn] at hnone
  cases hnone

theorem isEmpty_of_meet? {u : Rows} (hs : s.isEmpty = false) (ht : t.isEmpty = false)
    (hu : s.meet? t = some u) : u.isEmpty = false := by
  cases s with
  | all => exact Option.some.inj hu ▸ ht
  | only ids =>
    cases t with
    | all => exact Option.some.inj hu ▸ hs
    | only ids' =>
      rw [meet?] at hu
      split at hu
      case isTrue => cases hu
      case isFalse hempty => exact Option.some.inj hu ▸ Bool.eq_false_iff.2 hempty

end Rows

namespace TableMap

variable {m n : TableMap} {key : String}

/-- The rows of each table, of those that are not there none. -/
def view (m : TableMap) (key : String) : WithTop (Set Int64) := (m.find? key).elim ⊥ Rows.view

theorem view_union : (m.union n).view = m.view ⊔ n.view := by
  funext key
  rw [Pi.sup_apply, view, find?_union, view, view]
  cases m.find? key with
  | none => exact (bot_sup_eq _).symm
  | some s =>
    cases n.find? key with
    | none => exact (sup_bot_eq _).symm
    | some t => exact Rows.view_union

theorem view_inter : (m.inter n).view = m.view ⊓ n.view := by
  funext key
  rw [Pi.inf_apply, view, find?_inter, view, view]
  cases m.find? key with
  | none => exact (bot_inf_eq _).symm
  | some s =>
    cases n.find? key with
    | none => exact (inf_bot_eq _).symm
    | some t => exact Rows.view_meet?

theorem view_of_isEmpty (hm : m.isEmpty = true) : m.view = ⊥ := by
  funext key
  rw [view, find?_of_isEmpty hm]
  rfl

/-- The tables of a map have rows, and names in small letters. -/
def IsNormal (m : TableMap) : Prop :=
  ∀ e ∈ m.entries, Text.asciiLower e.1 = e.1 ∧ e.2.isEmpty = false

theorem IsNormal.of_find? {rows : Rows} (hm : m.IsNormal) (h : m.find? key = some rows) :
    Text.asciiLower key = key ∧ rows.isEmpty = false :=
  hm _ (find?_eq_some_iff.1 h)

theorem isNormal_iff : m.IsNormal ↔ ∀ key rows, m.find? key = some rows →
    Text.asciiLower key = key ∧ rows.isEmpty = false :=
  ⟨fun hm _ _ => hm.of_find?, fun h e he => h e.1 e.2 (find?_eq_some_iff.2 he)⟩

/-- A normal map has no rows of just those tables that are not there. -/
theorem IsNormal.view_eq_bot_iff (hm : m.IsNormal) : m.view key = ⊥ ↔ m.find? key = none := by
  rw [view]
  cases hkey : m.find? key with
  | none => exact iff_of_true rfl rfl
  | some rows =>
    refine iff_of_false (fun hbot => ?_) nofun
    have hempty := Rows.view_eq_bot_iff.1 hbot
    rw [(hm.of_find? hkey).2] at hempty
    cases hempty

theorem IsNormal.ext (hm : m.IsNormal) (hn : n.IsNormal) (h : m.view = n.view) : m = n := by
  refine ext_find? fun key => ?_
  have hkey : m.view key = n.view key := congrFun h key
  cases hs : m.find? key with
  | none => exact (hn.view_eq_bot_iff.1 (hkey ▸ hm.view_eq_bot_iff.2 hs)).symm
  | some s =>
    cases ht : n.find? key with
    | none =>
      rw [hm.view_eq_bot_iff.1 (hkey ▸ hn.view_eq_bot_iff.2 ht)] at hs
      cases hs
    | some t =>
      rw [view, view, hs, ht] at hkey
      exact congrArg some (Rows.view_injective hkey)

theorem IsNormal.union (hm : m.IsNormal) (hn : n.IsNormal) : (m.union n).IsNormal := by
  rw [isNormal_iff]
  intro key rows hrows
  rw [find?_union] at hrows
  cases hs : m.find? key with
  | none =>
    rw [hs] at hrows
    exact hn.of_find? hrows
  | some s =>
    rw [hs] at hrows
    cases ht : n.find? key with
    | none =>
      rw [ht] at hrows
      exact hm.of_find? (hs.trans hrows)
    | some t =>
      rw [ht] at hrows
      obtain rfl := Option.some.inj hrows
      exact ⟨(hm.of_find? hs).1, Rows.isEmpty_union (hm.of_find? hs).2⟩

theorem IsNormal.inter (hm : m.IsNormal) (hn : n.IsNormal) : (m.inter n).IsNormal := by
  rw [isNormal_iff]
  intro key rows hrows
  rw [find?_inter, Option.bind_eq_some_iff] at hrows
  obtain ⟨s, hs, hrows⟩ := hrows
  obtain ⟨t, ht, hrows⟩ := Option.bind_eq_some_iff.1 hrows
  obtain ⟨hlower, hs⟩ := hm.of_find? hs
  exact ⟨hlower, Rows.isEmpty_of_meet? hs (hn.of_find? ht).2 hrows⟩

theorem isNormal_insert_empty {rows : Rows} (hkey : Text.asciiLower key = key)
    (hrows : rows.isEmpty = false) : (empty.insert key rows).IsNormal :=
  List.forall_mem_singleton.2 ⟨hkey, hrows⟩

/-- With the tables that have no rows left out, a map is normal. -/
theorem isNormal_filter {rows : Rows} (hm : m.IsNormal) (hkey : Text.asciiLower key = key) :
    ((m.insert key rows).filter (!·.2.isEmpty)).IsNormal := by
  rw [isNormal_iff]
  intro key' rows' h
  rw [find?_filter, find?_insert, Option.filter_eq_some_iff, Bool.not_eq_true'] at h
  refine ⟨?_, h.2⟩
  obtain ⟨h, -⟩ := h
  split at h
  case isTrue heq => rw [heq, hkey]
  case isFalse => exact (hm.of_find? h).1

end TableMap

namespace Region

variable {r s t : Region} {name : String}

/-- The region of everything as a top above the maps from tables to rows. -/
def view : Region → WithTop (String → WithTop (Set Int64))
  | full => ⊤
  | tables m => m.view
  | empty => ⊥

/-- **Unions of regions are joins.** -/
theorem view_union : (r.union s).view = r.view ⊔ s.view := by
  cases r with
  | full => exact (top_sup_eq _).symm
  | empty => cases s <;> exact (bot_sup_eq _).symm
  | tables m =>
    cases s with
    | full => exact (sup_top_eq _).symm
    | empty => exact (sup_bot_eq _).symm
    | tables n => exact (congrArg _ TableMap.view_union).trans (WithTop.coe_sup _ _)

theorem view_ofMap (m : TableMap) : (ofMap m).view = m.view := by
  rw [ofMap]
  split
  case isTrue hempty => rw [TableMap.view_of_isEmpty hempty]; rfl
  case isFalse => rfl

/-- **Intersections of regions are meets.** -/
theorem view_inter : (r.inter s).view = r.view ⊓ s.view := by
  cases r with
  | empty => exact (bot_inf_eq _).symm
  | full =>
    cases s with
    | empty => exact (inf_bot_eq _).symm
    | full => exact (top_inf_eq _).symm
    | tables n => exact (top_inf_eq _).symm
  | tables m =>
    cases s with
    | full => exact (inf_top_eq _).symm
    | empty => exact (inf_bot_eq _).symm
    | tables n =>
      rw [inter, view_ofMap, TableMap.view_inter]
      exact WithTop.coe_inf _ _

/-! ## Normal regions -/

/-- A region of tables has a table, its tables have rows, and names in small letters. -/
def IsNormal : Region → Prop
  | tables m => m.isEmpty = false ∧ m.IsNormal
  | full | empty => True

theorem IsNormal.view_ne_bot {m : TableMap} (hm : (tables m).IsNormal) : m.view ≠ ⊥ := by
  intro hbot
  obtain ⟨hempty, hm⟩ := hm
  have hnone : m = .empty := hm.ext (n := .empty) (by simp [TableMap.IsNormal, TableMap.empty])
    (hbot.trans (TableMap.view_of_isEmpty rfl).symm)
  rw [hnone] at hempty
  cases hempty

/-- **Normal regions are told apart by their views.** -/
theorem IsNormal.ext (hr : r.IsNormal) (hs : s.IsNormal) (h : r.view = s.view) : r = s := by
  have hfull : ∀ {m : TableMap}, (tables m).view ≠ ⊤ := WithTop.coe_ne_top
  have hempty : ∀ {m : TableMap}, (tables m).IsNormal → (tables m).view ≠ ⊥ :=
    fun hm hbot => hm.view_ne_bot (WithTop.coe_eq_coe.1 hbot)
  cases r with
  | full =>
    cases s with
    | full => rfl
    | tables n => exact absurd h.symm hfull
    | empty => exact absurd h WithTop.top_ne_coe
  | empty =>
    cases s with
    | full => exact absurd h.symm WithTop.top_ne_coe
    | tables n => exact absurd h.symm (hempty hs)
    | empty => rfl
  | tables m =>
    cases s with
    | full => exact absurd h hfull
    | tables n => exact congrArg tables (hr.2.ext hs.2 (WithTop.coe_eq_coe.1 h))
    | empty => exact absurd h (hempty hr)

theorem isNormal_ofMap {m : TableMap} (hm : m.IsNormal) : (ofMap m).IsNormal := by
  rw [ofMap]
  split
  case isTrue => trivial
  case isFalse hempty => exact ⟨Bool.eq_false_iff.2 hempty, hm⟩

theorem isNormal_ofRows {rows : Rows} (hrows : rows.isEmpty = false) :
    (ofRows name rows).IsNormal :=
  ⟨rfl, TableMap.isNormal_insert_empty (Text.asciiLower_asciiLower name) hrows⟩

theorem isNormal_rows (ids : List Int64) : (rows name ids).IsNormal := by
  rw [rows]
  split
  case isTrue => trivial
  case isFalse hempty =>
    refine isNormal_ofRows (Bool.eq_false_iff.2 fun hnone => hempty ?_)
    rw [List.isEmpty_iff, List.eq_nil_iff_forall_not_mem]
    exact fun n hn => IdSet.isEmpty_iff.1 hnone n (IdSet.mem_ofList.2 hn)

theorem IsNormal.union (hr : r.IsNormal) (hs : s.IsNormal) : (r.union s).IsNormal := by
  cases r with
  | full => exact hr
  | empty => cases s <;> exact hs
  | tables m =>
    cases s with
    | full => exact hs
    | empty => exact hr
    | tables n =>
      have hunion := hr.2.union hs.2
      refine ⟨Bool.eq_false_iff.2 fun hempty => hr.view_ne_bot ?_, hunion⟩
      -- A union without tables is the bottom, and so are both of its parts.
      rw [← le_bot_iff, ← TableMap.view_of_isEmpty hempty, TableMap.view_union]
      exact le_sup_left

theorem IsNormal.inter (hr : r.IsNormal) (hs : s.IsNormal) : (r.inter s).IsNormal := by
  cases r with
  | empty => exact hr
  | full => cases s <;> exact hs
  | tables m =>
    cases s with
    | full => exact hr
    | empty => exact hs
    | tables n => exact isNormal_ofMap (hr.2.inter hs.2)

theorem isNormal_ofTables (names : List String) : (ofTables names).IsNormal := by
  have hfold : ∀ r : Region, r.IsNormal →
      (names.foldl (fun r name => r.union (.table name)) r).IsNormal := by
    induction names with
    | nil => exact fun r hr => hr
    | cons table rest ih => exact fun r hr => ih _ (hr.union (isNormal_ofRows rfl))
  exact hfold _ trivial

theorem IsNormal.narrow (hr : r.IsNormal) (hname : Text.asciiLower name = name) (ids : IdSet) :
    (r.narrow name ids).IsNormal := by
  cases r with
  | full => exact hr
  | empty => exact hr
  | tables m => exact isNormal_ofMap (TableMap.isNormal_filter hr.2 hname)

/-- **The region of a request is normal.** -/
theorem isNormal_regionIn {f : Forest} {db : Schema} {q : Query} (h : q.regionIn f db = .ok r) :
    r.IsNormal := by
  rw [Query.regionIn] at h
  obtain ⟨names, -, h⟩ := bind_eq_ok.1 h
  split at h
  · exact pure_eq_ok.1 h ▸ isNormal_ofTables names
  · obtain ⟨own, hown, h⟩ := bind_eq_ok.1 h
    split at h
    · exact pure_eq_ok.1 h ▸ isNormal_ofTables names
    · split at h
      · simp only [Schema.regionName, bind_eq_ok, pure_eq_ok] at hown
        obtain ⟨declared, -, rfl⟩ := hown
        have hlower := Text.asciiLower_asciiLower declared
        exact pure_eq_ok.1 h ▸ (isNormal_ofTables names).narrow hlower _
      · exact pure_eq_ok.1 h ▸ isNormal_ofTables names

/-- A normal region is empty when no row lies in it. -/
theorem IsNormal.isEmpty_iff (hr : r.IsNormal) :
    r.isEmpty = true ↔ ∀ name id, r.contains name id = false := by
  cases r with
  | full => exact iff_of_false nofun fun hnone => nomatch hnone "" 0
  | empty => exact iff_of_true rfl fun _ _ => rfl
  | tables m =>
    obtain ⟨hempty, hm⟩ := hr
    refine iff_of_false (Bool.eq_false_iff.1 hempty) fun hnone => ?_
    obtain ⟨e, he⟩ := List.exists_mem_of_ne_nil m.entries (by simpa [TableMap.isEmpty] using hempty)
    obtain ⟨hlower, hrows⟩ := hm e he
    obtain ⟨n, hn⟩ := Rows.exists_contains hrows
    have hnot := hnone e.1 n
    rw [contains, hlower, TableMap.find?_eq_some_iff.2 he, Option.any_some, hn] at hnot
    cases hnot

/-! ## Built regions -/

/-- Regions that the operations of the program give: those of everything and of nothing, of tables,
of rows and of requests, and what is combined from these. -/
inductive IsBuilt : Region → Prop
  | full : IsBuilt full
  | empty : IsBuilt empty
  | table (name : String) : IsBuilt (table name)
  | rows (name : String) (ids : List Int64) : IsBuilt (rows name ids)
  | ofQuery {db : Schema} {q : Query} {f g : Forest} {r : Region}
      (h : AliasM.Runs (q.region db) f r g) : IsBuilt r
  | union {r s : Region} (hr : IsBuilt r) (hs : IsBuilt s) : IsBuilt (r.union s)
  | inter {r s : Region} (hr : IsBuilt r) (hs : IsBuilt s) : IsBuilt (r.inter s)

/-- **Built regions are normal.** -/
theorem IsBuilt.isNormal (hr : r.IsBuilt) : r.IsNormal := by
  induction hr with
  | full => trivial
  | empty => trivial
  | table name => exact isNormal_ofRows rfl
  | rows name ids => exact isNormal_rows ids
  | ofQuery h =>
    simp only [Query.region, AliasM.runs_bind, AliasM.runs_read] at h
    obtain ⟨q, g, -, hregion, -⟩ := h
    exact isNormal_regionIn hregion
  | union _ _ ihr ihs => exact ihr.union ihs
  | inter _ _ ihr ihs => exact ihr.inter ihs

/-- The laws of a distributive lattice with a least and a greatest element. -/
structure LatticeLaws (r s t : Region) : Prop where
  union_comm : r.union s = s.union r
  inter_comm : r.inter s = s.inter r
  union_assoc : (r.union s).union t = r.union (s.union t)
  inter_assoc : (r.inter s).inter t = r.inter (s.inter t)
  union_self : r.union r = r
  inter_self : r.inter r = r
  union_inter_self : r.union (r.inter s) = r
  inter_union_self : r.inter (r.union s) = r
  union_inter : r.union (s.inter t) = (r.union s).inter (r.union t)
  inter_union : r.inter (s.union t) = (r.inter s).union (r.inter t)
  union_empty : r.union .empty = r
  inter_full : r.inter .full = r
  union_full : r.union .full = .full
  inter_empty : r.inter .empty = .empty

/-- Normal regions keep the laws since the lattice of views does. -/
theorem IsNormal.latticeLaws (hr : r.IsNormal) (hs : s.IsNormal) (ht : t.IsNormal) :
    LatticeLaws r s t where
  union_comm := (hr.union hs).ext (hs.union hr) (by simp only [view_union, sup_comm])
  inter_comm := (hr.inter hs).ext (hs.inter hr) (by simp only [view_inter, inf_comm])
  union_assoc := ((hr.union hs).union ht).ext (hr.union (hs.union ht))
    (by simp only [view_union, sup_assoc])
  inter_assoc := ((hr.inter hs).inter ht).ext (hr.inter (hs.inter ht))
    (by simp only [view_inter, inf_assoc])
  union_self := (hr.union hr).ext hr (by rw [view_union, sup_idem])
  inter_self := (hr.inter hr).ext hr (by rw [view_inter, inf_idem])
  union_inter_self := (hr.union (hr.inter hs)).ext hr
    (by rw [view_union, view_inter, sup_inf_self])
  inter_union_self := (hr.inter (hr.union hs)).ext hr
    (by rw [view_inter, view_union, inf_sup_self])
  union_inter := (hr.union (hs.inter ht)).ext ((hr.union hs).inter (hr.union ht))
    (by simp only [view_union, view_inter, sup_inf_left])
  inter_union := (hr.inter (hs.union ht)).ext ((hr.inter hs).union (hr.inter ht))
    (by simp only [view_union, view_inter, inf_sup_left])
  union_empty := by cases r <;> rfl
  inter_full := by cases r <;> rfl
  union_full := by cases r <;> rfl
  inter_empty := by cases r <;> rfl

/-- **The lattice of regions.** There are no tables without rows in a region that is built, nor a
map without tables, so that one in which no row lies is empty. A row lies in a union when it lies in
either region, and in an intersection when it lies in both. The operations are those of a
distributive lattice. -/
theorem IsBuilt.lattice (hr : r.IsBuilt) (hs : s.IsBuilt) (ht : t.IsBuilt) :
    r.IsNormal ∧
    (r.isEmpty = true ↔ ∀ name id, r.contains name id = false) ∧
    (∀ name id, (r.union s).contains name id = (r.contains name id || s.contains name id)) ∧
    (∀ name id, (r.inter s).contains name id = (r.contains name id && s.contains name id)) ∧
    (∀ name, (r.union s).containsTable name = (r.containsTable name || s.containsTable name)) ∧
    LatticeLaws r s t :=
  ⟨hr.isNormal, hr.isNormal.isEmpty_iff, fun _ _ => contains_union, fun _ _ => contains_inter,
    fun _ => containsTable_union, hr.isNormal.latticeLaws hs.isNormal ht.isNormal⟩

/-- All authors with two books, one of these books, and what a request for another book reads. -/
theorem IsBuilt.lattice_books :
    let r := (Region.table "Author").union (.rows "Book" [8, 7])
    let s := Region.rows "BOOK" [7]
    let q := (Query.table "book").filter (.binary .eq (.col "rowid") (.value (.integer 9)))
    ∃ t g, AliasM.Runs (q.region bookCatalog.schema) .empty t g ∧ t = .rows "book" [9] ∧
      r.inter s = s ∧ s.inter t = .empty ∧ LatticeLaws r s t ∧
      ∀ name id, (r.inter s).contains name id = (r.contains name id && s.contains name id) := by
  intro r s q
  have hruns : AliasM.Runs (q.region bookCatalog.schema) .empty _ _ := rfl
  have hlattice := ((IsBuilt.table "Author").union (.rows "Book" [8, 7])).lattice
    (.rows "BOOK" [7]) (.ofQuery hruns)
  obtain ⟨-, -, -, hinter, -, hlaws⟩ := hlattice
  exact ⟨_, _, hruns, by decide +kernel, by decide +kernel, by decide +kernel, hlaws, hinter⟩

end Region

end SqlTree
