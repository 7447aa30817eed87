import SqlTree.Proofs.Alias.Fresh
import SqlTree.Proofs.Region.Monotone
import SqlTree.Query.Key
import Mathlib.Data.List.ReduceOption

/-!
# Regions of filters on a primary key

A table whose primary key is the row id, filtered by lists of keys one after the other. A list that
holds an integer narrows the region of the request to the integers in it. A list that holds none is
the condition that never holds, which is not about row ids and narrows nothing.

* `Query.tableByKeys` is the filtered table, and `IsTold` says what its filter tells of the row ids:
  nothing if no list holds an integer, else the integers that are in every list that holds one. One
  list tells this (`isTold_isOneOf`), and so do lists together when both parts do
  (`IsTold.append`).
* `Query.regionIn_of_rowIds?` is the region of a table without joins, as its filter tells it.
* `Query.region_tableByKeys`: the region of the filtered table. `Query.region_of_no_keys`: without a
  key that is looked for no row is found, but the table is in the region.
-/

namespace SqlTree

/-- A key that is looked for: an integer or `NULL`. -/
def Value.ofInteger? : Option Int64 → Value
  | some n => .integer n
  | none => .null

/-- A list of keys holds an integer. -/
def HasInteger (keys : List (Option Int64)) : Prop := ∃ n, some n ∈ keys

/-- The rows of a table, filtered by one list of keys after the other. -/
def Query.tableByKeys (name : String) (lists : List (List (Option Int64))) : Query :=
  lists.foldl (fun q keys => q.filterByPrimaryKey (keys.map .ofInteger?)) (.table name)

variable {keys : List (Option Int64)} {lists lists' : List (List (Option Int64))}

/-! ## What lists of keys tell -/

theorem reduceOption_eq_nil_iff : keys.reduceOption = [] ↔ ¬ HasInteger keys := by
  simp only [List.eq_nil_iff_forall_not_mem, List.reduceOption_mem_iff, HasInteger, not_exists]

/-- A key that is `NULL` is not looked for. -/
theorem Value.filter_map_ofInteger? (keys : List (Option Int64)) :
    (keys.map Value.ofInteger?).filter (!·.isNull) = keys.reduceOption.map .integer := by
  induction keys with
  | nil => rfl
  | cons key rest ih =>
    cases key with
    | none => exact ih
    | some n => exact congrArg (Value.integer n :: ·) ih

/-- What is told of the row ids by filters for the given lists of keys. -/
def IsTold (lists : List (List (Option Int64))) : Option IdSet → Prop
  | none => ∀ keys ∈ lists, ¬ HasInteger keys
  | some ids => (∃ keys ∈ lists, HasInteger keys) ∧
    ∀ n, n ∈ ids ↔ ∀ keys ∈ lists, HasInteger keys → some n ∈ keys

/-- Lists of keys that tell nothing leave what is told to the others. -/
theorem IsTold.append {ids? ids?' : Option IdSet} (h : IsTold lists ids?)
    (h' : IsTold lists' ids?') : IsTold (lists ++ lists') (mergeWith .inter ids? ids?') := by
  cases ids? with
  | none =>
    cases ids?' with
    | none => exact List.forall_mem_append.2 ⟨h, h'⟩
    | some ids' =>
      obtain ⟨⟨keys, hkeys, hinteger⟩, hmem⟩ := h'
      refine ⟨⟨keys, List.mem_append_right _ hkeys, hinteger⟩, fun n => (hmem n).trans ?_⟩
      rw [List.forall_mem_append]
      exact ⟨fun hn => ⟨fun keys hkeys hhas => absurd hhas (h keys hkeys), hn⟩, And.right⟩
  | some ids =>
    obtain ⟨⟨keys, hkeys, hinteger⟩, hmem⟩ := h
    cases ids?' with
    | none =>
      refine ⟨⟨keys, List.mem_append_left _ hkeys, hinteger⟩, fun n => (hmem n).trans ?_⟩
      rw [List.forall_mem_append]
      exact ⟨fun hn => ⟨hn, fun keys hkeys hhas => absurd hhas (h' keys hkeys)⟩, And.left⟩
    | some ids' =>
      refine ⟨⟨keys, List.mem_append_left _ hkeys, hinteger⟩, fun n => ?_⟩
      rw [IdSet.mem_inter, hmem, h'.2, List.forall_mem_append]

/-! ## Conditions on a key -/

namespace Expr

theorem listColumns_values (values : List Value) :
    listColumns (values.map (.value : Value → Expr Alias)) = [] := by
  induction values with
  | nil => rfl
  | cons v rest ih => exact ih

/-- The key stands without an occurrence in the condition. -/
theorem owner_of_mem_isOneOf {column : String} {values : List Value} {c : String × Option Alias}
    (hc : c ∈ (isOneOf column values).columns) : c.2 = none := by
  match values with
  | [] => cases hc
  | [v] =>
    obtain rfl := List.mem_singleton.1 hc
    rfl
  | v :: w :: rest =>
    have hmember : (isOneOf column (v :: w :: rest)).columns =
        (column, none) :: listColumns ((v :: w :: rest).map .value) := rfl
    rw [hmember, listColumns_values] at hc
    obtain rfl := List.mem_singleton.1 hc
    rfl

theorem isOneOf_isWithin (f : Forest) (column : String) (values : List Value) :
    (isOneOf column values).IsWithin f :=
  fun _ hc _ ha => nomatch (owner_of_mem_isOneOf hc).symm.trans ha

theorem mapM_idValue?_integers (ids : List Int64) :
    ((ids.map Value.integer).map value).mapM (idValue? : Expr Alias → _) =
      some (ids.map ([·])) := by
  induction ids with
  | nil => rfl
  | cons n rest ih =>
    rw [List.map_cons, List.map_cons, List.mapM_cons, ih]
    rfl

/-- The condition that the row id is one of some integers tells these. -/
theorem rowIds?_isOneOf {isRowId : Expr Alias → Bool} {column : String} {ids : List Int64}
    (hcolumn : isRowId (.col column) = true) (hids : ids ≠ []) :
    (isOneOf column (ids.map .integer)).rowIds? isRowId = some (.ofList ids) := by
  match ids with
  | [] => exact absurd rfl hids
  | [n] =>
    simp only [List.map_cons, List.map_nil, isOneOf, rowIds?, comparedIds?, hcolumn, if_true,
      idValue?, true_or, Option.map_some]
  | n :: m :: rest =>
    have hmember : isOneOf column ((n :: m :: rest).map .integer) =
        .member (.col column) (((n :: m :: rest).map Value.integer).map .value) false := rfl
    rw [hmember, rowIds?, hcolumn, mapM_idValue?_integers]
    exact congrArg (fun ids => some (IdSet.ofList ids)) (List.flatMap_singleton' _)

end Expr

/-- **What one list of keys tells.** -/
theorem isTold_isOneOf {isRowId : Expr Alias → Bool} {column : String}
    (hcolumn : isRowId (.col column) = true) (keys : List (Option Int64)) :
    IsTold [keys] ((Expr.isOneOf column (keys.reduceOption.map .integer)).rowIds? isRowId) := by
  by_cases hnone : keys.reduceOption = []
  · rw [hnone]
    exact List.forall_mem_singleton.2 (reduceOption_eq_nil_iff.1 hnone)
  · have hinteger : HasInteger keys := not_not.1 (mt reduceOption_eq_nil_iff.2 hnone)
    rw [Expr.rowIds?_isOneOf hcolumn hnone]
    refine ⟨⟨keys, List.mem_singleton_self _, hinteger⟩, fun n => ?_⟩
    rw [IdSet.mem_ofList, List.reduceOption_mem_iff, List.forall_mem_singleton]
    exact ⟨fun hn _ => hn, fun hn => hn hinteger⟩

/-! ## Regions with one table -/

theorem TableMap.insert_insert (m : TableMap) (name : String) (rows rows' : Rows) :
    (m.insert name rows).insert name rows' = m.insert name rows' := by
  refine ext_find? fun key => ?_
  rw [find?_insert, find?_insert, find?_insert]
  split <;> rfl

theorem TableMap.filter_insert_empty (keep : String × Rows → Bool) (name : String) (rows : Rows) :
    (empty.insert name rows).filter keep =
      if keep (name, rows) then empty.insert name rows else empty := by
  split
  case isTrue hkeep => simp [filter, insert, insertInto, empty, hkeep]
  case isFalse hdrop => simp [filter, insert, insertInto, empty, hdrop]

theorem IdSet.ofList_ids (s : IdSet) : ofList s.ids = s := ext_mem fun _ => mem_ofList

namespace Region

variable {name called : String}

/-- A table without regard to how its name is spelled, and rows without regard to their order. -/
theorem rows_congr {ids ids' : List Int64} (hname : Text.sameName called name = true)
    (hids : ∀ n, n ∈ ids ↔ n ∈ ids') : rows called ids = rows name ids' := by
  have hset : IdSet.ofList ids = IdSet.ofList ids' := IdSet.ext_mem fun n => by simp [hids]
  have hempty : ids.isEmpty = ids'.isEmpty := by
    rw [Bool.eq_iff_iff, List.isEmpty_iff, List.isEmpty_iff, List.eq_nil_iff_forall_not_mem,
      List.eq_nil_iff_forall_not_mem]
    exact forall_congr' fun n => not_congr (hids n)
  rw [rows, rows, ofRows, ofRows, hset, hempty, Text.sameName_iff.1 hname]

theorem table_congr (hname : Text.sameName called name = true) : table called = table name := by
  rw [table, table, ofRows, ofRows, Text.sameName_iff.1 hname]

theorem ofTables_asciiLower (name : String) :
    ofTables [Text.asciiLower name] = table name :=
  table_congr (Text.sameName_iff.2 (Text.asciiLower_asciiLower name))

/-- One table narrowed to some row ids. -/
theorem narrow_table (name : String) (ids : IdSet) :
    (table name).narrow (Text.asciiLower name) ids = rows name ids.ids := by
  rw [table, ofRows, narrow, TableMap.insert_insert, TableMap.filter_insert_empty, rows,
    IdSet.ofList_ids, ofRows]
  change ofMap (if (!ids.ids.isEmpty) = true then _ else _) = _
  by_cases hempty : ids.ids.isEmpty = true
  · rw [hempty]
    rfl
  · rw [Bool.eq_false_iff.2 hempty]
    rfl

end Region

/-! ## The filtered table -/

namespace Query

variable {f g : Forest} {db : Schema} {q q' : Query} {name declared column : String}
  {key : PrimaryKey}

theorem tableByKeys_append (keys : List (Option Int64)) :
    tableByKeys name (lists ++ [keys]) =
      (tableByKeys name lists).filterByPrimaryKey (keys.map .ofInteger?) := by
  rw [tableByKeys, List.foldl_append]
  rfl

/-- Filtering changes nothing but the filter. -/
theorem tableByKeys_eq (name : String) (lists : List (List (Option Int64))) :
    ∃ filter?, tableByKeys name lists =
      { table name with clauses := { (table name).clauses with filter? } } := by
  induction lists using List.reverseRecOn with
  | nil => exact ⟨none, rfl⟩
  | append_singleton lists keys ih =>
    obtain ⟨filter?, ih⟩ := ih
    rw [tableByKeys_append, ih]
    exact ⟨_, rfl⟩

theorem source_tableByKeys (name : String) (lists : List (List (Option Int64))) :
    (tableByKeys name lists).source = .table name none := by
  obtain ⟨filter?, h⟩ := tableByKeys_eq name lists
  rw [h]
  rfl

/-- A condition on the primary key is one on one column. -/
theorem eq_isOneOf_of_primaryKeyFilter {s : Source} {values : List Value} {e : Expr Alias}
    (h : (s.primaryKeyFilter values).resolve db = .ok e) :
    ∃ column, e = .isOneOf column values := by
  rw [Source.primaryKeyFilter] at h
  obtain ⟨table, -, h⟩ := bind_eq_ok.1 h
  obtain ⟨key, -, h⟩ := bind_eq_ok.1 h
  split at h
  · rename_i column _
    exact ⟨column, (pure_eq_ok.1 h).symm⟩
  · exact absurd h throw_ne_ok

theorem eq_rowId_of_rowIdColumn? (h : key.rowIdColumn? = some column) : key = .rowId column := by
  unfold PrimaryKey.rowIdColumn? at h
  split at h
  · obtain rfl := Option.some.inj h
    rfl
  · cases h

/-- The condition on a primary key that is the row id. -/
theorem resolve_primaryKeyFilter (hkey : db.primaryKey name = .ok key)
    (hcolumn : key.rowIdColumn? = some column) (values : List Value) :
    ((Source.table name none).primaryKeyFilter values).resolve db =
      .ok (.isOneOf column values) := by
  obtain rfl := eq_rowId_of_rowIdColumn? hcolumn
  simp only [Source.primaryKeyFilter, Source.keyTable, Source.tableName?, hkey, ok_bind]
  rfl

theorem tableByKeys_isWithin (f : Forest) (name : String)
    (lists : List (List (Option Int64))) : (tableByKeys name lists).IsWithin f := by
  induction lists using List.reverseRecOn with
  | nil => exact table_isWithin name f
  | append_singleton lists keys ih =>
    rw [tableByKeys_append]
    refine ih.filterBy fun db e he => ?_
    obtain ⟨column, rfl⟩ := eq_isOneOf_of_primaryKeyFilter he
    exact Expr.isOneOf_isWithin f column _

/-- **The filter tells of the row ids what the lists of keys do.** -/
theorem isTold_tableByKeys (f : Forest) (hkey : db.primaryKey name = .ok key)
    (hcolumn : key.rowIdColumn? = some column) (lists : List (List (Option Int64))) :
    ∃ ids?, (tableByKeys name lists).rowIds? f db name = .ok ids? ∧ IsTold lists ids? := by
  induction lists using List.reverseRecOn with
  | nil =>
    refine ⟨none, ?_, nofun⟩
    rw [rowIds?, hkey, ok_bind, hcolumn]
    rfl
  | append_singleton lists keys ih =>
    obtain ⟨ids?, hids, htold⟩ := ih
    have hfilter := resolve_primaryKeyFilter hkey hcolumn (keys.reduceOption.map .integer)
    have hown : RowIdColumn.isMatch ⟨column, none⟩ f (.col column) = true := by
      simp [RowIdColumn.isMatch, RowIdColumn.hasName, RowIdColumn.isOwn, Expr.col]
    rw [tableByKeys_append, filterByPrimaryKey, Value.filter_map_ofInteger?, source_tableByKeys,
      rowIds?_filterBy_eq hkey hcolumn hfilter hids, source_tableByKeys]
    exact ⟨_, rfl, htold.append (isTold_isOneOf hown keys)⟩

/-- **The region of a table without joins**, as its filter tells it. -/
theorem regionIn_of_rowIds? {ids? : Option IdSet} (hsource : q.source = .table name none)
    (hjoins : q.joins = []) (hname : db.declaredName name = .ok declared)
    (hids : q.rowIds? f db name = .ok ids?) :
    q.regionIn f db = .ok (ids?.elim (.table declared) fun ids => .rows declared ids.ids) := by
  have hregion : db.regionName name = .ok (Text.asciiLower declared) := by
    rw [Schema.regionName, hname]
    rfl
  have hnames : q.tableNames.mapM db.regionName = .ok [Text.asciiLower declared] := by
    rw [tableNames_eq_append, hsource, hjoins]
    simp [Source.tableNames, joinsTableNames, hregion]
  simp only [regionIn, hnames, ok_bind, hsource, hregion, List.count_singleton_self, hids,
    Region.ofTables_asciiLower, Nat.lt_irrefl, if_false]
  cases ids? with
  | none => rfl
  | some ids => exact congrArg Except.ok (Region.narrow_table declared ids)

/-- A table without an occurrence can be qualified. -/
theorem exists_runs_qualify (hsource : q.source = .table name none) (hjoins : q.joins = [])
    (f : Forest) : ∃ q' g, AliasM.Runs q.qualify f q' g := by
  obtain ⟨source, clauses, joins, isQualified⟩ := q
  obtain rfl : source = .table name none := hsource
  obtain rfl : joins = [] := hjoins
  cases isQualified with
  | true => exact ⟨_, _, rfl⟩
  | false =>
    have hroot := (Forest.grows_fresh f none).root_eq (List.mem_singleton_self _)
    have hbind : (f.fresh none).2.bind (f.fresh none).1 name =
        .ok ((f.fresh none).2.set (f.fresh none).1 (.bound name none)) := by
      rw [Forest.bind, hroot, Forest.cell_fresh_self]
    simp only [qualify, Source.qualify, qualifyJoins, AliasM.bind, AliasM.runs_bind,
      AliasM.runs_pure, AliasM.runs_change, AliasM.runs_fresh]
    exact ⟨_, _, _, _, rfl, _, _, ⟨(), _, hbind, rfl, rfl⟩, _, _, ⟨rfl, rfl⟩, rfl, rfl⟩

/-- **Keys narrow the region of a table whose primary key is the row id.** If some list holds an
integer, the region is the rows whose row ids are in every list that holds one, so nothing when the
lists have none in common. If no list holds an integer, the region is the table. -/
theorem region_tableByKeys (hf : f.IsGrounded) (hclosed : f.IsClosed)
    (hkey : db.primaryKey name = .ok key) (hcolumn : key.rowIdColumn? = some column)
    (hname : db.declaredName name = .ok declared) (lists : List (List (Option Int64))) :
    ∃ r g, AliasM.Runs ((tableByKeys name lists).region db) f r g ∧
      ∀ called, Text.sameName called declared = true →
        ((∃ keys ∈ lists, HasInteger keys) →
          (∀ ids : List Int64,
            (∀ n, n ∈ ids ↔ ∀ keys ∈ lists, HasInteger keys → some n ∈ keys) →
              r = .rows called ids) ∧
          ((∀ n, ∃ keys ∈ lists, HasInteger keys ∧ some n ∉ keys) → r = .empty)) ∧
        ((∀ keys ∈ lists, ¬ HasInteger keys) → r = .table called) := by
  obtain ⟨ids?, hids, htold⟩ := isTold_tableByKeys f hkey hcolumn lists
  obtain ⟨filter?, hq⟩ := tableByKeys_eq name lists
  obtain ⟨q', g, hruns⟩ := exists_runs_qualify (source_tableByKeys name lists) (hq ▸ rfl) f
  have hregion := regionIn_of_rowIds? (source_tableByKeys name lists) (hq ▸ rfl) hname hids
  rw [← regionIn_qualify hf hclosed (tableByKeys_isWithin f name lists) hruns] at hregion
  refine ⟨_, g, AliasM.runs_bind.2 ⟨q', g, hruns, AliasM.runs_read.2 ⟨hregion, rfl⟩⟩,
    fun called hcalled => ?_⟩
  cases ids? with
  | none =>
    refine ⟨fun ⟨keys, hkeys, hinteger⟩ => absurd hinteger (htold keys hkeys), fun _ => ?_⟩
    exact (Region.table_congr hcalled).symm
  | some ids =>
    obtain ⟨⟨keys, hkeys, hinteger⟩, hmem⟩ := htold
    have hrows : ∀ ids' : List Int64,
        (∀ n, n ∈ ids' ↔ ∀ keys ∈ lists, HasInteger keys → some n ∈ keys) →
          Region.rows declared ids.ids = .rows called ids' := fun ids' hids' =>
      (Region.rows_congr hcalled fun n => (hids' n).trans (hmem n).symm).symm
    refine ⟨fun _ => ⟨hrows, fun hnone => hrows [] fun n => ⟨nofun, fun hall => ?_⟩⟩,
      fun hnone => absurd hinteger (hnone keys hkeys)⟩
    obtain ⟨keys, hkeys, hinteger, hnot⟩ := hnone n
    exact absurd (hall keys hkeys hinteger) hnot

/-- The player with the row id two, and all players. -/
theorem region_tableByKeys_players :
    let db := Catalog.schema ⟨[{ name := "Player", declaredKey? := some (.rowId "id") }], false⟩
    (∃ r g, AliasM.Runs ((tableByKeys "player"
        [[some 1, some 2, none], [none], [some 3, some 2]]).region db) .empty r g ∧
      r = .rows "player" [2]) ∧
    ∃ r g, AliasM.Runs ((tableByKeys "player" [[none], []]).region db) .empty r g ∧
      r = .table "player" := by
  intro db
  have hregion := @region_tableByKeys .empty db "player" "Player" "id" (.rowId "id")
    Forest.isGrounded_empty Forest.isClosed_empty rfl rfl rfl
  constructor
  · obtain ⟨r, g, hruns, hr⟩ := hregion [[some 1, some 2, none], [none], [some 3, some 2]]
    refine ⟨r, g, hruns, ((hr "player" rfl).1 ⟨_, List.mem_cons_self, 1, by simp⟩).1 _ fun n => ?_⟩
    have hboth : n = 2 ↔ (n = 1 ∨ n = 2) ∧ (n = 3 ∨ n = 2) := by grind
    simpa [HasInteger] using hboth
  · obtain ⟨r, g, hruns, hr⟩ := hregion [[none], []]
    refine ⟨r, g, hruns, (hr "player" rfl).2 ?_⟩
    simp [HasInteger]

/-- **Without keys the region is the whole table**, though no row is found: the condition that never
holds is not about row ids. -/
theorem region_of_no_keys :
    let db := Catalog.schema
      ⟨[{ name := "player", columns := ["id", "name"], declaredKey? := some (.rowId "id") }], false⟩
    db.primaryKey "player" = .ok (.rowId "id") ∧ db.declaredName "player" = .ok "player" ∧
      (∀ n : Int64, n ∈ ([] : List Int64) ↔ ∀ keys ∈ [([] : List (Option Int64))], some n ∈ keys) ∧
      ∃ r g, AliasM.Runs ((tableByKeys "player" [[]]).region db) .empty r g ∧
        r = .table "player" ∧ r ≠ .rows "player" [] ∧ r ≠ .empty :=
  ⟨rfl, rfl, by simp, _, _, rfl, rfl, nofun, nofun⟩

end Query

end SqlTree
