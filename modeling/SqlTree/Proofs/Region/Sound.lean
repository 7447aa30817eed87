import SqlTree.Proofs.Engine.Eval
import SqlTree.Proofs.Query.Qualified
import SqlTree.Proofs.Region.Contains
import SqlTree.Proofs.Text.Lowercase

/-!
# Regions hold what requests read

The region of a request has all rows of all tables in the request, but for the rows of its own
source that the filter leaves out.

* `Expr.mem_of_rowIds?`: when a condition is true, the row id is among those that it tells.
* `Table.value` is what a column of a row is to the engine, `Table.Shadows` where that is not what
  the narrowing takes it for: a table may have an ordinary column that is called like a row id.
* `Query.region_sound`: other than that, regions are sound.
-/

namespace SqlTree

variable {ρ : Type}

/-! ## Row ids of conditions -/

namespace Expr

theorem idValue?_eq_some {e : Expr ρ} {ids : List Int64} (h : e.idValue? = some ids) :
    (e = .value .null ∧ ids = []) ∨ ∃ n, e = .value (.integer n) ∧ ids = [n] := by
  unfold idValue? at h
  split at h
  · exact .inl ⟨rfl, (Option.some.inj h).symm⟩
  · exact .inr ⟨_, rfl, (Option.some.inj h).symm⟩
  · cases h

end Expr

/-- The operators that hold between a row id and an integer just when these are equal. -/
theorem Engine.compare_rowId (E : Engine) {op : BinaryOp} (hop : op = .eq ∨ op = .is)
    (rowId : Int64) :
    (∀ n, E.apply op (.integer rowId) (.integer n) = .ofBool (rowId == n)) ∧
    (∀ n, E.apply op (.integer n) (.integer rowId) = .ofBool (n == rowId)) ∧
    E.truth (E.apply op (.integer rowId) .null) ≠ some true ∧
    E.truth (E.apply op .null (.integer rowId)) ≠ some true := by
  rcases hop with rfl | rfl
  · refine ⟨E.eq_integer rowId, fun n => E.eq_integer n rowId, ?_, ?_⟩
    · rw [(E.eq_null _).1, E.truth_null]
      nofun
    · rw [(E.eq_null _).2, E.truth_null]
      nofun
  · refine ⟨E.is_integer rowId, fun n => E.is_integer n rowId, ?_, ?_⟩
    · rw [(E.is_null _).1, E.truth_ofBool]
      nofun
    · rw [(E.is_null _).2, E.truth_ofBool]
      nofun

theorem exists_of_mapM_eq_some {α β : Type} {k : α → Option β} {as : List α} {bs : List β} {a : α}
    (h : as.mapM k = some bs) (ha : a ∈ as) : ∃ b ∈ bs, k a = some b := by
  induction as generalizing bs with
  | nil => cases ha
  | cons first rest ih =>
    simp only [List.mapM_cons, Option.bind_eq_bind, Option.bind_eq_some_iff, Option.pure_def,
      Option.some.injEq] at h
    obtain ⟨b, hb, bs, hbs, rfl⟩ := h
    rcases List.mem_cons.1 ha with rfl | ha
    · exact ⟨b, List.mem_cons_self, hb⟩
    · obtain ⟨b', hb', hk⟩ := ih hbs ha
      exact ⟨b', List.mem_cons_of_mem b hb', hk⟩

namespace Expr

section

variable {E : Engine} {isRowId : Expr ρ → Bool} {members : List (Env ρ)} {env : Env ρ}
  {rowId : Int64}

/-- A row id equals a value that is written just when it is the one that this value tells. -/
theorem compared_iff_mem {op : BinaryOp} (hop : op = .eq ∨ op = .is) {e : Expr ρ}
    {ids : List Int64} (hids : e.idValue? = some ids) :
    (E.truth (E.apply op (.integer rowId) (e.eval E members env)) = some true ↔ rowId ∈ ids) ∧
    (E.truth (E.apply op (e.eval E members env) (.integer rowId)) = some true ↔ rowId ∈ ids) := by
  obtain ⟨hleft, hright, hnull, hnull'⟩ := E.compare_rowId hop rowId
  rcases idValue?_eq_some hids with ⟨rfl, rfl⟩ | ⟨n, rfl, rfl⟩
  · rw [eval]
    exact ⟨iff_of_false hnull List.not_mem_nil, iff_of_false hnull' List.not_mem_nil⟩
  · rw [eval, hleft, hright, E.truth_ofBool, E.truth_ofBool]
    simp only [Option.some.injEq, beq_iff_eq, List.mem_singleton, true_and]
    exact eq_comm

/-- What is taken for a row id among some columns is the row id. -/
def FindsRowId (E : Engine) (isRowId : Expr ρ → Bool) (members : List (Env ρ)) (env : Env ρ)
    (rowId : Int64) (columns : List (String × Option ρ)) : Prop :=
  ∀ e : Expr ρ, isRowId e = true → e.columns ⊆ columns → e.eval E members env = .integer rowId

theorem FindsRowId.mono {columns columns' : List (String × Option ρ)}
    (h : FindsRowId E isRowId members env rowId columns) (hsub : columns' ⊆ columns) :
    FindsRowId E isRowId members env rowId columns' :=
  fun e he hcolumns => h e he fun _ hc => hsub (hcolumns hc)

mutual

/-- **When a condition is true, the row id is among those that it tells.** -/
theorem mem_of_rowIds? : ∀ (e : Expr ρ) {ids : IdSet},
    FindsRowId E isRowId members env rowId e.columns → e.rowIds? isRowId = some ids →
      E.truth (e.eval E members env) = some true → rowId ∈ ids
  | binary op lhs rhs, ids, hfind, hids, htrue => by
    rw [rowIds?] at hids
    split at hids
    · rename_i hop
      rw [eval] at htrue
      rw [comparedIds?] at hids
      split at hids
      · rename_i hlhs
        obtain ⟨l, hl, rfl⟩ := Option.map_eq_some_iff.1 hids
        rw [hfind lhs hlhs (List.subset_append_left _ _)] at htrue
        exact IdSet.mem_ofList.2 ((compared_iff_mem hop hl).1.1 htrue)
      · split at hids
        · rename_i hrhs
          obtain ⟨l, hl, rfl⟩ := Option.map_eq_some_iff.1 hids
          rw [hfind rhs hrhs (List.subset_append_right _ _)] at htrue
          exact IdSet.mem_ofList.2 ((compared_iff_mem hop hl).2.1 htrue)
        · cases hids
    · cases hids
  | member e list negated, ids, hfind, hids, htrue => by
    rw [rowIds?] at hids
    split at hids
    · rename_i hsubject
      rw [Bool.and_eq_true, Bool.not_eq_true'] at hsubject
      obtain ⟨l, hl, rfl⟩ := Option.map_eq_some_iff.1 hids
      rw [eval, hfind e hsubject.2 (List.subset_append_left _ _), E.truth_value, hsubject.1,
        Engine.isMember, if_neg (by decide), Truth.any_eq_true, evalList_eq_map,
        List.map_map] at htrue
      obtain ⟨item, hitem, hequal⟩ := List.mem_map.1 htrue
      obtain ⟨told, htold, hvalue⟩ := exists_of_mapM_eq_some hl hitem
      refine IdSet.mem_ofList.2 (List.mem_flatten.2 ⟨told, htold, ?_⟩)
      exact (compared_iff_mem (.inl rfl) hvalue).1.1 hequal
    · cases hids
  | conj terms, ids, hfind, hids, htrue => by
    rw [eval, E.truth_all, Truth.all_eq_true, List.forall_mem_map] at htrue
    exact mem_of_conjRowIds? terms hfind hids htrue
  | disj [], _, _, hids, _ => nomatch hids
  | disj (term :: terms), ids, hfind, hids, htrue => by
    rw [eval, E.truth_any, Truth.any_eq_true] at htrue
    exact mem_of_disjRowIds? (term :: terms) hfind hids htrue
  | column _ _, _, _, hids, _ => nomatch hids
  | value _, _, _, hids, _ => nomatch hids
  | verbatim _ _, _, _, hids, _ => nomatch hids
  | neg _, _, _, hids, _ => nomatch hids
  | call _ _, _, _, hids, _ => nomatch hids
  | countAll, _, _, hids, _ => nomatch hids
  | countDistinct _, _, _, hids, _ => nomatch hids

theorem mem_of_conjRowIds? : ∀ (es : List (Expr ρ)) {ids : IdSet},
    FindsRowId E isRowId members env rowId (listColumns es) →
      conjRowIds? isRowId es = some ids →
        (∀ v ∈ evalList E es members env, E.truth v = some true) → rowId ∈ ids
  | [], ids, _, hids, _ => by
    rw [conjRowIds?] at hids
    cases hids
  | e :: rest, ids, hfind, hids, htrue => by
    have hfirst := hfind.mono (List.subset_append_left e.columns (listColumns rest))
    have hrest := hfind.mono (List.subset_append_right e.columns (listColumns rest))
    rw [evalList, List.forall_mem_cons] at htrue
    rw [conjRowIds?] at hids
    cases hown : e.rowIds? isRowId with
    | none =>
      rw [hown] at hids
      exact mem_of_conjRowIds? rest hrest hids htrue.2
    | some own =>
      have hmem := mem_of_rowIds? e hfirst hown htrue.1
      cases hmore : conjRowIds? isRowId rest with
      | none =>
        rw [hown, hmore] at hids
        obtain rfl := Option.some.inj hids
        exact hmem
      | some more =>
        rw [hown, hmore] at hids
        obtain rfl := Option.some.inj hids
        exact IdSet.mem_inter.2 ⟨hmem, mem_of_conjRowIds? rest hrest hmore htrue.2⟩

theorem mem_of_disjRowIds? : ∀ (es : List (Expr ρ)) {ids : IdSet},
    FindsRowId E isRowId members env rowId (listColumns es) →
      disjRowIds? isRowId es = some ids →
        some true ∈ (evalList E es members env).map E.truth → rowId ∈ ids
  | [], ids, _, _, htrue => by
    rw [evalList] at htrue
    cases htrue
  | e :: rest, ids, hfind, hids, htrue => by
    have hfirst := hfind.mono (List.subset_append_left e.columns (listColumns rest))
    have hrest := hfind.mono (List.subset_append_right e.columns (listColumns rest))
    simp only [disjRowIds?, Option.bind_eq_bind, Option.bind_eq_some_iff, Option.pure_def,
      Option.some.injEq] at hids
    obtain ⟨own, hown, more, hmore, rfl⟩ := hids
    rw [evalList, List.map_cons, List.mem_cons] at htrue
    rcases htrue with htrue | htrue
    · exact IdSet.mem_union.2 (.inl (mem_of_rowIds? e hfirst hown htrue.symm))
    · exact IdSet.mem_union.2 (.inr (mem_of_disjRowIds? rest hrest hmore htrue))

end

end

end Expr

/-! ## Qualified conditions -/

namespace Expr

section

variable {isRowId : Expr ρ → Bool} {owner : ρ}

theorem idValue?_qualified (e : Expr ρ) : (e.qualified owner).idValue? = e.idValue? := by
  cases e with
  | column name owner? => cases owner? <;> rfl
  | _ => rfl

mutual

/-- Qualifying a condition changes what it tells no more than what is taken for a row id. -/
theorem rowIds?_qualified : ∀ e : Expr ρ,
    (e.qualified owner).rowIds? isRowId = e.rowIds? fun e => isRowId (e.qualified owner)
  | column name none => rfl
  | column name (some _) => rfl
  | value v => rfl
  | verbatim text arguments => rfl
  | binary op lhs rhs => by
    rw [qualified, rowIds?, rowIds?, comparedIds?, comparedIds?, idValue?_qualified,
      idValue?_qualified]
  | conj terms => by
    rw [qualified, rowIds?, rowIds?, conjRowIds?_qualified terms]
  | disj [] => rfl
  | disj (term :: terms) => by
    rw [qualified, qualifiedList, rowIds?, rowIds?, rowIds?_qualified term,
      disjRowIds?_qualified terms]
  | neg e => rfl
  | member e list negated => by
    rw [qualified, rowIds?, rowIds?, qualifiedList_eq_map, List.mapM_map]
    simp only [Function.comp_def, idValue?_qualified]
  | call name arguments => rfl
  | countAll => rfl
  | countDistinct e => rfl

theorem conjRowIds?_qualified : ∀ es : List (Expr ρ),
    conjRowIds? isRowId (qualifiedList owner es) =
      conjRowIds? (fun e => isRowId (e.qualified owner)) es
  | [] => rfl
  | e :: rest => by
    rw [qualifiedList, conjRowIds?, conjRowIds?, rowIds?_qualified e, conjRowIds?_qualified rest]

theorem disjRowIds?_qualified : ∀ es : List (Expr ρ),
    disjRowIds? isRowId (qualifiedList owner es) =
      disjRowIds? (fun e => isRowId (e.qualified owner)) es
  | [] => rfl
  | e :: rest => by
    rw [qualifiedList, disjRowIds?, disjRowIds?, rowIds?_qualified e, disjRowIds?_qualified rest]

end

end

end Expr

/-! ## Columns of a table -/

/-- A row of a table: its row id, and what is stored in the declared columns, under their names in
small letters. -/
structure StoredRow where
  rowId : Int64
  values : String → Value

namespace Table

variable (t : Table)

/-- Whether a name is that of the column declared as the row id. -/
def isRowIdKey (name : String) : Bool :=
  (t.declaredKey?.bind (·.rowIdColumn?)).any (Text.sameName · name)

/-- Whether a column of this name is declared. -/
def declares (name : String) : Bool :=
  (t.columns ++ (t.declaredKey?.map (·.columns)).getD []).any (Text.sameName · name)

/-- What the engine takes a column of a row for: a declared column goes before the row id. -/
def value (row : StoredRow) (name : String) : Value :=
  if t.isRowIdKey name then .integer row.rowId
  else if t.declares name then row.values (Text.asciiLower name)
  else if isRowIdName name then .integer row.rowId
  else .null

/-- Whether a table has an ordinary column that is called like a row id. -/
def shadows (name : String) : Bool := isRowIdName name && t.declares name && !t.isRowIdKey name

/-- Other than that, what a filter is narrowed by is the row id. -/
theorem value_eq_rowId {t : Table} {c : RowIdColumn} (row : StoredRow) {name : String}
    (hkey : t.primaryKey.rowIdColumn? = some c.name) (hname : c.hasName name = true)
    (hshadow : t.shadows name = false) : t.value row name = .integer row.rowId := by
  have hown : Text.sameName c.name name = true →
      t.isRowIdKey name = true ∨ isRowIdName name = true := by
    intro hsame
    rw [primaryKey] at hkey
    cases hdeclared : t.declaredKey? with
    | none =>
      rw [hdeclared] at hkey
      have hrowid : "rowid" = c.name := Option.some.inj hkey
      exact .inr (by simp only [isRowIdName, List.any_cons, hrowid, hsame, Bool.true_or])
    | some key =>
      rw [hdeclared] at hkey
      refine .inl ?_
      rw [isRowIdKey, hdeclared, Option.bind_some, show key.rowIdColumn? = some c.name from hkey]
      exact hsame
  have hcases : t.isRowIdKey name = true ∨ isRowIdName name = true := by
    simp only [RowIdColumn.hasName, List.any_cons, List.any_nil, Bool.or_false,
      Bool.or_eq_true] at hname
    rcases hname with h | h | h | h
    · exact .inr (by simp [isRowIdName, h])
    · exact .inr (by simp [isRowIdName, h])
    · exact .inr (by simp [isRowIdName, h])
    · exact hown h
  rw [value]
  split
  · rfl
  · rename_i hnot
    have hrow := hcases.resolve_left hnot
    have hdeclares : t.declares name = false := by
      simpa [shadows, hrow, hnot] using hshadow
    rw [hdeclares, if_neg (by decide), if_pos hrow]

end Table

/-! ## Tables of a request -/

mutual

/-- Qualifying keeps the tables. -/
theorem Query.Qualified.tableNames_eq : ∀ {q q' : Query}, q.Qualified q' →
    q'.tableNames = q.tableNames
  | ⟨source, clauses, joins, _⟩, _, h => by
    cases h with
    | kept => rfl
    | made hsource hjoins =>
      rw [Query.tableNames, Query.tableNames, Source.Qualified.tableNames_eq hsource,
        JoinsQualified.tableNames_eq hjoins]

theorem Source.Qualified.tableNames_eq : ∀ {owner : Alias} {s s' : Source}, s.Qualified owner s' →
    s'.tableNames = s.tableNames
  | _, .table name alias?, _, h => by
    cases h
    rfl
  | _, .nested query alias?, _, h => by
    cases h with
    | nested _ hq => rw [Source.tableNames, Source.tableNames, Query.Qualified.tableNames_eq hq]

theorem JoinsQualified.tableNames_eq : ∀ {joins joins' : List Join}, JoinsQualified joins joins' →
    joinsTableNames joins' = joinsTableNames joins
  | [], _, h => by
    cases h
    rfl
  | ⟨key, kind, link, mergedLinks, query⟩ :: rest, _, h => by
    cases h with
    | cons hq hrest =>
      rw [joinsTableNames, joinsTableNames, joinTableNames, joinTableNames,
        Query.Qualified.tableNames_eq hq, JoinsQualified.tableNames_eq hrest]

end

/-- The tables of a request, but for the one that it selects from itself. -/
def Query.otherTables (q : Query) : List String :=
  match q.source with
  | .table _ _ => joinsTableNames q.joins
  | .nested _ _ => q.tableNames

theorem Query.otherTables_subset (q : Query) : q.otherTables ⊆ q.tableNames := by
  obtain ⟨source, clauses, joins, isQualified⟩ := q
  cases source with
  | table name alias? => exact List.subset_append_right _ _
  | nested query alias? => exact List.Subset.refl _

/-- A table of a catalog is in a region under its name in small letters. -/
theorem Catalog.regionName_eq_ok {c : Catalog} {name n : String}
    (h : c.schema.regionName name = .ok n) :
    ∃ t, c.table name = .ok t ∧ n = Text.asciiLower name := by
  simp only [Schema.regionName, schema, bind_eq_ok, pure_eq_ok] at h
  obtain ⟨_, ⟨t, ht, rfl⟩, rfl⟩ := h
  refine ⟨t, ht, ?_⟩
  rw [table] at ht
  split at ht
  · rename_i u hfind
    obtain rfl := Except.ok.inj ht
    exact Text.sameName_iff.1 (by simpa using List.find?_some hfind)
  · cases ht

/-! ## Soundness -/

/-- What the columns of the source stand for: those without an occurrence, and those of an
occurrence that the source is. -/
structure Env.ReadsSource (env : Env Alias) (f : Forest) (own? : Option Alias)
    (read : String → Value) : Prop where
  bare : ∀ name, env.column name none = read name
  own : ∀ name a, own?.any (f.isSame a) = true → env.column name (some a) = read name

/-- Whether the filter of a request is true, where columns stand for given values. -/
def Query.Keeps (E : Engine) (db : Schema) (q : Query) (env : Env Alias) : Prop :=
  ∀ filter ∈ q.clauses.filter?, ∀ e, filter.resolve db = .ok e →
    E.truth (e.eval E [] env) = some true

/-- No column of the filter that belongs to the source is one that a table calls like a row id. -/
def Query.ReadsNoShadow (db : Schema) (f : Forest) (own? : Option Alias) (t : Table) (q : Query) :
    Prop :=
  ∀ filter ∈ q.clauses.filter?, ∀ e, filter.resolve db = .ok e → ∀ column ∈ e.columns,
    column.2.all (fun a => own?.any (f.isSame a)) = true → t.shadows column.1 = false

/-- The row ids that a qualified filter tells are told by the filter as it was given. What is taken
for a row id there is a column of the source with one of the names of the row id. -/
theorem Query.Qualified.rowIds?_eq_ok {f : Forest} {db : Schema} {q q' : Query} (h : q.Qualified q')
    {name : String} {ids : IdSet} (hids : q'.rowIds? f db name = .ok (some ids)) :
    ∃ key column filter e isRowId, db.primaryKey name = .ok key ∧
      key.rowIdColumn? = some column ∧ q.clauses.filter? = some filter ∧
      filter.resolve db = .ok e ∧ e.rowIds? isRowId = some ids ∧
      ∀ e : Expr Alias, isRowId e = true → ∃ name owner?, e = .column name owner? ∧
        RowIdColumn.hasName ⟨column, q'.source.alias?⟩ name = true ∧
        owner?.all (fun a => q'.source.alias?.any (f.isSame a)) = true := by
  rw [Query.rowIds?] at hids
  obtain ⟨key, hkey, hids⟩ := bind_eq_ok.1 hids
  split at hids
  · rename_i column filter' hcolumn hfilter'
    simp only [bind_eq_ok, pure_eq_ok] at hids
    obtain ⟨e', he', hids⟩ := hids
    cases h with
    | kept =>
      refine ⟨key, column, filter', e', _, hkey, hcolumn, hfilter', he', hids, fun e he => ?_⟩
      unfold RowIdColumn.isMatch at he
      split at he
      · rename_i name owner?
        rw [Bool.and_eq_true] at he
        refine ⟨name, owner?, rfl, he.1, ?_⟩
        cases owner? with
        | none => rfl
        | some a => exact he.2
      · cases he
    | @made owner source source' clauses joins joins' hsource hjoins =>
      obtain ⟨filter, hfilter, rfl⟩ := Option.map_eq_some_iff.1 hfilter'
      rw [Lookup.resolve_map] at he'
      obtain ⟨e, he, rfl⟩ := map_eq_ok.1 he'
      rw [Expr.rowIds?_qualified] at hids
      refine ⟨key, column, filter, e, _, hkey, hcolumn, hfilter, he, hids, fun e he => ?_⟩
      cases e with
      | column name owner? =>
        cases owner? with
        | none => exact ⟨name, none, rfl, (Bool.and_eq_true _ _ ▸ he).1, rfl⟩
        | some a =>
          exact ⟨name, some a, rfl, (Bool.and_eq_true _ _ ▸ he).1, (Bool.and_eq_true _ _ ▸ he).2⟩
      | _ => cases he
  · simp at hids

/-- What a narrowed filter says of a row for which it is true. -/
theorem Query.mem_of_rowIds? {c : Catalog} {q q' : Query} {g : Forest} (hq : q.Qualified q')
    {name : String} {ids : IdSet} (hids : q'.rowIds? g c.schema name = .ok (some ids)) {t : Table}
    (ht : c.table name = .ok t) {E : Engine} {row : StoredRow} {env : Env Alias}
    (hreads : env.ReadsSource g q'.source.alias? (t.value row))
    (hshadow : q.ReadsNoShadow c.schema g q'.source.alias? t) (hkeeps : q.Keeps E c.schema env) :
    row.rowId ∈ ids := by
  obtain ⟨key, column, filter, e, isRowId, hkey, hcolumn, hfilter, he, hids, hmatch⟩ :=
    hq.rowIds?_eq_ok hids
  obtain rfl : t.primaryKey = key := by
    simp only [Catalog.schema, ht, ok_bind, pure_eq_ok] at hkey
    exact hkey
  refine @Expr.mem_of_rowIds? _ E _ [] env _ e _ ?_ hids (hkeeps filter hfilter e he)
  intro e' he' hsub
  obtain ⟨name', owner?, rfl, hname, hown⟩ := hmatch e' he'
  have hplain := hshadow filter hfilter e he (name', owner?) (hsub List.mem_cons_self) hown
  have hvalue := Table.value_eq_rowId row hcolumn hname hplain
  rw [Expr.eval]
  cases owner? with
  | none => rw [hreads.bare, hvalue]
  | some a => rw [hreads.own name' a hown, hvalue]

theorem Query.Qualified.source_tableName? {q q' : Query} (h : q.Qualified q') :
    q'.source.tableName? = q.source.tableName? := by
  cases h with
  | kept => rfl
  | made hsource _ => exact hsource.tableName?_eq

/-- A region has all rows of all tables in the joins and the nested requests of a request. Of the
table that the request selects from, which is the occurrence `own?`, it has every row for which the
filter is true, unless the filter reads a column of this table that is called like a row id. -/
structure Region.Holds (r : Region) (c : Catalog) (f : Forest) (q : Query) (own? : Option Alias) :
    Prop where
  others : ∀ name ∈ q.otherTables, ∀ rowId, r.contains name rowId = true
  own : ∀ name alias?, q.source = .table name alias? → ∃ t, c.table name = .ok t ∧
    ∀ (E : Engine) (row : StoredRow) (env : Env Alias), env.ReadsSource f own? (t.value row) →
      q.ReadsNoShadow c.schema f own? t → q.Keeps E c.schema env →
        r.contains name row.rowId = true

theorem Query.tableNames_of_table {q : Query} {name : String} {alias? : Option Alias}
    (h : q.source = .table name alias?) : q.tableNames = name :: q.otherTables := by
  obtain ⟨source, clauses, joins, isQualified⟩ := q
  obtain rfl : source = .table name alias? := h
  rfl

/-- A region that is nowhere narrowed. -/
theorem Region.Holds.of_whole {r : Region} {c : Catalog} {f : Forest} {q : Query}
    {own? : Option Alias} (htable : ∀ name ∈ q.tableNames, ∃ t, c.table name = .ok t)
    (hr : ∀ name ∈ q.tableNames, ∀ rowId, r.contains name rowId = true) : r.Holds c f q own? := by
  refine ⟨fun name hname => hr name (q.otherTables_subset hname), fun name alias? hsource => ?_⟩
  have hname : name ∈ q.tableNames := q.tableNames_of_table hsource ▸ List.mem_cons_self
  obtain ⟨t, ht⟩ := htable name hname
  exact ⟨t, ht, fun _ row _ _ _ _ => hr name hname row.rowId⟩

/-- A region that is narrowed to the row ids that the filter tells, in a table that is read once. -/
theorem Region.Holds.of_narrow {c : Catalog} {q q' : Query} {g : Forest} (hq : q.Qualified q')
    {whole : Region} {name : String} {alias? : Option Alias}
    (hsource : q.source = .table name alias?)
    {ids : IdSet} (hids : q'.rowIds? g c.schema name = .ok (some ids)) {t : Table}
    (ht : c.table name = .ok t)
    (honce : ∀ other ∈ q.otherTables, Text.asciiLower other ≠ Text.asciiLower name)
    (hfull : whole.isFull = false)
    (hwhole : ∀ name ∈ q.tableNames, ∀ rowId, whole.contains name rowId = true)
    (hhas : whole.contains (Text.asciiLower name) 0 = true) :
    (whole.narrow (Text.asciiLower name) ids).Holds c g q q'.source.alias? := by
  constructor
  · intro other hother rowId
    rw [contains_narrow hfull hhas, if_neg (honce other hother)]
    exact hwhole other (q.otherTables_subset hother) rowId
  · intro name' alias?' hsource'
    obtain ⟨rfl, -⟩ := Source.table.inj (hsource'.symm.trans hsource)
    refine ⟨t, ht, fun E row env hreads hshadow hkeeps => ?_⟩
    rw [contains_narrow hfull hhas, if_pos rfl]
    exact decide_eq_true (Query.mem_of_rowIds? hq hids ht hreads hshadow hkeeps)

theorem Query.Qualified.source_eq_table {q q' : Query} (h : q.Qualified q') {name : String}
    {alias? : Option Alias} (hsource : q'.source = .table name alias?) :
    ∃ alias?, q.source = .table name alias? := by
  have hname := h.source_tableName?
  rw [hsource] at hname
  cases hq : q.source with
  | table name' alias?' =>
    rw [hq] at hname
    obtain rfl := Option.some.inj hname
    exact ⟨alias?', rfl⟩
  | nested query alias?' =>
    rw [hq] at hname
    cases hname

/-- **Regions are sound.** The region of a request has the rows that the request reads. -/
theorem Query.region_sound (c : Catalog) {q : Query} {f g : Forest} {r : Region}
    (h : AliasM.Runs (q.region c.schema) f r g) :
    ∃ q', AliasM.Runs q.qualify f q' g ∧ r.Holds c g q q'.source.alias? := by
  simp only [Query.region, AliasM.runs_bind, AliasM.runs_read] at h
  obtain ⟨q', _, hruns, hr, rfl⟩ := h
  have hq := q.qualify_qualified hruns
  refine ⟨q', hruns, ?_⟩
  rw [regionIn, hq.tableNames_eq] at hr
  obtain ⟨names, hnames, hr⟩ := bind_eq_ok.1 hr
  have htable : ∀ name ∈ q.tableNames, ∃ t, c.table name = .ok t := by
    intro name hname
    obtain ⟨n, -, hn⟩ := exists_of_forall₂ (mapM_eq_ok.1 hnames) hname
    obtain ⟨t, ht, -⟩ := Catalog.regionName_eq_ok hn
    exact ⟨t, ht⟩
  obtain rfl : names = q.tableNames.map Text.asciiLower :=
    eq_map_of_mapM_eq_ok (fun _ _ hn => (Catalog.regionName_eq_ok hn).choose_spec.2) hnames
  have hwhole : ∀ name ∈ q.tableNames, ∀ rowId,
      (Region.ofTables (q.tableNames.map Text.asciiLower)).contains name rowId = true := by
    intro name hname rowId
    rw [Region.contains_ofTables, List.any_map, List.any_eq_true]
    refine ⟨name, hname, ?_⟩
    rw [Function.comp_apply, Text.asciiLower_asciiLower, decide_eq_true_eq]
  split at hr
  · exact pure_eq_ok.1 hr ▸ .of_whole htable hwhole
  · rename_i name alias? hsource'
    obtain ⟨alias?', hsource⟩ := hq.source_eq_table hsource'
    have hsplit := q.tableNames_of_table hsource
    obtain ⟨own, hown, hr⟩ := bind_eq_ok.1 hr
    obtain ⟨t, ht, rfl⟩ := Catalog.regionName_eq_ok hown
    split at hr
    · exact pure_eq_ok.1 hr ▸ .of_whole htable hwhole
    · rename_i honce
      split at hr
      · rename_i ids hids
        have hhas := hwhole name (hsplit ▸ List.mem_cons_self) 0
        rw [Region.contains_ofTables, ← Text.asciiLower_asciiLower, ← Region.contains_ofTables]
          at hhas
        rw [← pure_eq_ok.1 hr]
        refine .of_narrow hq hsource hids ht (fun other hother hsame => honce ?_)
          (Region.isFull_ofTables _) hwhole hhas
        have hpos := List.count_pos_iff.2 (List.mem_map_of_mem (f := Text.asciiLower) hother)
        rw [hsame] at hpos
        rw [hsplit, List.map_cons, List.count_cons_self]
        omega
      · exact pure_eq_ok.1 hr ▸ .of_whole htable hwhole

/-- The book with row id seven, and all authors. -/
theorem Query.region_sound_bookOfAuthor :
    let author := (Query.table "author").selectNothing
    let q : Query := { (Query.table "book").filter (.binary .eq (.col "rowid") (.value (.integer 7))) with
      joins := [((Association.belongsTo "book" "author").withDestination author).toJoin
        .required true] }
    ∃ r g, AliasM.Runs (q.region bookCatalog.schema) .empty r g ∧
      r.contains "book" 7 = true ∧ r.contains "book" 8 = false ∧
      ∃ q', AliasM.Runs q.qualify .empty q' g ∧ r.Holds bookCatalog g q q'.source.alias? :=
  ⟨_, _, rfl, by decide +kernel, by decide +kernel, Query.region_sound bookCatalog rfl⟩

end SqlTree
