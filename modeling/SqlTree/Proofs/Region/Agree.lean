import SqlTree.Proofs.Statement.Agree
import SqlTree.Region.OfQuery

/-!
# Regions in forests that agree

What a request reads depends on its tables and on its filter. Of the identities in it matters only
which ones are the occurrence of its source, so that forests that agree on them give one region.

* `Expr.rowIds?_relabel`: a condition with other identities tells the same row ids, where the same
  columns are taken for the row id. `Expr.rowIds?_congr` is the case of the same identities.
* `Query.regionIn_agree` and `Query.region_agrees`: a request over known identities has one region
  in forests that agree on them.
-/

namespace SqlTree

variable {m : Alias → Alias} {known : Alias → Prop} {f g : Forest} {db : Schema} {q : Query}

/-! ## Row ids -/

namespace Expr

section

variable {isRowId isRowId' : Expr Alias → Bool}

theorem idValue?_relabel (e : Expr Alias) : (e.relabel m).idValue? = e.idValue? := by
  cases e <;> rfl

mutual

/-- **A condition with other identities tells the same row ids.** -/
theorem rowIds?_relabel (hmatch : ∀ e : Expr Alias, e.IsOver known →
    isRowId' (e.relabel m) = isRowId e) : ∀ e : Expr Alias, e.IsOver known →
      (e.relabel m).rowIds? isRowId' = e.rowIds? isRowId
  | column name owner?, _ => rfl
  | value v, _ => rfl
  | verbatim text arguments, _ => rfl
  | binary op lhs rhs, he => by
    rw [IsOver, columns, List.forall_mem_append] at he
    rw [relabel, rowIds?, rowIds?, comparedIds?, comparedIds?, idValue?_relabel, idValue?_relabel,
      hmatch lhs he.1, hmatch rhs he.2]
  | conj terms, he => by rw [relabel, rowIds?, rowIds?, conjRowIds?_relabel hmatch terms he]
  | disj [], _ => rfl
  | disj (term :: terms), he => by
    rw [IsOver, columns, listColumns, List.forall_mem_append] at he
    rw [relabel, relabelList, rowIds?, rowIds?, rowIds?_relabel hmatch term he.1,
      disjRowIds?_relabel hmatch terms he.2]
  | neg e, _ => rfl
  | member e list negated, he => by
    rw [IsOver, columns, List.forall_mem_append] at he
    rw [relabel, rowIds?, rowIds?, hmatch e he.1, relabelList_eq_map, List.mapM_map]
    simp only [Function.comp_def, idValue?_relabel]
  | call name arguments, _ => rfl
  | countAll, _ => rfl
  | countDistinct e, _ => rfl

theorem conjRowIds?_relabel (hmatch : ∀ e : Expr Alias, e.IsOver known →
    isRowId' (e.relabel m) = isRowId e) : ∀ es : List (Expr Alias),
      (∀ c ∈ listColumns es, ∀ a ∈ c.2, known a) →
        conjRowIds? isRowId' (relabelList m es) = conjRowIds? isRowId es
  | [], _ => rfl
  | e :: rest, hes => by
    rw [listColumns, List.forall_mem_append] at hes
    rw [relabelList, conjRowIds?, conjRowIds?, rowIds?_relabel hmatch e hes.1,
      conjRowIds?_relabel hmatch rest hes.2]

theorem disjRowIds?_relabel (hmatch : ∀ e : Expr Alias, e.IsOver known →
    isRowId' (e.relabel m) = isRowId e) : ∀ es : List (Expr Alias),
      (∀ c ∈ listColumns es, ∀ a ∈ c.2, known a) →
        disjRowIds? isRowId' (relabelList m es) = disjRowIds? isRowId es
  | [], _ => rfl
  | e :: rest, hes => by
    rw [listColumns, List.forall_mem_append] at hes
    rw [relabelList, disjRowIds?, disjRowIds?, rowIds?_relabel hmatch e hes.1,
      disjRowIds?_relabel hmatch rest hes.2]

end

/-- What a condition tells depends on what is taken for the row id among its own columns. -/
theorem rowIds?_congr (hmatch : ∀ e : Expr Alias, e.IsOver known → isRowId' e = isRowId e)
    {e : Expr Alias} (he : e.IsOver known) : e.rowIds? isRowId' = e.rowIds? isRowId := by
  have hself : ∀ e : Expr Alias, e.relabel id = e :=
    fun e => relabel_eq_self e fun _ _ => Option.map_id_apply
  have hids : (e.relabel id).rowIds? isRowId' = e.rowIds? isRowId :=
    rowIds?_relabel (fun e he => by rw [hself, hmatch e he]) e he
  rwa [hself] at hids

end

end Expr

/-- The same columns are taken for the row id of the source. -/
theorem RowIdColumn.isMatch_relabel (h : Forest.Agree m known [] f g) {column : String}
    {own? : Option Alias} (hown : ∀ a ∈ own?, known a) {e : Expr Alias} (he : e.IsOver known) :
    RowIdColumn.isMatch ⟨column, own?.map m⟩ g (e.relabel m) =
      RowIdColumn.isMatch ⟨column, own?⟩ f e := by
  cases e with
  | column name owner? =>
    cases owner? with
    | none => rfl
    | some owner =>
      have howner : known owner := he (name, some owner) List.mem_cons_self owner rfl
      have hany : (own?.map m).any (g.isSame (m owner) ·) = own?.any (f.isSame owner ·) := by
        cases own? with
        | none => rfl
        | some own => exact h.isSame_eq howner (hown own rfl)
      rw [Expr.relabel, Option.map_some, isMatch, isMatch, isOwn, isOwn, hany]
      rfl
  | _ => rfl

/-! ## Regions -/

section

variable (m : Alias → Alias)

mutual

theorem Query.tableNames_relabel : ∀ q : Query, (q.relabel m).tableNames = q.tableNames
  | ⟨source, _, joins, _⟩ => by
    rw [Query.relabel, Query.tableNames, Query.tableNames, Source.tableNames_relabel source,
      joinsTableNames_relabel joins]

theorem Source.tableNames_relabel : ∀ s : Source, (s.relabel m).tableNames = s.tableNames
  | .table name _ => by rw [Source.relabel, Source.tableNames, Source.tableNames]
  | .nested query _ => by
    rw [Source.relabel, Source.tableNames, Source.tableNames, Query.tableNames_relabel query]

theorem joinsTableNames_relabel : ∀ joins : List Join,
    joinsTableNames (relabelJoins m joins) = joinsTableNames joins
  | [] => rfl
  | ⟨_, _, _, _, query⟩ :: rest => by
    rw [relabelJoins, Join.relabel, joinsTableNames, joinsTableNames, joinTableNames,
      joinTableNames, Query.tableNames_relabel query, joinsTableNames_relabel rest]

end

end

theorem Query.rowIds?_agree (h : Forest.Agree m known [] f g) (hq : q.IsOver known)
    (name : String) : (q.relabel m).rowIds? g db name = q.rowIds? f db name := by
  rw [rowIds?, rowIds?, Query.clauses_relabel, Query.source_relabel, Source.alias?_relabel]
  refine bind_congr_ok fun key _ => ?_
  cases key.rowIdColumn? with
  | none => rfl
  | some column =>
    rw [Clauses.relabel]
    cases hfilter : q.clauses.filter? with
    | none => rfl
    | some filter =>
      simp only [Option.map_some, Lookup.resolve_map]
      refine map_bind_congr fun e he => congrArg Except.ok ?_
      exact e.rowIds?_relabel (fun _ => RowIdColumn.isMatch_relabel h hq.self.source)
        (hq.self.filter filter hfilter db e he)

/-- **A request over known identities reads one region in forests that agree.** -/
theorem Query.regionIn_agree (h : Forest.Agree m known [] f g) (hq : q.IsOver known) :
    (q.relabel m).regionIn g db = q.regionIn f db := by
  rw [regionIn, regionIn, Query.tableNames_relabel, Query.source_relabel]
  refine bind_congr_ok fun names _ => ?_
  cases q.source with
  | nested query alias? => rfl
  | table name alias? => simp only [Source.relabel, Query.rowIds?_agree h hq name]

theorem Query.region_agrees {d : Nat} (hq : q.IsOver known) (hwithin : q.IsWithin f)
    (h : Forest.Agree (Alias.shift f.cells.length d) known (q.openTables ++ []) f g) :
    (q.region db).Agrees (q.region db) (fun r r' _ _ => r' = r) f g := by
  refine (Query.qualify_agrees_shift hq hwithin h).bind ?_
  rintro q' _ f' g' ⟨rfl, hover, hagree⟩
  refine (AliasM.Agrees.read (Query.regionIn_agree hagree hover)).imp ?_
  exact fun r r' _ _ _ _ hr => hr.1

end SqlTree
