import SqlTree.Proofs.Engine.Count

/-!
# What counts count

The request for the number of rows of a request, compiled and run: which number its one row holds.

* `Query.countStatement_rows` is about requests whose rows are computed one by one. The count is the
  number of rows, except where different values of one expression are counted in place, which leaves
  out a row of `NULL`.
* `Query.countStatement_aggregates` is about requests for aggregates of all rows of a table. These
  have one row at most. Counted from outside, that is the count; counted in place, it is the rows of
  the table that are counted, and there is no count when the condition on groups does not hold.
-/

namespace SqlTree

theorem Expr.hasAggregate_qualified {ρ : Type} (E : Engine) (owner : ρ) (e : Expr ρ) :
    (e.qualified owner).hasAggregate E = e.hasAggregate E := by
  rw [← hasAggregate_mapOwners E id, mapOwners_qualified, hasAggregate_mapOwners]

theorem SelectItem.hasAggregate_qualified {ρ : Type} (E : Engine) (owner : ρ) (i : SelectItem ρ) :
    (i.qualified owner).hasAggregate E = i.hasAggregate E := by
  rw [← hasAggregate_mapOwners E id, mapOwners_qualified, hasAggregate_mapOwners]

/-- An engine that compares values and has no functions, texts and aggregates of its own. -/
def Engine.plain : Engine where
  truth
    | .null => none
    | .integer n => some (n != 0)
    | _ => some false
  apply op v w :=
    match op with
    | .eq => if v.isNull || w.isNull then .null else .ofBool (decide (v = w))
    | .is => .ofBool (decide (v = w))
    | _ => .null
  call _ _ := .null
  isAggregate _ _ := false
  aggregate _ _ := .null
  text _ _ _ := .null
  isAggregateText _ := false
  aggregateText _ _ _ := .null
  pick _ := 0
  key v := v
  precedes _ _ := true
  truth_null := rfl
  truth_integer _ := rfl
  eq_integer m n := by simp [Value.isNull, Bool.beq_eq_decide_eq]
  is_integer m n := by simp [Bool.beq_eq_decide_eq]
  eq_null v := by simp [Value.isNull]
  is_null v := by cases v <;> simp [Value.isNull]
  key_eq_null _ h := h

variable {f g : Forest} {db : Schema} {q q' : Query} {t : Select}

namespace Query

/-! ## Which requests are counted in place -/

/-- A request for the rows of a table, all of them and one by one. -/
structure IsOnTable (q : Query) : Prop where
  table : q.source.tableName?.isSome
  joins : q.joins = []
  group : q.clauses.group? = none
  limit : q.clauses.limit? = none

/-- The selection is one expression. -/
def IsOneExpression (q : Query) : Prop := ∃ e name?, q.clauses.selection = [.expr e name?]

/-- The different values of one expression from a table are asked for. -/
def AsksValues (q : Query) : Prop :=
  q.IsOnTable ∧ q.clauses.distinct = true ∧ q.IsOneExpression

theorem isSome_countInPlace? : q.unordered.countInPlace?.isSome ↔
    q.IsOnTable ∧ (q.clauses.distinct = true → q.IsOneExpression) := by
  have hjoins : q.unordered.joins = [] ↔ q.joins = [] := by
    obtain ⟨_, _, joins, _⟩ := q
    cases joins <;> simp [unordered, unorderedJoins]
  rw [Option.isSome_iff_exists]
  simp only [countInPlace?_eq_some, source_unordered, clauses_unordered, hjoins]
  constructor
  · rintro ⟨e, ⟨hgroup, hlimit, hnone, htable⟩, hcount⟩
    refine ⟨⟨htable, hnone, hgroup, hlimit⟩, fun hdistinct => ?_⟩
    rcases hcount with ⟨hall, -⟩ | ⟨-, e', name?, hselection, -⟩
    · rw [hall] at hdistinct
      cases hdistinct
    · exact ⟨e', name?, hselection⟩
  · rintro ⟨hq, hone⟩
    have hplain := And.intro hq.group (And.intro hq.limit (And.intro hq.joins hq.table))
    cases hdistinct : q.clauses.distinct with
    | false => exact ⟨.countAll, hplain, .inl ⟨rfl, rfl⟩⟩
    | true =>
      obtain ⟨e, name?, hselection⟩ := hone hdistinct
      exact ⟨.countDistinct e, hplain, .inr ⟨rfl, e, name?, hselection, rfl⟩⟩

/-! ## Aggregates of a selection -/

/-- A request on a table is qualified without joins, and its clauses with its source. -/
theorem IsOnTable.of_qualify (hq : q.IsOnTable) (h : AliasM.Runs q.qualify f q' g) :
    q'.joins = [] ∧
      (q'.clauses = q.clauses ∨ ∃ owner, q'.clauses = q.clauses.qualified owner) := by
  obtain ⟨source, clauses, joins, isQualified⟩ := q
  obtain rfl : joins = [] := hq.joins
  cases isQualified with
  | true =>
    rw [qualify, AliasM.runs_pure] at h
    obtain ⟨rfl, -⟩ := h
    exact ⟨rfl, .inl rfl⟩
  | false =>
    simp only [qualify, qualifyJoins, AliasM.runs_bind, AliasM.runs_pure] at h
    obtain ⟨owner, _, -, source', _, -, joins', _, ⟨rfl, rfl⟩, rfl, -⟩ := h
    exact ⟨rfl, .inr ⟨owner, rfl⟩⟩

/-- The selection of a request on a table. Its rows are groups where the request has a condition on
groups or selects an aggregate. -/
theorem IsOnTable.compile (E : Engine) (h : AliasM.Runs (q.compile db) f t g)
    (hq : q.IsOnTable) : t.group = [] ∧ t.limit? = none ∧ t.distinct = q.clauses.distinct ∧
      t.isAggregate E =
        (q.clauses.having?.isSome || q.clauses.selection.any (·.hasAggregate E)) := by
  obtain ⟨q', hqualify, ht⟩ := runs_compile.1 h
  obtain ⟨c, -, ht⟩ := selectIn_eq_ok.1 ht
  obtain ⟨⟨own, sites, hw⟩, -⟩ := toSelect_isWritten ht
  obtain ⟨hjoins, hclauses⟩ := hq.of_qualify hqualify
  have hitems : q'.items = q'.clauses.selection := by
    obtain ⟨source, clauses, joins, isQualified⟩ := q'
    obtain rfl : joins = [] := hjoins
    rw [items, joinsItems, List.append_nil]
  have haggregate :
      t.items.any (·.hasAggregate E) = q'.clauses.selection.any (·.hasAggregate E) := by
    rw [hw.items_eq, hitems, List.any_map]
    simp only [Function.comp_def, SelectItem.hasAggregate_mapOwners]
  have hsame : q'.clauses.group? = none ∧ q'.clauses.limit? = none ∧
      q'.clauses.distinct = q.clauses.distinct ∧
      q'.clauses.having?.isSome = q.clauses.having?.isSome ∧
      q'.clauses.selection.any (·.hasAggregate E) = q.clauses.selection.any (·.hasAggregate E) := by
    rcases hclauses with hsame | ⟨owner, hsame⟩
    · rw [hsame]
      exact ⟨hq.group, hq.limit, rfl, rfl, rfl⟩
    · rw [hsame, Clauses.qualified, hq.group, hq.limit]
      simp only [Option.map_none, Option.isSome_map, List.any_map, Function.comp_def,
        SelectItem.hasAggregate_qualified, and_self]
  obtain ⟨hgroup?, hlimit?, hdistinct, hhaving?, hselection⟩ := hsame
  have hgroup := hw.group
  rw [hgroup?, Scope.group, pure_eq_ok] at hgroup
  refine ⟨hgroup.symm, hw.limit.trans hlimit?, hw.distinct.trans hdistinct, ?_⟩
  rw [Select.isAggregate, ← hgroup, isSome_eq_of_optionRel hw.having, haggregate, hhaving?,
    hselection]
  rfl

/-! ## Counts -/

/-- The count of a request that is counted from outside has the number of its rows. -/
theorem values_outside (E : Engine) (tables : String → Relation) {n : String → String}
    (hn : RespectsNames n) (t : Select) :
    ((Select.rename n { t with order := [] }).countedOutside.result E tables).rows.map (·.values) =
      [[.integer (.ofNat (t.result E tables).rows.length)]] := by
  rw [Select.values_countedOutside, Select.result_rename tables hn,
    Select.length_result_unordered]

/-- The count of a request that is counted in place has a row where the condition on groups holds of
all rows taken together. -/
theorem values_inPlace (E : Engine) (tables : String → Relation) (h : t.IsCountedInPlace) :
    ((Select.countedInPlace { t with order := [] }).result E tables).rows.map (·.values) =
      if t.keepsGroup E (t.relations E tables) (t.oneGroup E (t.relations E tables)) then
        [[.integer (.ofNat (t.counted E (t.relations E tables)))]]
      else [] := by
  rw [Select.result_eq]
  exact Select.values_countedInPlace E { t with order := [] } (t.relations E tables)
    ⟨h.joins, h.group, h.limit, h.items⟩

/-- **What counts of row by row requests count.** The count has one row. The number in it is the
number of rows of the request, except that the different values of one expression from a table are
counted without the row of `NULL` that they may have. -/
theorem countStatement_rows (E : Engine) (tables : String → Relation) {st : Statement}
    (hf : f.IsGrounded) (hclosed : f.IsClosed) (hq : q.IsWithin f)
    (hrows : ∀ i ∈ q.items, i.hasAggregate E = false) (hhaving : q.clauses.having? = none)
    (h : AliasM.Runs (q.selectStatement db) f st g) :
    ∃ t t' g', AliasM.Runs (q.compile db) f t g ∧ t.fragment.statement = st ∧
      AliasM.Runs (q.count.compile db) f t' g' ∧
      AliasM.Runs (q.countStatement db) f t'.fragment.statement g' ∧
      ∃ k : Nat, (t'.result E tables).rows.map (·.values) = [[.integer (.ofNat k)]] ∧
        let nulls := q.AsksValues ∧ [.null] ∈ (t.result E tables).rows.map (·.values)
        (nulls → k + 1 = (t.result E tables).rows.length) ∧
        (¬ nulls → k = (t.result E tables).rows.length) := by
  obtain ⟨t, ht, hst⟩ := runs_selectStatement.1 h
  rcases compile_count hf hclosed hq ht with
    ⟨hcount, hcounted, hruns⟩ | ⟨hnot, n, g', hn, hruns⟩
  · obtain ⟨htable, hone⟩ := isSome_countInPlace?.1 hcount
    have hselection : q.clauses.selection.any (·.hasAggregate E) = false := by
      rw [List.any_eq_false]
      intro i hi
      rw [hrows i (q.items_eq ▸ List.mem_flatMap.2 ⟨q, q.nodes_eq ▸ List.mem_cons_self, hi⟩)]
      exact Bool.false_ne_true
    obtain ⟨-, -, hdistinct, hgroups⟩ := htable.compile E ht
    have haggregate : t.isAggregate E = false := by
      rw [hgroups, hhaving, hselection]
      rfl
    have hkeeps : ∀ rs s, t.keepsGroup E rs s = true := by
      have hnone : t.having? = none := by
        rw [Select.isAggregate, Bool.or_eq_false_iff, Bool.or_eq_false_iff] at haggregate
        exact Option.isNone_iff_eq_none.1 (Option.isSome_eq_false_iff.1 haggregate.1.2)
      intro rs s
      rw [Select.keepsGroup, hnone, Option.all_none]
    have hadd := Select.counted_add E t (t.relations E tables) hcounted haggregate
    rw [← Select.result_eq] at hadd
    have hasks : q.AsksValues ↔ t.distinct = true := by
      rw [hdistinct]
      exact ⟨fun hasks => hasks.2.1, fun h => ⟨htable, h, hone h⟩⟩
    refine ⟨t, _, g, ht, hst, hruns, runs_selectStatement.2 ⟨_, hruns, rfl⟩,
      t.counted E (t.relations E tables), ?_, fun hnulls => ?_, fun hnulls => ?_⟩
    · rw [values_inPlace E tables hcounted, if_pos (hkeeps _ _)]
    · rw [← hadd, if_pos ⟨hasks.1 hnulls.1, hnulls.2⟩]
    · rw [← hadd, if_neg fun h => hnulls ⟨hasks.2 h.1, h.2⟩, Nat.add_zero]
  · refine ⟨t, _, g', ht, hst, hruns, runs_selectStatement.2 ⟨_, hruns, rfl⟩, _,
      values_outside E tables hn t, fun hnulls => ?_, fun _ => rfl⟩
    exact absurd (isSome_countInPlace?.2 ⟨hnulls.1.1, fun _ => hnulls.1.2.2⟩) hnot

/-- Two books, the title of one of which is not known. -/
def twoBooks : Relation := ⟨[some "title"], [⟨[.text "Emma"], none⟩, ⟨[.null], none⟩]⟩

/-- The different titles of books. -/
def bookTitles : Query := ((Query.table "book").select [.expr (.col "title") none]).distinct

/-- A selection from a table has the identities that are in its items. -/
theorem isWithin_of_items (name : String) (distinct : Bool) {items : List (SelectItem Alias)}
    (hitems : ∀ i ∈ items, i.IsWithin f) :
    IsWithin f ⟨.table name none, { selection := items, distinct := distinct }, [], false⟩ := by
  refine ⟨⟨?_, hitems, ?_, ?_, ?_, ?_⟩, trivial, trivial⟩ <;>
    simp [Source.alias?, SortOrder.empty, SortOrder.exprs, SortOrder.elementsExprs]

/-- Different titles, one of which is not known, are counted as one less than there are rows. -/
theorem countStatement_rows_titles :
    ∃ (t t' : Select) (g g' : Forest) (k : Nat),
      AliasM.Runs (bookTitles.compile bookCatalog.schema) .empty t g ∧
      AliasM.Runs (bookTitles.countStatement bookCatalog.schema) .empty t'.fragment.statement g' ∧
      (t'.result .plain fun _ => twoBooks).rows.map (·.values) = [[.integer (.ofNat k)]] ∧
      k + 1 = (t.result .plain fun _ => twoBooks).rows.length := by
  have hwithin : bookTitles.IsWithin .empty := by
    refine isWithin_of_items "book" true fun i hi => ?_
    obtain rfl := List.mem_singleton.1 hi
    simp [SelectItem.IsWithin, Expr.IsWithin, Expr.col, Expr.columns]
  have hplain : ∀ i ∈ bookTitles.items, i.hasAggregate .plain = false := by
    intro i hi
    obtain rfl := List.mem_singleton.1 hi
    rfl
  obtain ⟨st, g, hruns⟩ : ∃ st g,
      AliasM.Runs (bookTitles.selectStatement bookCatalog.schema) .empty st g := ⟨_, _, rfl⟩
  obtain ⟨t, t', g', ht, -, -, hcount, k, hk, hnulls, -⟩ :=
    countStatement_rows .plain (fun _ => twoBooks) Forest.isGrounded_empty Forest.isClosed_empty
      hwithin hplain rfl hruns
  refine ⟨t, t', g, g', k, ht, hcount, hk, hnulls ⟨⟨⟨rfl, rfl, rfl, rfl⟩, rfl, _, _, rfl⟩, ?_⟩⟩
  obtain ⟨g₀, ht₀⟩ : ∃ g, AliasM.Runs (bookTitles.compile bookCatalog.schema) .empty
      ⟨true, [.expr (.column "title" none) none], .table "book" none, [], none, [], none, [], none⟩
      g := ⟨_, rfl⟩
  obtain ⟨rfl, -⟩ := ht.unique ht₀
  rw [Select.result_eq, Select.mem_resultFrom _ _ _ rfl]
  exact ⟨⟨[⟨[.null], none⟩], none⟩, .tail _ (.head _), rfl⟩

/-- **What counts of aggregates count.** The request is for one group, the rows of the table that
`WHERE` keeps, and has a row for it where `HAVING` keeps it. Counted from outside, that is what is
counted. Counted in place, there is a row for the same group, also just where `HAVING` keeps it, and
the number in it is that of the members of the group. An engine refuses to count different values of
an aggregate, and nothing is said of this. -/
theorem countStatement_aggregates (E : Engine) (tables : String → Relation) {st : Statement}
    (hf : f.IsGrounded) (hclosed : f.IsClosed) (hq : q.IsWithin f) (htable : q.IsOnTable)
    (haggregate : q.clauses.having?.isSome ∨ ∃ i ∈ q.clauses.selection, i.hasAggregate E = true)
    (h : AliasM.Runs (q.selectStatement db) f st g) :
    ∃ t t' g', AliasM.Runs (q.compile db) f t g ∧ t.fragment.statement = st ∧
      AliasM.Runs (q.count.compile db) f t' g' ∧
      AliasM.Runs (q.countStatement db) f t'.fragment.statement g' ∧
      t.isAggregate E = true ∧
      t.groups E (t.relations E tables) = [t.found E (t.relations E tables)] ∧
      (t.result E tables).rows.length ≤ 1 ∧
      ((q.clauses.distinct = true →
          ∃ e name?, q.clauses.selection = [.expr e name?] ∧ e.hasAggregate E = false) →
        (t'.result E tables).rows.map (·.values) = (t.result E tables).rows.map fun _ =>
          [.integer (.ofNat (t.counted E (t.relations E tables)))]) ∧
      (q.clauses.distinct = true → ¬ q.IsOneExpression →
        (t'.result E tables).rows.map (·.values) =
          [[.integer (.ofNat (t.result E tables).rows.length)]]) := by
  obtain ⟨t, ht, hst⟩ := runs_selectStatement.1 h
  obtain ⟨hgroup, hlimit, -, hgroups⟩ := htable.compile E ht
  have hrows : t.isAggregate E = true := by
    rw [hgroups, Bool.or_eq_true, List.any_eq_true]
    exact haggregate
  have hvalues := Select.values_of_oneGroup E t (t.relations E tables) hrows hgroup hlimit
  rw [← Select.result_eq] at hvalues
  have hone : t.groups E (t.relations E tables) = [t.found E (t.relations E tables)] := by
    rw [Select.groups, hgroup]
    rfl
  have hlength : (t.result E tables).rows.length ≤ 1 := by
    rw [← List.length_map (·.values), hvalues]
    split <;> simp
  rcases compile_count hf hclosed hq ht with
    ⟨hcount, hcounted, hruns⟩ | ⟨hnot, n, g', hn, hruns⟩
  · refine ⟨t, _, g, ht, hst, hruns, runs_selectStatement.2 ⟨_, hruns, rfl⟩, hrows, hone, hlength,
      fun _ => ?_, fun hdistinct hmany => ?_⟩
    · have hsame : ((t.result E tables).rows.map fun _ =>
          [Value.integer (.ofNat (t.counted E (t.relations E tables)))]) =
            ((t.result E tables).rows.map (·.values)).map fun _ =>
              [.integer (.ofNat (t.counted E (t.relations E tables)))] := by
        rw [List.map_map]
        rfl
      rw [values_inPlace E tables hcounted, hsame, hvalues]
      split <;> rfl
    · exact absurd ((isSome_countInPlace?.1 hcount).2 hdistinct) hmany
  · refine ⟨t, _, g', ht, hst, hruns, runs_selectStatement.2 ⟨_, hruns, rfl⟩, hrows, hone, hlength,
      fun hsome => ?_, fun _ _ => values_outside E tables hn t⟩
    refine absurd (isSome_countInPlace?.2 ⟨htable, fun hdistinct => ?_⟩) hnot
    obtain ⟨e, name?, hselection, -⟩ := hsome hdistinct
    exact ⟨e, name?, hselection⟩

/-- The number of books. -/
def bookNumber : Query := (Query.table "book").select [.expr .countAll none]

/-- The number of two books is one row, and counted as two. -/
theorem countStatement_aggregates_books :
    ∃ (t t' : Select) (g g' : Forest),
      AliasM.Runs (bookNumber.compile bookCatalog.schema) .empty t g ∧
      AliasM.Runs (bookNumber.countStatement bookCatalog.schema) .empty t'.fragment.statement g' ∧
      (t.result .plain fun _ => twoBooks).rows.length ≤ 1 ∧
      (t'.result .plain fun _ => twoBooks).rows.map (·.values) =
        (t.result .plain fun _ => twoBooks).rows.map fun _ => [.integer (.ofNat 2)] := by
  have hwithin : bookNumber.IsWithin .empty := by
    refine isWithin_of_items "book" false fun i hi => ?_
    obtain rfl := List.mem_singleton.1 hi
    simp [SelectItem.IsWithin, Expr.IsWithin, Expr.columns]
  obtain ⟨st, g, hruns⟩ : ∃ st g,
      AliasM.Runs (bookNumber.selectStatement bookCatalog.schema) .empty st g := ⟨_, _, rfl⟩
  obtain ⟨t, t', g', ht, -, -, hcount, -, -, hlength, hplace, -⟩ :=
    countStatement_aggregates .plain (fun _ => twoBooks) Forest.isGrounded_empty
      Forest.isClosed_empty hwithin ⟨rfl, rfl, rfl, rfl⟩
      (.inr ⟨.expr .countAll none, .head _, rfl⟩) hruns
  obtain ⟨g₀, ht₀⟩ : ∃ g, AliasM.Runs (bookNumber.compile bookCatalog.schema) .empty
      ⟨false, [.expr .countAll none], .table "book" none, [], none, [], none, [], none⟩ g :=
    ⟨_, rfl⟩
  obtain ⟨rfl, -⟩ := ht.unique ht₀
  exact ⟨_, t', g, g', ht, hcount, hlength, hplace fun h => nomatch h⟩

end Query

end SqlTree
