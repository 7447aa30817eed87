import SqlTree.Proofs.Query.Skip
import SqlTree.Proofs.Statement.NewNames
import SqlTree.Statement.Compile

/-!
# Compiling counts

How the request for the number of rows is compiled, where the request for the rows is. `compile`
gives the selection of a request before it is written.

* `Query.compile_unordered`: without its order a request is the same selection without order.
* `Query.compile_counting`: a request counted in place is the same selection with a count selected.
* `Query.compile_countedOutside`: a request counted from outside is the count of the same selection,
  under other names. The additional source has an identity of its own, which is made before the
  others, so later identities and numbered names may differ.
-/

namespace SqlTree

variable {f g : Forest} {db : Schema} {c : Context} {q q' : Query} {t : Select} {e : Expr Alias}

namespace Query

/-- The selection that a request is compiled to. -/
def compile (db : Schema) (q : Query) : AliasM Select := do
  let q ← q.qualify
  AliasM.read (q.selectIn · db)

theorem selectIn_eq_ok : q.selectIn f db = .ok t ↔
    ∃ c, Context.ofQuery f db q = .ok c ∧ q.toSelect c = .ok t := by
  rw [selectIn, bind_eq_ok]

theorem runs_compile : AliasM.Runs (q.compile db) f t g ↔
    ∃ q', AliasM.Runs q.qualify f q' g ∧ q'.selectIn g db = .ok t := by
  simp only [compile, AliasM.runs_bind, AliasM.runs_read]
  constructor
  · rintro ⟨q', g', hq, ht, rfl⟩
    exact ⟨q', hq, ht⟩
  · rintro ⟨q', hq, ht⟩
    exact ⟨q', g, hq, ht, rfl⟩

/-- The statement of a request is its selection, written. -/
theorem runs_selectStatement {st : Statement} : AliasM.Runs (q.selectStatement db) f st g ↔
    ∃ t, AliasM.Runs (q.compile db) f t g ∧ t.fragment.statement = st := by
  simp only [runs_compile, selectStatement, AliasM.runs_bind, AliasM.runs_read, AliasM.runs_pure]
  constructor
  · rintro ⟨q', g', hq, t, _, ⟨ht, rfl⟩, rfl, rfl⟩
    exact ⟨t, ⟨q', hq, ht⟩, rfl⟩
  · rintro ⟨t, ⟨q', hq, ht⟩, rfl⟩
    exact ⟨q', g, hq, t, g, ⟨ht, rfl⟩, rfl, rfl⟩

end Query

/-! ## Without order -/

mutual

theorem Query.nodes_unordered : ∀ q : Query, q.unordered.nodes = q.nodes.map (·.unordered)
  | ⟨_, _, joins, _⟩ => by
    rw [Query.unordered, Query.nodes, Query.nodes, joinsNodes_unordered joins, List.map_cons,
      Query.unordered]

theorem joinsNodes_unordered : ∀ joins : List Join,
    joinsNodes (Query.unorderedJoins joins) = (joinsNodes joins).map (·.unordered)
  | [] => rfl
  | j :: rest => by
    rw [Query.unorderedJoins, joinsNodes, joinsNodes, joinNodes_unordered j,
      joinsNodes_unordered rest, List.map_append]

theorem joinNodes_unordered : ∀ j : Join,
    joinNodes (Query.unorderedJoin j) = (joinNodes j).map (·.unordered)
  | ⟨_, _, _, _, query⟩ => by
    rw [Query.unorderedJoin, joinNodes, joinNodes, Query.nodes_unordered query]

end

theorem Query.source_unordered (q : Query) : q.unordered.source = q.source := by
  cases q
  rfl

theorem Query.clauses_unordered (q : Query) :
    q.unordered.clauses = { q.clauses with order := .empty } := by
  cases q
  rfl

theorem joinsItems_unordered (joins : List Join) :
    joinsItems (Query.unorderedJoins joins) = joinsItems joins := by
  simp only [joinsItems_eq, joinsNodes_unordered, List.flatMap_map, Query.clauses_unordered]

theorem joinsLevelAliases_unordered (joins : List Join) :
    joinsLevelAliases (Query.unorderedJoins joins) = joinsLevelAliases joins := by
  simp only [joinsLevelAliases_eq, joinsNodes_unordered, List.flatMap_map, Query.source_unordered]

theorem Query.statementAliases_unordered (q : Query) :
    q.unordered.statementAliases = q.statementAliases := by
  simp only [Query.statementAliases_eq, Query.nodes_unordered, List.flatMap_map,
    Query.source_unordered]

mutual

theorem pushOrders_unordered : ∀ (joins : List Join) (o : SortOrder),
    pushOrders o (Query.unorderedJoins joins) = o
  | [], o => rfl
  | j :: rest, o => by
    rw [Query.unorderedJoins, pushOrders, joinOrder_unordered j, pushOrders_unordered rest]
    rfl

theorem joinOrder_unordered : ∀ j : Join, joinOrder (Query.unorderedJoin j) = .empty
  | ⟨_, _, _, _, ⟨_, _, joins, _⟩⟩ => by
    rw [Query.unorderedJoin, Query.unordered, joinOrder, Query.fullOrder,
      pushOrders_unordered joins]

end

section

variable (c)

mutual

theorem joinsToItems_unordered (s : Scope) : ∀ (joins : List Join) (left : Alias)
    (mayRequire : Bool), joinsToItems c s left mayRequire (Query.unorderedJoins joins) =
      joinsToItems c s left mayRequire joins
  | [], _, _ => rfl
  | j :: rest, left, mayRequire => by
    rw [Query.unorderedJoins, joinsToItems, joinsToItems, Join.toItems_unordered s j,
      joinsToItems_unordered s rest]

theorem Join.toItems_unordered (s : Scope) : ∀ (j : Join) (left : Alias) (mayRequire : Bool),
    (Query.unorderedJoin j).toItems c s left mayRequire = j.toItems c s left mayRequire
  | ⟨key, kind, link, mergedLinks, ⟨source, clauses, joins, isQualified⟩⟩, left, mayRequire => by
    have hbelow := fun right => joinsToItems_unordered s joins right (kind == .required)
    rw [Query.unorderedJoin, Query.unordered, Join.toItems, Join.toItems]
    simp only [hbelow]
    rfl

end

end

theorem Query.toSelect_unordered (h : q.toSelect c = .ok t) :
    q.unordered.toSelect c = .ok { t with order := [] } := by
  obtain ⟨source, clauses, joins, isQualified⟩ := q
  rw [toSelect] at h
  simp only [bind_eq_ok] at h
  obtain ⟨items, hitems, h⟩ := h
  split at h
  · simp at h
  · rename_i hsome
    simp only [bind_eq_ok, pure_eq_ok] at h
    obtain ⟨item, hsource, left, hleft, joined, hjoined, filter?, hfilter, group, hgroup, having?,
      hhaving, order, -, rfl⟩ := h
    rw [unordered, toSelect]
    simp only [joinsLevelAliases_unordered, joinsItems_unordered, joinsToItems_unordered,
      pushOrders_unordered, hitems, ok_bind, if_neg hsome, hsource, hleft, hjoined, hfilter, hgroup,
      hhaving]
    rfl

mutual

theorem Query.qualify_unordered : ∀ (q : Query) {f g : Forest} {q' : Query},
    AliasM.Runs q.qualify f q' g → AliasM.Runs q.unordered.qualify f q'.unordered g
  | ⟨source, clauses, joins, true⟩, f, g, q', h => by
    rw [Query.qualify, AliasM.runs_pure] at h
    obtain ⟨rfl, rfl⟩ := h
    exact AliasM.runs_pure.2 ⟨rfl, rfl⟩
  | ⟨source, clauses, joins, false⟩, f, g, q', h => by
    simp only [Query.qualify, AliasM.runs_bind, AliasM.runs_pure] at h
    obtain ⟨owner, f₁, howner, source', f₂, hsource, joins', f₃, hjoins, rfl, rfl⟩ := h
    simp only [Query.unordered, Query.qualify, AliasM.runs_bind, AliasM.runs_pure]
    exact ⟨owner, f₁, howner, source', f₂, hsource, _, _, qualifyJoins_unordered joins hjoins,
      rfl, rfl⟩
termination_by structural q => q

theorem qualifyJoins_unordered : ∀ (joins : List Join) {f g : Forest} {joins' : List Join},
    AliasM.Runs (qualifyJoins joins) f joins' g →
      AliasM.Runs (qualifyJoins (Query.unorderedJoins joins)) f (Query.unorderedJoins joins') g
  | [], f, g, joins', h => by
    rw [qualifyJoins, AliasM.runs_pure] at h
    obtain ⟨rfl, rfl⟩ := h
    exact AliasM.runs_pure.2 ⟨rfl, rfl⟩
  | j :: rest, f, g, joins', h => by
    simp only [qualifyJoins, AliasM.runs_bind, AliasM.runs_pure] at h
    obtain ⟨j', f₁, hj, rest', f₂, hrest, rfl, rfl⟩ := h
    simp only [Query.unorderedJoins, qualifyJoins, AliasM.runs_bind, AliasM.runs_pure]
    exact ⟨_, f₁, Join.qualify_unordered j hj, _, _, qualifyJoins_unordered rest hrest, rfl, rfl⟩
termination_by structural joins => joins

theorem Join.qualify_unordered : ∀ (j : Join) {f g : Forest} {j' : Join},
    AliasM.Runs j.qualify f j' g →
      AliasM.Runs (Query.unorderedJoin j).qualify f (Query.unorderedJoin j') g
  | ⟨key, kind, link, mergedLinks, query⟩, f, g, j', h => by
    simp only [Join.qualify, AliasM.runs_bind, AliasM.runs_pure] at h
    obtain ⟨q', f₁, hq, rfl, rfl⟩ := h
    simp only [Query.unorderedJoin, Join.qualify, AliasM.runs_bind, AliasM.runs_pure]
    exact ⟨_, _, query.qualify_unordered hq, rfl, rfl⟩
termination_by structural j => j

end

/-- **Without its order, a request is the same selection without order.** -/
theorem Query.compile_unordered (h : AliasM.Runs (q.compile db) f t g) :
    AliasM.Runs (q.unordered.compile db) f { t with order := [] } g := by
  obtain ⟨q', hq, ht⟩ := runs_compile.1 h
  obtain ⟨c, hc, ht⟩ := selectIn_eq_ok.1 ht
  refine runs_compile.2 ⟨_, q.qualify_unordered hq, selectIn_eq_ok.2 ⟨c, ?_, toSelect_unordered ht⟩⟩
  rw [Context.ofQuery, statementAliases_unordered]
  exact hc

/-! ## In place -/

/-- The expression that counts the rows of a selection in place. -/
def Select.countExpr (t : Select) : Expr String :=
  match t.distinct, t.items with
  | true, [.expr e _] => .countDistinct e
  | _, _ => .countAll

/-- The selection with a count in place of its items. -/
def Select.countedInPlace (t : Select) : Select :=
  { t with distinct := false, items := [.expr t.countExpr none] }

/-- What is counted in place is selected from one source, and neither grouped nor limited. What is
distinct is one expression. -/
structure Select.IsCountedInPlace (t : Select) : Prop where
  joins : t.joins = []
  group : t.group = []
  limit : t.limit? = none
  items : t.distinct = true → ∃ e name?, t.items = [.expr e name?]

theorem Source.tableName?_qualify {source source' : Source} {owner : Alias}
    (h : AliasM.Runs (source.qualify owner) f source' g) :
    source'.tableName? = source.tableName? := by
  cases source with
  | table name alias? =>
    cases alias? <;>
      simp only [qualify, AliasM.runs_bind, AliasM.runs_pure] at h
    · obtain ⟨_, _, -, rfl, -⟩ := h
      rfl
    · obtain ⟨_, _, -, _, _, -, rfl, -⟩ := h
      rfl
  | nested query alias? =>
    cases alias? <;>
      simp only [qualify, AliasM.runs_bind, AliasM.runs_pure] at h
    · obtain ⟨_, _, -, rfl, -⟩ := h
      rfl
    · obtain ⟨_, _, -, _, _, -, rfl, -⟩ := h
      rfl

namespace Query

/-- What is counted in place, and how. -/
theorem countInPlace?_eq_some : q.countInPlace? = some e ↔
    (q.clauses.group? = none ∧ q.clauses.limit? = none ∧ q.joins = [] ∧
      q.source.tableName?.isSome) ∧
      (q.clauses.distinct = false ∧ e = .countAll ∨ q.clauses.distinct = true ∧
        ∃ e' name?, q.clauses.selection = [.expr e' name?] ∧ e = .countDistinct e') := by
  have hplain : (q.clauses.group?.isSome || q.clauses.limit?.isSome || !q.joins.isEmpty ||
      q.source.tableName?.isNone) = false ↔ q.clauses.group? = none ∧ q.clauses.limit? = none ∧
        q.joins = [] ∧ q.source.tableName?.isSome := by
    simp [and_assoc]
  rw [← hplain, countInPlace?]
  split
  · rename_i hwrapped
    simp [hwrapped]
  · rename_i hnot
    rw [Bool.eq_false_iff.2 hnot]
    cases q.clauses.distinct with
    | false =>
      have hcount : ∀ item : SelectItem Alias, item.count? false = some .countAll := by
        intro item
        cases item <;> rfl
      split <;> simp [hcount, eq_comm]
    | true =>
      split
      · rename_i item hitem
        cases item <;> simp [SelectItem.count?, hitem, eq_comm]
      · rename_i hmany
        simp only [if_pos, reduceCtorEq, false_and, true_and, false_or, false_iff]
        rintro ⟨e', name?, hitem, -⟩
        exact hmany _ hitem

/-- Counting in place and qualifying do not depend on which comes first. -/
theorem runs_qualify_counting (h : AliasM.Runs q.qualify f q' g)
    (he : q.countInPlace? = some e) :
    ∃ e', q'.countInPlace? = some e' ∧ AliasM.Runs (q.counting e).qualify f (q'.counting e') g := by
  obtain ⟨⟨hgroup, hlimit, hjoins, htable⟩, hcount⟩ := countInPlace?_eq_some.1 he
  obtain ⟨source, clauses, joins, isQualified⟩ := q
  simp only at hgroup hlimit hjoins htable hcount
  subst hjoins
  cases isQualified with
  | true =>
    rw [qualify, AliasM.runs_pure] at h
    obtain ⟨rfl, rfl⟩ := h
    exact ⟨e, he, AliasM.runs_pure.2 ⟨rfl, rfl⟩⟩
  | false =>
    simp only [qualify, qualifyJoins, AliasM.runs_bind, AliasM.runs_pure] at h
    obtain ⟨owner, f₁, howner, source', f₂, hsource, joins', _, ⟨rfl, rfl⟩, rfl, rfl⟩ := h
    refine ⟨e.qualified owner, countInPlace?_eq_some.2 ⟨⟨?_, hlimit, rfl, ?_⟩, ?_⟩, ?_⟩
    · exact Option.map_eq_none_iff.2 hgroup
    · rw [Source.tableName?_qualify hsource]
      exact htable
    · rcases hcount with ⟨hdistinct, rfl⟩ | ⟨hdistinct, e', name?, hselection, rfl⟩
      · exact .inl ⟨hdistinct, rfl⟩
      · refine .inr ⟨hdistinct, e'.qualified owner, name?, ?_, rfl⟩
        rw [Clauses.qualified, hselection]
        rfl
    · simp only [counting, qualify, qualifyJoins, AliasM.runs_bind, AliasM.runs_pure]
      exact ⟨owner, f₁, howner, source', _, hsource, [], _, ⟨rfl, rfl⟩, rfl, rfl⟩

theorem toSelect_counting (h : q.toSelect c = .ok t) (he : q.countInPlace? = some e) :
    (q.counting e).toSelect c = .ok t.countedInPlace ∧ t.IsCountedInPlace := by
  obtain ⟨⟨hgroup?, hlimit?, hjoins, -⟩, hcount⟩ := countInPlace?_eq_some.1 he
  obtain ⟨source, clauses, joins, isQualified⟩ := q
  simp only at hgroup? hlimit? hjoins hcount
  subst hjoins
  rw [toSelect] at h
  simp only [joinsItems, List.append_nil, bind_eq_ok] at h
  obtain ⟨items, hitems, h⟩ := h
  split at h
  · simp at h
  · simp only [bind_eq_ok, pure_eq_ok] at h
    obtain ⟨item, hsource, left, hleft, joined, hjoined, filter?, hfilter, group, hgroup, having?,
      hhaving, order, horder, rfl⟩ := h
    have hexpr : e.withOwners
        (Scope.ofAliases c (source.alias?.toList ++ joinsLevelAliases [])).owner? =
          .ok (Select.countExpr
            ⟨clauses.distinct, items, item, joined, filter?, group, having?, order,
              clauses.limit?⟩) ∧
        (clauses.distinct = true → ∃ e name?, items = [.expr e name?]) := by
      rcases hcount with ⟨hdistinct, rfl⟩ | ⟨hdistinct, e', name?, hselection, rfl⟩
      · rw [hdistinct]
        exact ⟨rfl, fun h => by cases h⟩
      · rw [hselection, mapM_eq_ok, List.forall₂_cons_left_iff] at hitems
        obtain ⟨i, _, hi, hnil, rfl⟩ := hitems
        cases hnil
        simp only [SelectItem.withOwners, bind_eq_ok, pure_eq_ok] at hi
        obtain ⟨e'', he'', rfl⟩ := hi
        rw [hdistinct, Expr.withOwners, he'']
        exact ⟨rfl, fun _ => ⟨e'', name?, rfl⟩⟩
    have hjoined' : joined = [] := by
      rw [joinsToItems, pure_eq_ok] at hjoined
      exact hjoined.symm
    have hgroup' : group = [] := by
      rw [hgroup?, Scope.group, pure_eq_ok] at hgroup
      exact hgroup.symm
    refine ⟨?_, hjoined', hgroup', hlimit?, hexpr.2⟩
    simp only [counting, toSelect, joinsItems, List.append_nil, List.mapM_cons, List.mapM_nil,
      SelectItem.withOwners, hexpr.1, ok_bind, hsource, hleft, hjoined, hfilter, hgroup, hhaving,
      horder]
    rfl

/-- **A request counted in place is the same selection with a count selected.** -/
theorem compile_counting (h : AliasM.Runs (q.compile db) f t g) (he : q.countInPlace? = some e) :
    AliasM.Runs ((q.counting e).compile db) f t.countedInPlace g ∧ t.IsCountedInPlace := by
  obtain ⟨q', hq, ht⟩ := runs_compile.1 h
  obtain ⟨c, hc, ht⟩ := selectIn_eq_ok.1 ht
  obtain ⟨e', he', hq'⟩ := runs_qualify_counting hq he
  obtain ⟨ht', hcounted⟩ := toSelect_counting ht he'
  refine ⟨runs_compile.2 ⟨_, hq', selectIn_eq_ok.2 ⟨c, ?_, ht'⟩⟩, hcounted⟩
  have hsources : (q'.counting e').statementAliases = q'.statementAliases := by
    cases q'
    rfl
  rw [Context.ofQuery, hsources]
  exact hc

end Query

/-! ## From outside -/

/-- The count of the rows of a selection. -/
def Select.countedOutside (t : Select) : Select :=
  ⟨false, [.expr .countAll none], .select t none, [], none, [], none, [], none⟩

/-- Whether a name is repeated depends on the names and on who gave them. -/
theorem repeatedName?_congr {os os' : List Occurrence}
    (h : List.Forall₂ (fun o o' => o.name = o'.name ∧ o.isUserGiven = o'.isUserGiven) os os') :
    ∀ given, repeatedName? given os = repeatedName? given os' := by
  induction h with
  | nil =>
    intro given
    rfl
  | cons hab _ ih =>
    intro given
    rw [repeatedName?, repeatedName?, hab.1, hab.2, ih, ih]

theorem Forest.Skips.occurrences {n : Nat} (hs : Skips n f g) (hf : f.IsGrounded)
    (as : List Alias) : g.occurrences (⟨n⟩ :: as.map (·.skip n)) =
      g.occurrence ⟨n⟩ :: (as.map f.root).eraseDups.map fun r => g.occurrence (r.skip n) := by
  have hroots : (as.map (·.skip n)).map g.root = (as.map f.root).map (·.skip n) := by
    rw [List.map_map, List.map_map]
    exact List.map_congr_left fun a _ => hs.root_eq hf a
  have hothers : ((as.map f.root).map (·.skip n)).filter (fun b => !b == ⟨n⟩) =
      (as.map f.root).map (·.skip n) := by
    refine List.filter_eq_self.2 fun b hb => ?_
    obtain ⟨a, -, rfl⟩ := List.mem_map.1 hb
    simp [a.skip_ne n]
  rw [Forest.occurrences, List.map_cons, hroots, hs.root_added, List.eraseDups_cons, hothers,
    eraseDups_map (Alias.skip_injective n), List.map_cons, List.map_map]
  rfl

namespace Query

/-- Sources that can be named can be named behind one more, which no user named. -/
theorem ofQuery_countedOutside {n : Nat} {outer : Query} (hs : Forest.Skips n f g)
    (hf : f.IsGrounded) (hc : Context.ofQuery f db q = .ok c)
    (houter : outer.statementAliases = ⟨n⟩ :: q.statementAliases.map (·.skip n)) :
    ∃ c', Context.ofQuery g db outer = .ok c' := by
  have hnone : repeatedName? [] (f.occurrences q.statementAliases) = none := by
    obtain ⟨-, -, hnames⟩ := Context.ofQuery_eq_ok hc
    rw [assignNames] at hnames
    split at hnames
    · cases hnames
    · assumption
  have hsame : List.Forall₂ (fun o o' => o.name = o'.name ∧ o.isUserGiven = o'.isUserGiven)
      ((q.statementAliases.map f.root).eraseDups.map fun r => g.occurrence (r.skip n))
      (f.occurrences q.statementAliases) := by
    rw [Forest.occurrences, List.forall₂_map_left_iff, List.forall₂_map_right_iff,
      List.forall₂_same]
    intro r _
    simp only [Forest.occurrence, Forest.identityName?, hs.userName?_eq hf, hs.tableName?_eq hf,
      and_self]
  have hnone' : repeatedName? [] (g.occurrences outer.statementAliases) = none := by
    have hunnamed : ¬ (g.occurrence ⟨n⟩).isUserGiven := by
      simp [Forest.occurrence, hs.userName?_added]
    rw [houter, hs.occurrences hf, repeatedName?, if_neg hunnamed, repeatedName?_congr hsame,
      hnone]
  rw [Context.ofQuery, assignNames, hnone']
  exact ⟨_, rfl⟩

/-- **A request counted from outside is the count of the same selection**, under other names. -/
theorem compile_countedOutside (hf : f.IsGrounded) (hclosed : f.IsClosed)
    (hkept : q.relabel (·.skip f.cells.length) = q) (h : AliasM.Runs (q.compile db) f t g) :
    ∃ n g', RespectsNames n ∧
      AliasM.Runs (q.countedOutside.compile db) f (t.rename n).countedOutside g' := by
  obtain ⟨q', hqualify, ht⟩ := runs_compile.1 h
  obtain ⟨c, hc, ht⟩ := selectIn_eq_ok.1 ht
  obtain ⟨g', hqualify', hs⟩ := q.qualify_skips hf hclosed.skips hqualify
  have hg := (q.qualify_coarsens hf hqualify).grounded
  rw [hkept] at hqualify'
  -- The request from outside, with the additional identity for its source.
  let owner : Alias := ⟨f.cells.length⟩
  let outer : Query := ⟨.nested (q'.relabel (·.skip f.cells.length)) (some owner),
    { selection := [.expr .countAll none] }, [], true⟩
  have houter : outer.statementAliases =
      owner :: q'.statementAliases.map (·.skip f.cells.length) := by
    simp [outer, statementAliases, Source.statementAliases, joinsStatementAliases,
      statementAliases_relabel]
  obtain ⟨c', hc'⟩ := ofQuery_countedOutside hs hg hc houter
  have hsub : ∀ a ∈ q'.statementAliases, a.skip f.cells.length ∈ outer.statementAliases := by
    intro a ha
    rw [houter]
    exact List.mem_cons_of_mem _ (List.mem_map_of_mem ha)
  have hm := Alias.skip_injective f.cells.length
  have hrenames := Context.renames_newName hc hc' hg hm (hs.root_eq hg) (hs.userName?_eq hg) hsub
  refine ⟨_, g', Context.respectsNames_newName hc hc' hg hm (hs.root_eq hg) hsub,
    runs_compile.2 ⟨outer, ?_, selectIn_eq_ok.2 ⟨c', hc', ?_⟩⟩⟩
  · simp only [countedOutside, select, nested, ofSource, qualify, Source.qualify, qualifyJoins,
      AliasM.runs_bind, AliasM.runs_pure, AliasM.runs_fresh]
    exact ⟨owner, _, rfl, _, g', ⟨_, g', hqualify', rfl, rfl⟩, [], g', ⟨rfl, rfl⟩, rfl, rfl⟩
  · have hselect := toSelect_relabel hrenames q' ht
    have hname : (Scope.ofAliases c' [owner]).nestedName? (some owner) = .ok none := by
      have hunnamed : (c'.forest.userName? owner).isSome = false := by
        rw [(Context.ofQuery_eq_ok hc').1, hs.userName?_added]
        rfl
      simp [Scope.nestedName?, Scope.ofAliases, hunnamed, List.eraseDups_cons]
    simp only [outer, toSelect, Source.alias?, Option.toList_some, joinsLevelAliases, joinsItems,
      List.append_nil, Source.toFromItem, hselect, hname, ok_bind, Source.occurrence]
    rfl

/-- **How the request for the number of rows is compiled**, where that for the rows is: in place, or
from outside under other names. -/
theorem compile_count (hf : f.IsGrounded) (hclosed : f.IsClosed) (hq : q.IsWithin f)
    (h : AliasM.Runs (q.compile db) f t g) :
    (q.unordered.countInPlace?.isSome ∧ t.IsCountedInPlace ∧
      AliasM.Runs (q.count.compile db) f (Select.countedInPlace { t with order := [] }) g) ∨
    (¬ q.unordered.countInPlace?.isSome ∧ ∃ n g', RespectsNames n ∧
      AliasM.Runs (q.count.compile db) f (Select.rename n { t with order := [] }).countedOutside
        g') := by
  have hunordered := compile_unordered h
  rw [count]
  cases hcount : q.unordered.countInPlace? with
  | some e =>
    obtain ⟨hruns, hplace⟩ := compile_counting hunordered hcount
    exact .inl ⟨rfl, ⟨hplace.joins, hplace.group, hplace.limit, hplace.items⟩, hruns⟩
  | none =>
    have hkept : q.relabel (·.skip f.cells.length) = q :=
      IsWithin.relabel_eq_self (fun a ha => Alias.skip_of_lt ha) q hq
    refine .inr ⟨Bool.false_ne_true, compile_countedOutside hf hclosed ?_ hunordered⟩
    rw [← unordered_relabel, hkept]

end Query

end SqlTree
