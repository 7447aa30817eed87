import SqlTree.Proofs.Expr.Prefixed
import SqlTree.Proofs.Query.Completed
import SqlTree.Proofs.Statement.Mentions
import SqlTree.Proofs.Statement.Naming

/-!
# Statements of completed requests

A level whose sources have names can be written before it is completed and after. It is written in
both cases or in neither, and completing it adds names: in front of each star and column that had no
occurrence, provided that the level shows names (`Query.toSelect_completed`).
-/

namespace SqlTree

/-! ## Clauses -/

/-- A filter, as far as the schema knows it, has columns without an occurrence. -/
def Clauses.FiltersBare (db : Schema) (c : Clauses) : Prop :=
  ∃ l e, c.filter? = some l ∧ l.resolve db = .ok e ∧ none ∈ e.owners

theorem JoinLink.condition_qualified {db : Schema} {link : JoinLink} {left right : Alias}
    {e : Expr Alias} (h : link.condition db left right = .ok e) (owner : Alias) :
    e.qualified owner = e := by
  have hcomparison : ∀ p, (link.comparison left right p).qualified owner =
      link.comparison left right p := by
    intro p
    rw [comparison]
    split <;> rfl
  simp only [condition, bind_eq_ok] at h
  obtain ⟨pairs, -, h⟩ := h
  cases pairs with
  | nil => simp at h
  | cons p pairs =>
    simp only [List.map_cons, pure_eq_ok] at h
    rw [← h]
    refine Expr.qualified_foldl_and (fun e he => ?_) (hcomparison p)
    obtain ⟨p', -, rfl⟩ := List.mem_map.1 he
    exact hcomparison p'

theorem Clauses.unjoinable?_qualified (owner : Alias) (c : Clauses) :
    (c.qualified owner).unjoinable? = c.unjoinable? := by
  rw [unjoinable?, unjoinable?, qualified]
  simp only [Option.isSome_map]

theorem joinsFragment_append (items items' : List JoinItem) :
    joinsFragment (items ++ items') = joinsFragment items ++ joinsFragment items' := by
  induction items with
  | nil => rfl
  | cons item items ih => rw [List.cons_append, joinsFragment, joinsFragment, ih, List.append_assoc]

namespace Scope

variable {s : Scope} {own : Alias}

/-- In front of a column without an occurrence a level that shows names writes one when it is given
an occurrence. -/
theorem owner?_added (hown : s.context.Knows own) (o : Option Alias) :
    FailsAlike (OwnerAdded (s.showsNames = true ∧ o = none)) (s.owner? o)
      (s.owner? (some (o.getD own))) := by
  cases o with
  | some a =>
    rw [Option.getD_some]
    cases s.owner? (some a) with
    | error e => exact .failures e
    | ok x => exact .results (.same x (by simp))
  | none =>
    obtain ⟨name, hname⟩ := hown
    simp only [Option.getD_none, owner?, hname, ok_bind]
    refine .results ?_
    split
    · rename_i hshown
      exact .added name ⟨hshown, trivial⟩
    · rename_i hshown
      exact .same none (by simp [hshown])

theorem exists_bare_iff {P : Prop} {os : List (Option Alias)} :
    (∃ o ∈ os, P ∧ o = none) ↔ P ∧ none ∈ os := by
  constructor
  · rintro ⟨o, ho, hP, rfl⟩
    exact ⟨hP, ho⟩
  · rintro ⟨hP, ho⟩
    exact ⟨none, ho, hP, rfl⟩

theorem expr_added (hown : s.context.Knows own) (e : Expr Alias) :
    FailsAlike (Expr.WrittenWith (s.showsNames = true ∧ none ∈ e.owners)) (s.expr e)
      (s.expr (e.qualified own)) := by
  rw [expr, expr, e.withOwners_qualified, ← exists_bare_iff]
  exact e.withOwners_prefixed (owner?_added hown)

theorem item_added (hown : s.context.Knows own) (i : SelectItem Alias) :
    FailsAlike
      (fun t t' =>
        Fragment.Prefixed (s.showsNames = true ∧ none ∈ i.owners) t.fragment t'.fragment)
      (i.withOwners s.owner?) ((i.qualified own).withOwners s.owner?) := by
  rw [i.withOwners_qualified, ← exists_bare_iff]
  exact i.withOwners_prefixed (owner?_added hown)

theorem term_added (hown : s.context.Knows own) (t : SortTerm Alias) :
    FailsAlike
      (fun u u' =>
        Fragment.Prefixed (s.showsNames = true ∧ none ∈ t.expr.owners) u.fragment u'.fragment)
      (t.withOwners s.owner?) ((t.qualified own).withOwners s.owner?) := by
  rw [t.withOwners_qualified, ← exists_bare_iff]
  exact t.withOwners_prefixed (owner?_added hown)

/-- A condition of the request, written as a clause. -/
theorem having_added (hown : s.context.Knows own) (token : Token) (e? : Option (Expr Alias)) :
    FailsAlike
      (fun t? t?' => Fragment.Prefixed (s.showsNames = true ∧ ∃ e, e? = some e ∧ none ∈ e.owners)
        (conditionClause token t?) (conditionClause token t?'))
      (e?.mapM s.expr) ((e?.map (·.qualified own)).mapM s.expr) := by
  cases e? with
  | none => exact .results (Fragment.Prefixed.congr .nil (by simp))
  | some e =>
    rw [Option.map_some, Option.mapM_some, Option.mapM_some]
    exact (expr_added hown e).map fun t t' ht => .keep _ (ht.fragment.congr (by simp))

theorem filter_added (hown : s.context.Knows own) (c : Clauses) :
    FailsAlike
      (fun t? t?' => Fragment.Prefixed (s.showsNames = true ∧ c.FiltersBare s.context.schema)
        (conditionClause .where_ t?) (conditionClause .where_ t?'))
      (c.filter?.mapM s.filter) ((c.qualified own).filter?.mapM s.filter) := by
  rw [Clauses.qualified]
  cases hl : c.filter? with
  | none => exact .results (Fragment.Prefixed.congr .nil (by simp [Clauses.FiltersBare, hl]))
  | some l =>
    rw [Option.map_some, Option.mapM_some, Option.mapM_some]
    refine FailsAlike.map (R := fun t t' => Expr.WrittenWith
      (s.showsNames = true ∧ c.FiltersBare s.context.schema) t t') ?_
      fun t t' ht => .keep _ ht.fragment
    rw [filter, filter, Lookup.resolve_map]
    cases he : l.resolve s.context.schema with
    | error e => exact .failures e
    | ok e =>
      refine (expr_added hown e).imp fun t t' ht => ?_
      have hbare : none ∈ e.owners ↔ c.FiltersBare s.context.schema := by
        simp [Clauses.FiltersBare, hl, he]
      rwa [← hbare]

theorem group_added (hown : s.context.Knows own) (c : Clauses) :
    FailsAlike
      (fun ts ts' => Fragment.Prefixed
        (s.showsNames = true ∧
          ∃ es e, groupTerms s.context.schema c.group? = .ok es ∧ e ∈ es ∧ none ∈ e.owners)
        (listClause .groupBy (ts.map (·.fragment))) (listClause .groupBy (ts'.map (·.fragment))))
      (s.group c.group?) (s.group (c.qualified own).group?) := by
  rw [Clauses.qualified]
  cases hl : c.group? with
  | none => exact .results (Fragment.Prefixed.congr .nil (by simp [groupTerms]))
  | some l =>
    rw [Option.map_some, group, group, Lookup.resolve_map]
    cases hes : l.resolve s.context.schema with
    | error e => exact .failures e
    | ok es =>
      have hall : List.Forall₂ (fun e e' => FailsAlike (fun t t' => Fragment.Prefixed
          (s.showsNames = true ∧ none ∈ Expr.owners e) t.fragment t'.fragment) (s.expr e)
          (s.expr e')) es (es.map (·.qualified own)) := by
        refine forall₂_map (fun e => ?_) es
        exact (expr_added hown e).imp fun t t' ht => ht.fragment
      refine (Fragment.PrefixedAll.mapM hall).imp fun ts ts' hts => ?_
      refine (hts.listClause .groupBy).congr ?_
      simp only [groupTerms, hes, Except.ok.injEq, exists_eq_left', and_left_comm,
        exists_and_left]

theorem order_added {o o' : SortOrder} (ho : o.CompletesTo s.context.Knows o') :
    FailsAlike
      (fun ts ts' => Fragment.Prefixed
        (s.showsNames = true ∧ ∃ e ∈ o.exprs, none ∈ e.owners)
        (listClause .orderBy (ts.map (·.fragment))) (listClause .orderBy (ts'.map (·.fragment))))
      (s.order o) (s.order o') := by
  have hall : List.Forall₂ (fun t t' => FailsAlike (fun u u' => Fragment.Prefixed
      (s.showsNames = true ∧ none ∈ (SortTerm.expr t).owners) u.fragment u'.fragment)
      (t.withOwners s.owner?) (t'.withOwners s.owner?)) o.terms o'.terms := by
    refine (ho.terms false).imp ?_
    rintro t _ ⟨own, hown, rfl⟩
    exact term_added hown t
  refine (Fragment.PrefixedAll.mapM hall).imp fun ts ts' hts => ?_
  refine (hts.listClause .orderBy).congr ?_
  rw [← o.map_expr_terms]
  simp only [List.mem_map, exists_exists_and_eq_and, and_left_comm, exists_and_left]

/-- The condition of a join, whose link lacks no occurrence. -/
theorem on_added (hown : s.context.Knows own) (link : JoinLink) (left right : Alias)
    (c : Clauses) :
    FailsAlike
      (fun t t' => Fragment.Prefixed (s.showsNames = true ∧ c.FiltersBare s.context.schema)
        t.fragment t'.fragment)
      (s.on link left right c.filter?) (s.on link left right (c.qualified own).filter?) := by
  rw [on, on, Clauses.qualified]
  refine .step fun condition hcondition => ?_
  cases hl : c.filter? with
  | none =>
    simp only [Option.map_none]
    cases s.expr condition with
    | error e => exact .failures e
    | ok t =>
      exact .results ((Fragment.Prefixed.same _).congr (by simp [Clauses.FiltersBare, hl]))
  | some l =>
    simp only [Option.map_some, Lookup.resolve_map]
    cases he : l.resolve s.context.schema with
    | error e => exact .failures e
    | ok e =>
      have hqualified : condition.and (e.qualified own) = (condition.and e).qualified own := by
        rw [Expr.qualified_and, JoinLink.condition_qualified hcondition]
      have hwritten := expr_added hown (condition.and e)
      rw [← hqualified] at hwritten
      refine hwritten.imp fun t t' ht => ht.fragment.congr (and_congr_right fun _ => ?_)
      rw [Expr.owners_and, List.mem_append, JoinLink.mem_owners_condition hcondition]
      simp [Clauses.FiltersBare, hl, he]

end Scope

/-! ## Levels -/

mutual

/-- The joins of a completed level. -/
theorem joinsToItems_completed (s : Scope) : ∀ (joins : List Join) (left : Alias)
    (mayRequire : Bool), (∀ n ∈ joinsNodes joins, n.IsAmong s.context.Knows) →
      FailsAlike
        (fun items items' => Fragment.Prefixed
          (s.showsNames = true ∧
            ∃ n ∈ joinsNodes joins, n.clauses.FiltersBare s.context.schema)
          (joinsFragment items) (joinsFragment items'))
        (joinsToItems s.context s left mayRequire joins)
        (joinsToItems s.context s left mayRequire (joinsCompleted joins))
  | [], left, mayRequire, _ => by
    rw [joinsCompleted, joinsToItems]
    exact .results ((Fragment.Prefixed.same _).congr (by simp [joinsNodes]))
  | j :: rest, left, mayRequire, hj => by
    rw [joinsNodes, List.forall_mem_append] at hj
    rw [joinsCompleted, joinsToItems, joinsToItems]
    refine (Join.toItems_completed s j left mayRequire hj.1).bind fun items items' hitems =>
      (joinsToItems_completed s rest left mayRequire hj.2).map fun behind behind' hbehind => ?_
    rw [joinsFragment_append, joinsFragment_append, joinsNodes, exists_mem_append_iff,
      and_or_left]
    exact hitems.append hbehind

theorem Join.toItems_completed (s : Scope) : ∀ (j : Join) (left : Alias) (mayRequire : Bool),
    (∀ n ∈ joinNodes j, n.IsAmong s.context.Knows) →
      FailsAlike
        (fun items items' => Fragment.Prefixed
          (s.showsNames = true ∧ ∃ n ∈ joinNodes j, n.clauses.FiltersBare s.context.schema)
          (joinsFragment items) (joinsFragment items'))
        (j.toItems s.context s left mayRequire)
        ((joinCompleted j).toItems s.context s left mayRequire)
  | ⟨key, kind, link, mergedLinks, ⟨source, clauses, joins, isQualified⟩⟩, left, mayRequire,
      hj => by
    rw [joinNodes, Query.nodes] at hj
    obtain ⟨⟨own, hown, hknown⟩, hjoins⟩ := List.forall_mem_cons.1 hj
    have hown : source.alias? = some own := hown
    rw [joinCompleted, Query.completed, hown, Clauses.completed, Join.toItems, Join.toItems,
      Clauses.unjoinable?_qualified]
    cases clauses.unjoinable? with
    | some clause => exact .failures _
    | none =>
      refine .step fun _ _ => .ite _ (.failures _) ?_
      refine .step fun item _ => .step fun right _ => ?_
      refine (Scope.on_added hknown link left right clauses).bind fun on on' hon =>
        (joinsToItems_completed s joins right (kind == .required) hjoins).map
          fun items items' hitems => ?_
      have hjoin : Fragment.Prefixed (s.showsNames = true ∧ clauses.FiltersBare s.context.schema)
          (JoinItem.fragment ⟨kind, item, on⟩) (JoinItem.fragment ⟨kind, item, on'⟩) := by
        rw [JoinItem.fragment, JoinItem.fragment]
        exact ((Fragment.Prefixed.same _).append (.keep _ hon)).congr (iff_of_eq (false_or _))
      rw [joinNodes, Query.nodes, List.exists_mem_cons_iff, and_or_left]
      exact hjoin.append hitems

end

/-- The selection of a completed level. -/
theorem Query.items_added (c : Context) (q : Query) (hq : ∀ n ∈ q.nodes, n.IsAmong c.Knows) :
    FailsAlike
      (fun items items' => Fragment.PrefixedAll
        ((q.scope c).showsNames = true ∧ ∃ i ∈ q.items, none ∈ i.owners)
        (items.map (·.fragment)) (items'.map (·.fragment)))
      (q.items.mapM (·.withOwners (q.scope c).owner?))
      (q.completed.items.mapM (·.withOwners (q.scope c).owner?)) := by
  have hall : List.Forall₂ (fun i i' => FailsAlike (fun t t' => Fragment.Prefixed
      ((q.scope c).showsNames = true ∧ none ∈ SelectItem.owners i) t.fragment t'.fragment)
      (i.withOwners (q.scope c).owner?) (i'.withOwners (q.scope c).owner?))
      q.items q.completed.items := by
    refine (q.items_completed hq).imp ?_
    rintro i _ ⟨own, hown, rfl⟩
    exact Scope.item_added hown i
  refine (Fragment.PrefixedAll.mapM hall).imp fun items items' hitems => hitems.congr ?_
  constructor
  · rintro ⟨i, hi, hshown, ho⟩
    exact ⟨hshown, i, hi, ho⟩
  · rintro ⟨hshown, i, hi, ho⟩
    exact ⟨i, hi, hshown, ho⟩

/-- What a level whose sources are occurrences mentions without one stands in its clauses. -/
theorem Query.mentions_none_iff {db : Schema} {q : Query} (hq : q.HasOccurrences) :
    q.Mentions db none ↔ ((((((∃ i ∈ q.items, none ∈ i.owners) ∨
      (∃ n ∈ joinsNodes q.joins, n.clauses.FiltersBare db)) ∨ q.clauses.FiltersBare db) ∨
      (∃ es e, groupTerms db q.clauses.group? = .ok es ∧ e ∈ es ∧ none ∈ e.owners)) ∨
      (∃ e, q.clauses.having? = some e ∧ none ∈ e.owners)) ∨
      ∃ e ∈ q.fullOrder.exprs, none ∈ e.owners) := by
  have hsome : ∀ n ∈ q.nodes, n.source.alias? ≠ none := fun n hn hnone => by
    have hn := hq n hn
    rw [hnone] at hn
    cases hn
  constructor
  · intro h
    cases h with
    | item hi ho => exact .inl (.inl (.inl (.inl (.inl ⟨_, hi, ho⟩))))
    | parent hn _ ho => exact absurd ho (hsome _ hn)
    | joined hn hj ho => exact absurd ho (hsome _ (query_mem_nodes hn hj))
    | filter hn hl he ho =>
      rw [q.nodes_eq] at hn
      rcases List.mem_cons.1 hn with rfl | hn
      · exact .inl (.inl (.inl (.inr ⟨_, _, hl, he, ho⟩)))
      · exact .inl (.inl (.inl (.inl (.inr ⟨_, hn, _, _, hl, he, ho⟩))))
    | group hes he ho => exact .inl (.inl (.inr ⟨_, _, hes, he, ho⟩))
    | having he ho => exact .inl (.inr ⟨_, he, ho⟩)
    | order he ho => exact .inr ⟨_, he, ho⟩
  · have hnodes := q.nodes_eq
    rintro (((((⟨i, hi, ho⟩ | ⟨n, hn, l, e, hl, he, ho⟩) | ⟨l, e, hl, he, ho⟩) |
      ⟨es, e, hes, he, ho⟩) | ⟨e, he, ho⟩) | ⟨e, he, ho⟩)
    · exact .item hi ho
    · exact .filter (hnodes ▸ List.mem_cons_of_mem q hn) hl he ho
    · exact .filter (hnodes ▸ List.mem_cons_self) hl he ho
    · exact .group hes he ho
    · exact .having he ho
    · exact .order he ho

/-- **Completing a level adds names.** Before and after, the level fails for the same reason, if it
fails. Otherwise names are added in front of stars and columns that had no occurrence, if there are
any and the level shows names. -/
theorem Query.toSelect_completed (c : Context) (q : Query)
    (hq : ∀ n ∈ q.nodes, n.IsAmong c.Knows) :
    FailsAlike
      (fun t t' => Fragment.Prefixed
        ((q.scope c).showsNames = true ∧ q.Mentions c.schema none) t.fragment t'.fragment)
      (q.toSelect c) (q.completed.toSelect c) := by
  have hoccurrences : q.HasOccurrences := fun n hn => by
    obtain ⟨own, hown, -⟩ := hq n hn
    rw [hown]
    rfl
  have hitems := q.items_added c hq
  have horder := Scope.order_added (s := q.scope c) (q.fullOrder_completed hq)
  rw [mentions_none_iff hoccurrences]
  obtain ⟨source, clauses, joins, isQualified⟩ := q
  rw [Query.nodes] at hq
  obtain ⟨⟨own, hown, hknown⟩, hjoins⟩ := List.forall_mem_cons.1 hq
  have hown : source.alias? = some own := hown
  rw [completed, hown, Clauses.completed] at hitems horder ⊢
  rw [toSelect, toSelect, joinsLevelAliases_completed]
  refine hitems.bind fun items items' hitems => ?_
  have hempty : items'.isEmpty = items.isEmpty := by
    have hlength := hitems.length_eq
    rw [List.length_map, List.length_map] at hlength
    rw [Bool.eq_iff_iff, List.isEmpty_iff_length_eq_zero, List.isEmpty_iff_length_eq_zero, hlength]
  rw [hempty]
  refine .ite _ (.failures _) (.step fun item _ => .step fun left _ => ?_)
  refine (joinsToItems_completed (scope c ⟨source, clauses, joins, isQualified⟩) joins left true
    hjoins).bind fun joined joined' hjoined => ?_
  refine (Scope.filter_added hknown clauses).bind fun filter? filter?' hfilter => ?_
  refine (Scope.group_added hknown clauses).bind fun group group' hgroup => ?_
  refine (Scope.having_added hknown .having clauses.having?).bind fun having? having?' hhaving => ?_
  refine horder.map fun order order' horder => ?_
  rw [Select.fragment, Select.fragment]
  have hall := (((((((Fragment.Prefixed.same (if clauses.distinct then [.token .select,
    .token .distinct] else [.token .select])).append (hitems.separated .comma)).append_same
    (.token .from_ :: item.fragment)).append hjoined).append hfilter).append hgroup).append
    hhaving).append horder
  refine (hall.append_same (limitClause clauses.limit?)).congr ?_
  simp only [false_or, and_or_left]
  rfl

end SqlTree
