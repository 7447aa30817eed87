import SqlTree.Proofs.Query.Qualified

/-!
# Completed requests

A request may have columns that were given no occurrence although its source is one.
`Query.completed` gives them that occurrence, in the request and in its joins; what is nested in
sources stays as it is. This changes neither the sources nor, of what is collected along the joins,
anything but the occurrences of columns.

* `Query.HasOccurrences`: every source of the level is an occurrence.
* `Query.QualifiedUpTo.completed_eq`: nothing is left to be completed in a qualified request.
* `Query.items_completed` and `Query.fullOrder_completed`: what is selected, and how it is ordered.
-/

namespace SqlTree

/-! ## Giving occurrences twice -/

namespace SortOrder

mutual

theorem qualified_qualified (owner other : Alias) : ∀ o : SortOrder,
    (o.qualified owner).qualified other = o.qualified owner
  | ⟨elements, reversed⟩ => by
    rw [qualified, qualified, qualifiedElements_qualifiedElements owner other elements]

theorem qualifiedElements_qualifiedElements (owner other : Alias) : ∀ elements : List SortElement,
    qualifiedElements other (qualifiedElements owner elements) = qualifiedElements owner elements
  | [] => rfl
  | e :: rest => by
    rw [qualifiedElements, qualifiedElements, qualifiedElement_qualifiedElement owner other e,
      qualifiedElements_qualifiedElements owner other rest]

theorem qualifiedElement_qualifiedElement (owner other : Alias) : ∀ e : SortElement,
    qualifiedElement other (qualifiedElement owner e) = qualifiedElement owner e
  | .term t => by rw [qualifiedElement, qualifiedElement, t.qualified_qualified]
  | .nested o => by rw [qualifiedElement, qualifiedElement, qualified_qualified owner other o]

end

end SortOrder

/-- Columns that were given an occurrence are not given another one. -/
theorem Clauses.qualified_qualified (owner other : Alias) (c : Clauses) :
    (c.qualified owner).qualified other = c.qualified owner := by
  simp only [qualified, List.map_map, Option.map_map, Lookup.map_map, Function.comp_def,
    SelectItem.qualified_qualified, Expr.qualified_qualified, SortOrder.qualified_qualified]

/-! ## Completed requests -/

/-- The clauses with the occurrence of their source, if it is one, given to their columns. -/
def Clauses.completed (own? : Option Alias) (c : Clauses) : Clauses :=
  match own? with
  | some own => c.qualified own
  | none => c

mutual

/-- The request with the occurrences of its source and of its joined sources given to their
columns. -/
def Query.completed : Query → Query
  | ⟨source, clauses, joins, _⟩ =>
    ⟨source, clauses.completed source.alias?, joinsCompleted joins, true⟩

/-- The joins with their requests completed. -/
def joinsCompleted : List Join → List Join
  | [] => []
  | j :: rest => joinCompleted j :: joinsCompleted rest

/-- The join with its request completed. -/
def joinCompleted : Join → Join
  | ⟨key, kind, link, mergedLinks, query⟩ => ⟨key, kind, link, mergedLinks, query.completed⟩

end

/-- Every source of the level is an occurrence. -/
def Query.HasOccurrences (q : Query) : Prop := ∀ n ∈ q.nodes, n.source.alias?.isSome

/-- The source of a request is an occurrence in `K`. -/
def Query.IsAmong (K : Alias → Prop) (n : Query) : Prop := ∃ own, n.source.alias? = some own ∧ K own

theorem Query.source_completed (q : Query) : q.completed.source = q.source := by
  cases q
  rfl

mutual

theorem Query.nodes_completed : ∀ q : Query, q.completed.nodes = q.nodes.map (·.completed)
  | ⟨source, clauses, joins, isQualified⟩ => by
    rw [Query.nodes, List.map_cons, ← joinsNodes_completed joins, Query.completed, Query.nodes]

theorem joinsNodes_completed : ∀ joins : List Join,
    joinsNodes (joinsCompleted joins) = (joinsNodes joins).map (·.completed)
  | [] => rfl
  | j :: rest => by
    rw [joinsNodes, List.map_append, ← joinNodes_completed j, ← joinsNodes_completed rest,
      joinsCompleted, joinsNodes]

theorem joinNodes_completed : ∀ j : Join,
    joinNodes (joinCompleted j) = (joinNodes j).map (·.completed)
  | ⟨key, kind, link, mergedLinks, query⟩ => by
    rw [joinNodes, ← Query.nodes_completed query, joinCompleted, joinNodes]

end

theorem joinsLevelAliases_completed (joins : List Join) :
    joinsLevelAliases (joinsCompleted joins) = joinsLevelAliases joins := by
  rw [joinsLevelAliases_eq, joinsLevelAliases_eq, joinsNodes_completed, List.flatMap_map]
  simp only [Query.source_completed]

theorem Query.statementAliases_completed (q : Query) :
    q.completed.statementAliases = q.statementAliases := by
  rw [statementAliases_eq, statementAliases_eq, nodes_completed, List.flatMap_map]
  simp only [source_completed]

section

variable {same : Alias → Alias → Prop}

mutual

/-- **A qualified request is complete.** Its columns were given what is the occurrence of its source
when the source was none before. -/
theorem Query.QualifiedUpTo.completed_eq : ∀ {q q' : Query}, q.QualifiedUpTo same q' →
    q.Everywhere Query.IsUnnamed → q'.completed = q'
  | ⟨source, clauses, joins, true⟩, _, _, hq => by
    have hfalse : true = false := hq.self.1
    cases hfalse
  | ⟨source, clauses, joins, false⟩, ⟨source', _, joins', _⟩, .made hsource hjoins, hq => by
    have howner := hsource.alias?_eq
    rw [hq.self.2, Option.getD_none] at howner
    rw [Query.completed, JoinsQualifiedUpTo.completed_eq hjoins hq.joins, howner,
      Clauses.completed, Clauses.qualified_qualified]

theorem JoinsQualifiedUpTo.completed_eq : ∀ {joins joins' : List Join},
    JoinsQualifiedUpTo same joins joins' → joinsEverywhere Query.IsUnnamed joins →
      joinsCompleted joins' = joins'
  | [], _, .nil, _ => rfl
  | ⟨_, _, _, _, query⟩ :: rest, _, .cons hquery hrest, hj => by
    rw [joinsCompleted, joinCompleted, Query.QualifiedUpTo.completed_eq hquery hj.1,
      JoinsQualifiedUpTo.completed_eq hrest hj.2]

end

end

/-! ## Selection and order -/

/-- The selection of a completed level is that of the level, with occurrences in `K` given to its
columns. -/
theorem Query.items_completed {K : Alias → Prop} (q : Query)
    (hq : ∀ n ∈ q.nodes, n.IsAmong K) :
    List.Forall₂ (fun i i' => ∃ own, K own ∧ i' = SelectItem.qualified own i) q.items
      q.completed.items := by
  rw [Query.items_eq, Query.items_eq, nodes_completed, List.flatMap_map]
  generalize q.nodes = nodes at hq
  induction nodes with
  | nil => exact .nil
  | cons n nodes ih =>
    obtain ⟨⟨own, hown, hK⟩, hrest⟩ := List.forall_mem_cons.1 hq
    rw [List.flatMap_cons, List.flatMap_cons]
    refine List.rel_append ?_ (ih hrest)
    obtain ⟨source, clauses, joins, isQualified⟩ := n
    have hselection : (Query.completed ⟨source, clauses, joins, isQualified⟩).clauses.selection =
        clauses.selection.map (·.qualified own) := by
      rw [Query.completed, hown]
      rfl
    rw [hselection]
    exact forall₂_map (fun i => ⟨own, hK, rfl⟩) _

/-- The second order is the first one with occurrences in `K` given to the columns of its terms. -/
structure SortOrder.CompletesTo (K : Alias → Prop) (o o' : SortOrder) : Prop where
  reversed : o'.reversed = o.reversed
  terms : ∀ outer, List.Forall₂ (fun t t' => ∃ own, K own ∧ t' = SortTerm.qualified own t)
    (o.termsUnder outer) (o'.termsUnder outer)

section

variable {K : Alias → Prop}

theorem SortOrder.completesTo_qualified {own : Alias} (hown : K own) (o : SortOrder) :
    o.CompletesTo K (o.qualified own) := by
  refine ⟨by cases o; rfl, fun outer => ?_⟩
  rw [o.termsUnder_qualified]
  exact forall₂_map (fun t => ⟨own, hown, rfl⟩) _

theorem SortOrder.CompletesTo.pushOrder {o o' p p' : SortOrder} (ho : o.CompletesTo K o')
    (hp : p.CompletesTo K p') : (o.pushOrder p).CompletesTo K (o'.pushOrder p') := by
  refine ⟨?_, fun outer => ?_⟩
  · rw [reversed_pushOrder, reversed_pushOrder, ho.reversed]
  · rw [termsUnder_pushOrder, termsUnder_pushOrder, ho.reversed]
    exact List.rel_append (ho.terms outer) (hp.terms _)

mutual

/-- The order of a completed level is that of the level, with occurrences given to its columns. -/
theorem Query.fullOrder_completed : ∀ q : Query,
    (∀ n ∈ q.nodes, n.IsAmong K) → q.fullOrder.CompletesTo K q.completed.fullOrder
  | ⟨source, clauses, joins, isQualified⟩, hq => by
    rw [Query.nodes] at hq
    obtain ⟨⟨own, hown, hK⟩, hjoins⟩ := List.forall_mem_cons.1 hq
    have hown : source.alias? = some own := hown
    rw [Query.completed, Query.fullOrder, Query.fullOrder, hown]
    exact pushOrders_completed joins hjoins (clauses.order.completesTo_qualified hK)

theorem pushOrders_completed : ∀ (joins : List Join) {o o' : SortOrder},
    (∀ n ∈ joinsNodes joins, n.IsAmong K) → o.CompletesTo K o' →
      (pushOrders o joins).CompletesTo K (pushOrders o' (joinsCompleted joins))
  | [], _, _, _, ho => ho
  | j :: rest, _, _, hj, ho => by
    rw [joinsNodes, List.forall_mem_append] at hj
    rw [joinsCompleted, pushOrders, pushOrders]
    exact pushOrders_completed rest hj.2 (ho.pushOrder (joinOrder_completed j hj.1))

theorem joinOrder_completed : ∀ j : Join,
    (∀ n ∈ joinNodes j, n.IsAmong K) → (joinOrder j).CompletesTo K (joinOrder (joinCompleted j))
  | ⟨_, _, _, _, query⟩, hj => by
    rw [joinCompleted, joinOrder, joinOrder]
    exact Query.fullOrder_completed query hj

end

end

end SqlTree
