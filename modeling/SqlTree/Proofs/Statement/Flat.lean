import SqlTree.Proofs.Statement.Agree
import SqlTree.Proofs.Statement.MergedOrder

/-!
# Requests with flat orders

How the terms of an order are nested does not matter, as long as each keeps the flags that it is
under. `SortOrder.flat` nests each term by itself, under one flag for those that it was under inside
the order, and `Query.flat` does so at all places of one level.

* `Query.qualify_flat`, `Query.toSelect_flat` and `Query.layoutFrom_flat`: a flat request is
  qualified to the flat one, and selected by the same statement with rows laid out the same.
* `Query.selectStatement_flat` and `Query.prepare_flat` put these together.
-/

namespace SqlTree

/-! ## Orders -/

namespace SortOrder

mutual

/-- The terms of an order, each nested by itself under the flags that it is under. -/
def leaves (outer : Bool) : SortOrder → List SortElement
  | ⟨elements, reversed⟩ => elementsLeaves (outer ^^ reversed) elements

/-- The terms of elements, each nested by itself. -/
def elementsLeaves (reversed : Bool) : List SortElement → List SortElement
  | [] => []
  | e :: rest => elementLeaves reversed e ++ elementsLeaves reversed rest

/-- The terms of one element, each nested by itself. -/
def elementLeaves (reversed : Bool) : SortElement → List SortElement
  | .term t => [.nested ⟨[.term t], reversed⟩]
  | .nested o => o.leaves reversed

end

/-- The order without orders nested in it, but those that hold one term. -/
def flat (o : SortOrder) : SortOrder := ⟨elementsLeaves false o.elements, o.reversed⟩

mutual

theorem elementsTerms_leaves (outer r : Bool) : ∀ o : SortOrder,
    elementsTerms outer (o.leaves r) = o.termsUnder (outer ^^ r)
  | ⟨elements, reversed⟩ => by
    rw [leaves, termsUnder, elementsTerms_elementsLeaves outer (r ^^ reversed) elements,
      Bool.xor_assoc]

theorem elementsTerms_elementsLeaves (outer r : Bool) : ∀ es : List SortElement,
    elementsTerms outer (elementsLeaves r es) = elementsTerms (outer ^^ r) es
  | [] => rfl
  | e :: rest => by
    rw [elementsLeaves, elementsTerms_append, elementsTerms, elementsTerms_elementLeaves outer r e,
      elementsTerms_elementsLeaves outer r rest]

theorem elementsTerms_elementLeaves (outer r : Bool) : ∀ e : SortElement,
    elementsTerms outer (elementLeaves r e) = elementTerms (outer ^^ r) e
  | .term t => rfl
  | .nested o => by rw [elementLeaves, elementTerms, elementsTerms_leaves outer r o]

end

/-- **A flat order has the terms of the order**, whatever it is nested in. -/
@[simp] theorem termsUnder_flat (outer : Bool) (o : SortOrder) :
    o.flat.termsUnder outer = o.termsUnder outer := by
  obtain ⟨elements, reversed⟩ := o
  rw [flat, termsUnder, termsUnder, elementsTerms_elementsLeaves, Bool.xor_false]

mutual

theorem leaves_qualified (owner : Alias) (r : Bool) : ∀ o : SortOrder,
    (o.qualified owner).leaves r = qualifiedElements owner (o.leaves r)
  | ⟨elements, reversed⟩ => by
    rw [qualified, leaves, leaves, elementsLeaves_qualified owner (r ^^ reversed) elements]

theorem elementsLeaves_qualified (owner : Alias) (r : Bool) : ∀ es : List SortElement,
    elementsLeaves r (qualifiedElements owner es) = qualifiedElements owner (elementsLeaves r es)
  | [] => rfl
  | e :: rest => by
    rw [qualifiedElements, elementsLeaves, elementsLeaves, qualifiedElements_append,
      elementLeaves_qualified owner r e, elementsLeaves_qualified owner r rest]

theorem elementLeaves_qualified (owner : Alias) (r : Bool) : ∀ e : SortElement,
    elementLeaves r (qualifiedElement owner e) = qualifiedElements owner (elementLeaves r e)
  | .term t => rfl
  | .nested o => by rw [qualifiedElement, elementLeaves, elementLeaves, leaves_qualified owner r o]

end

theorem qualified_flat (owner : Alias) (o : SortOrder) :
    o.flat.qualified owner = (o.qualified owner).flat := by
  obtain ⟨elements, reversed⟩ := o
  rw [flat, qualified, qualified, flat, elementsLeaves_qualified]

/-- Two orders with terms are nested behind each other. -/
theorem followedBy_eq {a b : SortOrder} (ha : a.isEmpty = false) (hb : b.isEmpty = false) :
    a.followedBy b = ⟨[.nested a, .nested b], false⟩ := by
  have helements : ∀ {o : SortOrder}, o.isEmpty = false → o.elements.isEmpty = false := by
    rintro ⟨_ | ⟨e, es⟩, reversed⟩ ho
    · cases ho
    · rfl
  simp [followedBy, pushOrder, ha, hb, helements, empty]

/-- **Three orders behind each other** come to the same, whichever two are taken together first. -/
theorem flat_followedBy_assoc (a b c : SortOrder) :
    ((a.followedBy b).followedBy c).flat = (a.followedBy (b.followedBy c)).flat := by
  cases ha : a.isEmpty with
  | true => simp [followedBy, ha]
  | false =>
    cases hb : b.isEmpty with
    | true => simp [followedBy, ha, hb]
    | false =>
      have hab := followedBy_eq ha hb
      have hfirst : (a.followedBy b).isEmpty = false := by
        rw [hab, isEmpty, allEmpty, elementIsEmpty, ha, Bool.false_and]
      cases hc : c.isEmpty with
      | true =>
        have hbc : b.followedBy c = b := by simp [followedBy, hb, hc]
        rw [hbc, followedBy, hfirst, hc]
        rfl
      | false =>
        have hbc := followedBy_eq hb hc
        have hlast : (b.followedBy c).isEmpty = false := by
          rw [hbc, isEmpty, allEmpty, elementIsEmpty, hb, Bool.false_and]
        rw [followedBy_eq hfirst hc, followedBy_eq ha hlast, hab, hbc]
        simp [flat, leaves, elementsLeaves, elementLeaves]

end SortOrder

/-! ## Requests -/

/-- The clauses with a flat order. -/
def Clauses.flat (c : Clauses) : Clauses := { c with order := c.order.flat }

theorem Clauses.qualified_flat (owner : Alias) (c : Clauses) :
    c.flat.qualified owner = (c.qualified owner).flat := by
  simp only [qualified, flat, SortOrder.qualified_flat]

mutual

/-- The request with flat orders, in itself and in its joins. -/
def Query.flat : Query → Query
  | ⟨source, clauses, joins, isQualified⟩ => ⟨source, clauses.flat, flatJoins joins, isQualified⟩

/-- The joins with flat orders. -/
def flatJoins : List Join → List Join
  | [] => []
  | j :: rest => j.flat :: flatJoins rest

/-- The join with flat orders. -/
def Join.flat : Join → Join
  | ⟨key, kind, link, mergedLinks, query⟩ => ⟨key, kind, link, mergedLinks, query.flat⟩

end

theorem flatJoins_eq_map (joins : List Join) : flatJoins joins = joins.map (·.flat) := by
  induction joins with
  | nil => rfl
  | cons j rest ih => rw [flatJoins, ih, List.map_cons]

theorem Join.flat_eq (j : Join) : j.flat = { j with query := j.query.flat } := by
  obtain ⟨key, kind, link, mergedLinks, query⟩ := j
  rw [flat]

theorem Query.flat_eq (q : Query) : q.flat =
    ⟨q.source, q.clauses.flat, q.joins.map (·.flat), q.isQualified⟩ := by
  obtain ⟨source, clauses, joins, isQualified⟩ := q
  rw [flat, flatJoins_eq_map]

mutual

theorem Query.nodes_flat : ∀ q : Query, q.flat.nodes = q.nodes.map (·.flat)
  | ⟨_, _, joins, _⟩ => by
    rw [Query.flat, Query.nodes, Query.nodes, joinsNodes_flat joins, List.map_cons, Query.flat]

theorem joinsNodes_flat : ∀ joins : List Join,
    joinsNodes (flatJoins joins) = (joinsNodes joins).map (·.flat)
  | [] => rfl
  | j :: rest => by
    rw [flatJoins, joinsNodes, joinsNodes, joinNodes_flat j, joinsNodes_flat rest, List.map_append]

theorem joinNodes_flat : ∀ j : Join, joinNodes j.flat = (joinNodes j).map (·.flat)
  | ⟨_, _, _, _, query⟩ => by rw [Join.flat, joinNodes, joinNodes, Query.nodes_flat query]

end

theorem Query.source_flat (q : Query) : q.flat.source = q.source := by rw [flat_eq]

theorem Query.selection_flat (q : Query) : q.flat.clauses.selection = q.clauses.selection := by
  rw [flat_eq]
  rfl

theorem joinsItems_flat (joins : List Join) : joinsItems (flatJoins joins) = joinsItems joins := by
  simp only [joinsItems_eq, joinsNodes_flat, List.flatMap_map, Query.selection_flat]

theorem joinsLevelAliases_flat (joins : List Join) :
    joinsLevelAliases (flatJoins joins) = joinsLevelAliases joins := by
  simp only [joinsLevelAliases_eq, joinsNodes_flat, List.flatMap_map, Query.source_flat]

theorem Query.statementAliases_flat (q : Query) : q.flat.statementAliases = q.statementAliases := by
  simp only [Query.statementAliases_eq, Query.nodes_flat, List.flatMap_map, Query.source_flat]

mutual

theorem Query.termsUnder_fullOrder_flat : ∀ (q : Query) (outer : Bool),
    q.flat.fullOrder.termsUnder outer = q.fullOrder.termsUnder outer
  | ⟨source, clauses, joins, isQualified⟩, outer => by
    rw [Query.flat, Query.fullOrder, Query.fullOrder, termsUnder_pushOrders, termsUnder_pushOrders,
      joinsTermsUnder_flat joins, Clauses.flat, SortOrder.termsUnder_flat]
    rfl

theorem joinsTermsUnder_flat : ∀ (joins : List Join) (outer : Bool),
    ((flatJoins joins).flatMap fun j => j.query.fullOrder.termsUnder outer) =
      joins.flatMap fun j => j.query.fullOrder.termsUnder outer
  | [], outer => rfl
  | j :: rest, outer => by
    rw [flatJoins, List.flatMap_cons, List.flatMap_cons, joinTermsUnder_flat j,
      joinsTermsUnder_flat rest]

theorem joinTermsUnder_flat : ∀ (j : Join) (outer : Bool),
    j.flat.query.fullOrder.termsUnder outer = j.query.fullOrder.termsUnder outer
  | ⟨_, _, _, _, query⟩, outer => by
    rw [Join.flat, Query.termsUnder_fullOrder_flat query]

end

theorem terms_pushOrders_flat (clauses : Clauses) (joins : List Join) :
    (pushOrders clauses.flat.order (flatJoins joins)).terms =
      (pushOrders clauses.order joins).terms :=
  Query.termsUnder_fullOrder_flat ⟨.table "" none, clauses, joins, true⟩ false

/-! ## Compiling -/

section

variable {c : Context} {f : Forest} {db : Schema}

mutual

/-- **A flat request is qualified to the flat one.** -/
theorem Query.qualify_flat : ∀ q : Query,
    q.flat.qualify = q.qualify >>= fun q' => pure q'.flat
  | ⟨source, clauses, joins, true⟩ => by
    rw [Query.flat, Query.qualify, Query.qualify, pure_bind, Query.flat]
  | ⟨source, clauses, joins, false⟩ => by
    simp only [Query.flat, Query.qualify, qualifyJoins_flat joins, bind_assoc, pure_bind,
      Clauses.qualified_flat]

theorem qualifyJoins_flat : ∀ joins : List Join,
    qualifyJoins (flatJoins joins) = qualifyJoins joins >>= fun joins' => pure (flatJoins joins')
  | [] => by rw [flatJoins, qualifyJoins, pure_bind, flatJoins]
  | j :: rest => by
    simp only [flatJoins, qualifyJoins, Join.qualify_flat j, qualifyJoins_flat rest, bind_assoc,
      pure_bind]

theorem Join.qualify_flat : ∀ j : Join, j.flat.qualify = j.qualify >>= fun j' => pure j'.flat
  | ⟨key, kind, link, mergedLinks, query⟩ => by
    simp only [Join.flat, Join.qualify, Query.qualify_flat query, bind_assoc, pure_bind]

end

mutual

theorem joinsToItems_flat (s : Scope) : ∀ (joins : List Join) (left : Alias) (mayRequire : Bool),
    joinsToItems c s left mayRequire (flatJoins joins) = joinsToItems c s left mayRequire joins
  | [], _, _ => rfl
  | j :: rest, left, mayRequire => by
    rw [flatJoins, joinsToItems, joinsToItems, Join.toItems_flat s j, joinsToItems_flat s rest]

theorem Join.toItems_flat (s : Scope) : ∀ (j : Join) (left : Alias) (mayRequire : Bool),
    j.flat.toItems c s left mayRequire = j.toItems c s left mayRequire
  | ⟨key, kind, link, mergedLinks, ⟨source, clauses, joins, isQualified⟩⟩, left, mayRequire => by
    have hbelow := fun right => joinsToItems_flat s joins right (kind == .required)
    rw [Join.flat, Query.flat, Join.toItems, Join.toItems]
    simp only [hbelow]
    rfl

end

/-- **A flat request is selected by the same statement.** -/
theorem Query.toSelect_flat (q : Query) : q.flat.toSelect c = q.toSelect c := by
  obtain ⟨source, clauses, joins, isQualified⟩ := q
  rw [flat, toSelect, toSelect]
  simp only [joinsLevelAliases_flat, joinsItems_flat, joinsToItems_flat, Scope.order,
    terms_pushOrders_flat]
  rfl

theorem Query.selectIn_flat (q : Query) : q.flat.selectIn f db = q.selectIn f db := by
  have hcontext : Context.ofQuery f db q.flat = Context.ofQuery f db q := by
    rw [Context.ofQuery, Context.ofQuery, statementAliases_flat]
  rw [selectIn, selectIn, hcontext]
  simp only [toSelect_flat]

mutual

/-- **The rows of a flat request are laid out the same.** -/
theorem Query.layoutFrom_flat : ∀ (q : Query) (start : Nat),
    q.flat.layoutFrom f db start = q.layoutFrom f db start
  | ⟨source, clauses, joins, _⟩, start => by
    rw [Query.flat, Query.layoutFrom, Query.layoutFrom]
    simp only [joinsLayout_flat joins]
    rfl

theorem joinsLayout_flat : ∀ (joins : List Join) (seen : List String) (start : Nat),
    joinsLayout f db seen start (flatJoins joins) = joinsLayout f db seen start joins
  | [], seen, start => rfl
  | j :: rest, seen, start => by
    obtain ⟨key, kind, link, mergedLinks, query⟩ := j
    rw [flatJoins, joinsLayout, joinsLayout]
    simp only [joinLayout_flat ⟨key, kind, link, mergedLinks, query⟩, joinsLayout_flat rest]
    rfl

theorem joinLayout_flat : ∀ (j : Join) (start : Nat),
    joinLayout f db start j.flat = joinLayout f db start j
  | ⟨_, _, _, _, query⟩, start => by
    rw [Join.flat, joinLayout, joinLayout, Query.layoutFrom_flat query]

end

theorem Query.rowLayout?_flat (q : Query) : q.flat.rowLayout? f db = q.rowLayout? f db := by
  have hempty : q.flat.joins.isEmpty = q.joins.isEmpty := by
    rw [flat_eq, List.isEmpty_map]
  rw [rowLayout?, rowLayout?, hempty]
  simp only [layoutFrom_flat]

theorem Query.selectStatement_flat (q : Query) :
    q.flat.selectStatement db = q.selectStatement db := by
  simp only [selectStatement, qualify_flat, bind_assoc, pure_bind, selectIn_flat]

theorem Query.prepare_flat (q : Query) : q.flat.prepare db = q.prepare db := by
  simp only [prepare, qualify_flat, bind_assoc, pure_bind, selectStatement_flat, rowLayout?_flat]

end

end SqlTree
