import Mathlib.Data.List.Flatten
import SqlTree.Proofs.Expr.Order
import SqlTree.Query.Association
import SqlTree.Schema.Catalog
import SqlTree.Statement.Scope

/-!
# The requests of one level

A request and the requests of its joins, at any depth, stand at one level of a statement. They are
its nodes, listed as the statement lists them: a request before its joins, a join before the joins
behind it. Requests nested in a source are not among them.

* `Query.nodes` lists the nodes.
* `Query.items_eq`, `Query.fullOrder_exprs`, `Query.levelAliases_eq` and `Query.statementAliases_eq`
  say that what is collected along the joins, the selected items, the order and the occurrences of
  the sources, is that of the nodes, node by node.
* `Query.nestedInduction` is induction from the nested requests of a level to the request.
-/

namespace SqlTree

mutual

/-- A request and the requests of the joins beneath it. -/
def Query.nodes : Query → List Query
  | ⟨source, clauses, joins, isQualified⟩ =>
    ⟨source, clauses, joins, isQualified⟩ :: joinsNodes joins

/-- The requests of joins and of the joins beneath them. -/
def joinsNodes : List Join → List Query
  | [] => []
  | j :: rest => joinNodes j ++ joinsNodes rest

/-- The request of one join and those of the joins beneath it. -/
def joinNodes : Join → List Query
  | ⟨_, _, _, _, query⟩ => query.nodes

end

theorem Query.nodes_eq (q : Query) : q.nodes = q :: joinsNodes q.joins := by
  cases q
  simp [nodes]

theorem joinsNodes_eq_flatMap (joins : List Join) :
    joinsNodes joins = joins.flatMap (·.query.nodes) := by
  induction joins with
  | nil => rfl
  | cons j rest ih =>
    obtain ⟨key, kind, link, mergedLinks, query⟩ := j
    rw [joinsNodes, joinNodes, List.flatMap_cons, ih]

/-- The requests of a join are requests of the level. -/
theorem Query.nodes_subset_of_mem {q : Query} {j : Join} (hj : j ∈ q.joins) :
    j.query.nodes ⊆ q.nodes := by
  intro n hn
  rw [nodes_eq, joinsNodes_eq_flatMap]
  exact List.mem_cons_of_mem q (List.mem_flatMap.2 ⟨j, hj, hn⟩)

mutual

theorem Query.items_eq : ∀ q : Query, q.items = q.nodes.flatMap (·.clauses.selection)
  | ⟨_, _, joins, _⟩ => by
    rw [Query.items, Query.nodes, List.flatMap_cons, joinsItems_eq joins]

theorem joinsItems_eq : ∀ joins : List Join,
    joinsItems joins = (joinsNodes joins).flatMap (·.clauses.selection)
  | [] => by simp [joinsItems, joinsNodes]
  | j :: rest => by
    rw [joinsItems, joinsNodes, List.flatMap_append, joinItems_eq j, joinsItems_eq rest]

theorem joinItems_eq : ∀ j : Join, joinItems j = (joinNodes j).flatMap (·.clauses.selection)
  | ⟨_, _, _, _, query⟩ => by
    rw [joinItems, joinNodes, Query.items_eq query]

end

mutual

theorem Query.fullOrder_exprs : ∀ q : Query,
    q.fullOrder.exprs = q.nodes.flatMap (·.clauses.order.exprs)
  | ⟨_, _, joins, _⟩ => by
    rw [Query.fullOrder, Query.nodes, List.flatMap_cons, pushOrders_exprs joins]

theorem pushOrders_exprs : ∀ (joins : List Join) {o : SortOrder},
    (pushOrders o joins).exprs = o.exprs ++ (joinsNodes joins).flatMap (·.clauses.order.exprs)
  | [], o => by simp [pushOrders, joinsNodes]
  | j :: rest, o => by
    rw [pushOrders, joinsNodes, pushOrders_exprs rest, SortOrder.exprs_pushOrder,
      joinOrder_exprs j, List.flatMap_append, List.append_assoc]

theorem joinOrder_exprs : ∀ j : Join,
    (joinOrder j).exprs = (joinNodes j).flatMap (·.clauses.order.exprs)
  | ⟨_, _, _, _, query⟩ => by
    rw [joinOrder, joinNodes, Query.fullOrder_exprs query]

end

mutual

theorem Query.levelAliases_eq : ∀ q : Query,
    q.levelAliases = q.nodes.flatMap (·.source.alias?.toList)
  | ⟨_, _, joins, _⟩ => by
    rw [Query.levelAliases, Query.nodes, List.flatMap_cons, joinsLevelAliases_eq joins]

theorem joinsLevelAliases_eq : ∀ joins : List Join,
    joinsLevelAliases joins = (joinsNodes joins).flatMap (·.source.alias?.toList)
  | [] => rfl
  | j :: rest => by
    rw [joinsLevelAliases, joinsNodes, List.flatMap_append, joinLevelAliases_eq j,
      joinsLevelAliases_eq rest]

theorem joinLevelAliases_eq : ∀ j : Join,
    joinLevelAliases j = (joinNodes j).flatMap (·.source.alias?.toList)
  | ⟨_, _, _, _, query⟩ => by
    rw [joinLevelAliases, joinNodes, Query.levelAliases_eq query]

end

mutual

theorem Query.statementAliases_eq : ∀ q : Query,
    q.statementAliases = q.nodes.flatMap (·.source.statementAliases)
  | ⟨_, _, joins, _⟩ => by
    rw [Query.statementAliases, Query.nodes, List.flatMap_cons, joinsStatementAliases_eq joins]

theorem joinsStatementAliases_eq : ∀ joins : List Join,
    joinsStatementAliases joins = (joinsNodes joins).flatMap (·.source.statementAliases)
  | [] => rfl
  | j :: rest => by
    rw [joinsStatementAliases, joinsNodes, List.flatMap_append, joinStatementAliases_eq j,
      joinsStatementAliases_eq rest]

theorem joinStatementAliases_eq : ∀ j : Join,
    joinStatementAliases j = (joinNodes j).flatMap (·.source.statementAliases)
  | ⟨_, _, _, _, query⟩ => by
    rw [joinStatementAliases, joinNodes, Query.statementAliases_eq query]

end

/-! ## Occurrences of a level and of a statement -/

/-- The occurrences of a level are among those of the statement. -/
theorem Query.levelAliases_sublist (q : Query) : q.levelAliases.Sublist q.statementAliases := by
  rw [Query.levelAliases_eq, Query.statementAliases_eq]
  refine List.Sublist.flatMap_right _ fun p _ => ?_
  cases p.source with
  | table name alias? => exact List.Sublist.refl _
  | nested query alias? => exact List.sublist_append_left _ _

/-- The occurrences of a nested request are among those of the statement around it. -/
theorem Query.nested_sublist {q p inner : Query} {alias? : Option Alias} (hp : p ∈ q.nodes)
    (hsource : p.source = .nested inner alias?) :
    inner.statementAliases.Sublist q.statementAliases := by
  have hinner : inner.statementAliases.Sublist p.source.statementAliases := by
    rw [hsource]
    exact List.sublist_append_right _ _
  have hnode : p.source.statementAliases.Sublist q.statementAliases := by
    rw [Query.statementAliases_eq, List.flatMap_def]
    exact List.sublist_flatten_of_mem (List.mem_map_of_mem hp)
  exact hinner.trans hnode

/-! ## Nested requests -/

mutual

theorem Query.sizeOf_node_le : ∀ (q : Query), ∀ p ∈ q.nodes, sizeOf p ≤ sizeOf q
  | ⟨source, clauses, joins, isQualified⟩, p, hp => by
    rw [Query.nodes] at hp
    rcases List.mem_cons.1 hp with rfl | hp
    · exact Nat.le_refl _
    · have hle := joinsNodes_sizeOf_le joins p hp
      rw [Query.mk.sizeOf_spec]
      omega

theorem joinsNodes_sizeOf_le : ∀ (joins : List Join), ∀ p ∈ joinsNodes joins,
    sizeOf p ≤ sizeOf joins
  | [], p, hp => by
    rw [joinsNodes] at hp
    cases hp
  | j :: rest, p, hp => by
    rw [joinsNodes] at hp
    rw [List.cons.sizeOf_spec]
    rcases List.mem_append.1 hp with hp | hp
    · have hle := joinNodes_sizeOf_le j p hp
      omega
    · have hle := joinsNodes_sizeOf_le rest p hp
      omega

theorem joinNodes_sizeOf_le : ∀ (j : Join), ∀ p ∈ joinNodes j, sizeOf p ≤ sizeOf j
  | ⟨key, kind, link, mergedLinks, query⟩, p, hp => by
    have hle := Query.sizeOf_node_le query p hp
    rw [Join.mk.sizeOf_spec]
    omega

end

/-- What holds of a request when it holds of those nested in the sources of its level holds of every
request. -/
theorem Query.nestedInduction {P : Query → Prop}
    (step : ∀ q : Query,
      (∀ p ∈ q.nodes, ∀ inner alias?, p.source = .nested inner alias? → P inner) → P q) : ∀ q : Query, P q := by
  have bySize : ∀ (n : Nat) (q : Query), sizeOf q = n → P q := by
    intro n
    induction n using Nat.strongRecOn with
    | ind n ih =>
      intro q hq
      refine step q fun p hp inner alias? hsource => ih (sizeOf inner) ?_ inner rfl
      have hle := q.sizeOf_node_le p hp
      have hlt : sizeOf inner < sizeOf p := by
        obtain ⟨source, clauses, joins, isQualified⟩ := p
        obtain rfl : source = .nested inner alias? := hsource
        rw [Query.mk.sizeOf_spec, Source.nested.sizeOf_spec]
        omega
      omega
  exact fun q => bySize (sizeOf q) q rfl

/-! ## An example -/

/-- A catalog of books, their authors and the countries of these. -/
def bookCatalog : Catalog where
  tables := [
    { name := "book", columns := ["id", "title", "authorId"],
      foreignKeys := [⟨"author", [("authorId", "id")]⟩] },
    { name := "author", columns := ["id", "countryId"],
      foreignKeys := [⟨"country", [("countryId", "id")]⟩] },
    { name := "country", columns := ["id", "name"] }]

/-- All books with the names of the countries of their authors, nothing of the authors
themselves. -/
def booksWithCountry : Query :=
  let country := (Query.table "country").select [.expr (.col "name") none]
  let author := { (Query.table "author").selectNothing with
    joins := [((Association.belongsTo "author" "country").withDestination country).toJoin
      .optional true] }
  { Query.table "book" with
    joins := [((Association.belongsTo "book" "author").withDestination author).toJoin
      .required true] }

/-- The books called Emma, each with the titles of all books of its author. -/
def booksOfSameAuthor : Query :=
  let other := (Query.table "book").select [.expr (.col "title") none]
  let author := { (Query.table "author").selectNothing with
    joins := [((Association.hasMany "author" "book").withDestination other).toJoin .required true] }
  let book := { Query.table "book" with
    joins := [((Association.belongsTo "book" "author").withDestination author).toJoin
      .required true] }
  (Query.nested book).filter (.binary .eq (.col "title") (.value (.text "Emma")))

end SqlTree
