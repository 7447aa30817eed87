import SqlTree.Query.Merge

/-!
# Deriving requests

Requests are built from others by small steps, each of which gives a new request: choosing what is
selected, adding conditions, ordering, limiting, naming the source, and adding joins.
-/

namespace SqlTree

namespace Query

variable (q : Query)

/-! ## Selection -/

/-- The request with another selection. -/
def select (items : List (SelectItem Alias)) : Query :=
  { q with clauses := { q.clauses with selection := items } }

/-- The request with more items selected behind its own. -/
def selectMore (items : List (SelectItem Alias)) : Query :=
  q.select (q.clauses.selection ++ items)

/-- The request with nothing selected. -/
def selectNothing : Query := q.select []

/-- The request for each row once. -/
def distinct : Query := { q with clauses := { q.clauses with distinct := true } }

/-! ## Conditions and groups -/

/-- The request with one more condition, which may depend on the schema. -/
def filterBy (condition : Lookup (Expr Alias)) : Query :=
  { q with clauses :=
    { q.clauses with
      filter? := some (match q.clauses.filter? with
        | some old => .zipWith .and old condition
        | none => condition) } }

/-- The request with one more condition. -/
def filter (condition : Expr Alias) : Query := q.filterBy (.const condition)

/-- The request grouped by expressions that may depend on the schema. -/
def groupBy (expressions : Lookup (List (Expr Alias))) : Query :=
  { q with clauses := { q.clauses with group? := some expressions } }

/-- The request grouped by expressions. -/
def group (expressions : List (Expr Alias)) : Query := q.groupBy (.const expressions)

/-- The request with one more condition on groups. -/
def having (condition : Expr Alias) : Query :=
  { q with clauses :=
    { q.clauses with
      having? := some (match q.clauses.having? with
        | some old => old.and condition
        | none => condition) } }

/-! ## Order and limit -/

/-- The request with another order. -/
def orderBy (order : SortOrder) : Query := { q with clauses := { q.clauses with order := order } }

/-- The request ordered by the given terms. -/
def order (terms : List (SortTerm Alias)) : Query := q.orderBy (.ofTerms terms)

/-- The request in reversed order. The orders of its joins are reversed with it. -/
def reversed : Query := q.orderBy q.clauses.order.reverse

/-- The request for a limited number of rows. -/
def limit (count : Nat) (offset? : Option Nat) : Query :=
  { q with clauses := { q.clauses with limit? := some ⟨count, offset?⟩ } }

mutual

/-- The request without order, in itself and in its joins. -/
def unordered : Query → Query
  | ⟨source, clauses, joins, isQualified⟩ =>
    ⟨source, { clauses with order := .empty }, unorderedJoins joins, isQualified⟩

/-- The joins without order. -/
def unorderedJoins : List Join → List Join
  | [] => []
  | j :: rest => unorderedJoin j :: unorderedJoins rest

/-- The join without order. -/
def unorderedJoin : Join → Join
  | ⟨key, kind, link, mergedLinks, query⟩ => ⟨key, kind, link, mergedLinks, query.unordered⟩

end

/-! ## Source and joins -/

/-- The request with its source as the given occurrence. An occurrence that the source is already
becomes this one. -/
def aliased (a : Alias) : AliasM Query := do
  match q.source.alias? with
  | some own => AliasM.link own a
  | none => pure ()
  return { q with source := q.source.withAlias a }

/-- The request with one more join under a key. A join that is there under the same key is merged
with it; if it can't be, the key is ambiguous. -/
def withJoin (key : String) (join : Join) : AliasM Query := do
  let joins ← (mergeJoins q.joins [{ join with key := key }]).orError (.clashingJoins key)
  return { q with joins := joins }

end Query

end SqlTree
