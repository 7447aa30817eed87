import SqlTree.Query.Basic

/-!
# Qualifying requests

Before a request is a statement, every source gets an occurrence and every column says which
occurrence it belongs to. A request that was qualified before is left as it is.

* `Clauses.qualified` gives an occurrence to the columns of one request.
* `Query.qualify` does so for a request, its nested requests and its joins.
-/

namespace SqlTree

/-- The clauses with `owner` given to every star and column that has no occurrence. -/
def Clauses.qualified (owner : Alias) (c : Clauses) : Clauses where
  selection := c.selection.map (·.qualified owner)
  distinct := c.distinct
  filter? := c.filter?.map (·.map (·.qualified owner))
  group? := c.group?.map (·.map (·.map (·.qualified owner)))
  having? := c.having?.map (·.qualified owner)
  order := c.order.qualified owner
  limit? := c.limit?

mutual

/-- The request with an occurrence for every source and every column. -/
def Query.qualify : Query → AliasM Query
  | ⟨source, clauses, joins, true⟩ => return ⟨source, clauses, joins, true⟩
  | ⟨source, clauses, joins, false⟩ => do
    let owner ← AliasM.fresh none
    let source ← source.qualify owner
    let joins ← qualifyJoins joins
    return ⟨source, clauses.qualified owner, joins, true⟩

/-- The source as the occurrence `owner`. When it is an occurrence already, `owner` becomes that
one. -/
def Source.qualify (owner : Alias) : Source → AliasM Source
  | .table name none => do
    AliasM.bind owner name
    return .table name (some owner)
  | .table name (some own) => do
    AliasM.bind own name
    AliasM.link owner own
    return .table name (some own)
  | .nested query none => do
    let query ← query.qualify
    return .nested query (some owner)
  | .nested query (some own) => do
    AliasM.link owner own
    let query ← query.qualify
    return .nested query (some own)

/-- The join with its request qualified. -/
def Join.qualify : Join → AliasM Join
  | ⟨key, kind, link, mergedLinks, query⟩ => do
    let query ← query.qualify
    return ⟨key, kind, link, mergedLinks, query⟩

/-- The joins with their requests qualified, in order. -/
def qualifyJoins : List Join → AliasM (List Join)
  | [] => return []
  | j :: rest => do
    let j ← j.qualify
    let rest ← qualifyJoins rest
    return j :: rest

end

end SqlTree
