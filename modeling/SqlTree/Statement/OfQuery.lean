import SqlTree.Query.Merge
import SqlTree.Statement.Scope
import SqlTree.Statement.Basic

/-!
# Statements of qualified requests

How a qualified request becomes a statement. Selected items of the request and its joins make one
list; joins follow the source in depth-first order; filters and links of joins become their
conditions, and all other clauses are those of the request itself. A join takes no group, no
condition on groups, no limit and no distinctness, and nothing beneath an optional join may be
required.

* `Query.toSelect` and `Query.toDelete` give the statement, or why there is none.
-/

namespace SqlTree

/-! ## Links -/

/-- A pair of columns without regard to ASCII case. -/
def lowerPair (p : String × String) : String × String :=
  (Text.asciiLower p.1, Text.asciiLower p.2)

/-- Whether two links compare the same columns. -/
def JoinLink.agreesWith (db : Schema) (a b : JoinLink) : Except CompileError Bool :=
  if a = b then return true
  else if a.isBetweenSameTables b then do
    let pairs ← a.key.resolve db
    let pairs' ← b.key.resolve db
    return (pairs.map lowerPair).isPerm (pairs'.map lowerPair)
  else return false

/-- Fails unless every link merged into a join compares the same columns as its own. -/
def JoinLink.checkMerged (db : Schema) (key : String) (own : JoinLink) :
    List JoinLink → Except CompileError Unit
  | [] => return ()
  | l :: rest => do
    if ← own.agreesWith db l then own.checkMerged db key rest
    else throw (.clashingJoins key)

/-- The comparison of one pair of columns, between the parent `left` and the joined `right`. -/
def JoinLink.comparison {ρ : Type} (link : JoinLink) (left right : ρ) (p : String × String) :
    Expr ρ :=
  if link.isHeldByParent then .binary .eq (.colOf right p.2) (.colOf left p.1)
  else .binary .eq (.colOf right p.1) (.colOf left p.2)

/-- The condition that all pairs of columns of a link are equal. -/
def JoinLink.condition (db : Schema) (link : JoinLink) (left right : Alias) :
    Except CompileError (Expr Alias) := do
  match (← link.key.resolve db).map (link.comparison left right) with
  | [] => throw link.key.notFound
  | first :: rest => return rest.foldl Expr.and first

/-! ## Clauses -/

/-- The first clause that a joined request has and a join has no place for. -/
def Clauses.unjoinable? (c : Clauses) : Option Token :=
  if c.group?.isSome then some .groupBy
  else if c.having?.isSome then some .having
  else if c.limit?.isSome then some .limit
  else if c.distinct then some .distinct
  else none

namespace Scope

variable (s : Scope)

/-- A condition with its names. -/
def expr (e : Expr Alias) : Except CompileError (Expr String) := e.withOwners s.owner?

/-- A condition that depends on the schema, with its names. -/
def filter (e : Lookup (Expr Alias)) : Except CompileError (Expr String) := do
  let e ← e.resolve s.context.schema
  s.expr e

/-- A group that depends on the schema, with its names. -/
def group : Option (Lookup (List (Expr Alias))) → Except CompileError (List (Expr String))
  | none => return []
  | some es => do
    let es ← es.resolve s.context.schema
    es.mapM s.expr

/-- The terms of an order, with their names. -/
def order (o : SortOrder) : Except CompileError (List (SortTerm String)) :=
  o.terms.mapM (·.withOwners s.owner?)

/-- The condition that a join is joined on: its link, and its filter if it has one. -/
def on (link : JoinLink) (left right : Alias) (filter? : Option (Lookup (Expr Alias))) :
    Except CompileError (Expr String) := do
  let condition ← link.condition s.context.schema left right
  match filter? with
  | none => s.expr condition
  | some filter => do
    let filter ← filter.resolve s.context.schema
    s.expr (condition.and filter)

/-- The name given to a table, unless it is the name of the table. -/
def tableName? (name : String) : Option Alias → Except CompileError (Option String)
  | none => return none
  | some a => do
    let given ← s.context.name a
    return if given = name then none else some given

/-- The name given to a nested request, where it has one or needs one. -/
def nestedName? : Option Alias → Except CompileError (Option String)
  | none => return none
  | some a =>
    if (s.context.forest.userName? a).isSome || s.showsNames then do
      let given ← s.context.name a
      return some given
    else return none

end Scope

/-! ## Statements -/

mutual

/-- The selection of a qualified request. -/
def Query.toSelect (c : Context) : Query → Except CompileError Select
  | ⟨source, clauses, joins, _⟩ => do
    let s := Scope.ofAliases c (source.alias?.toList ++ joinsLevelAliases joins)
    let items ← (clauses.selection ++ joinsItems joins).mapM (·.withOwners s.owner?)
    if items.isEmpty then throw .nothingSelected
    let item ← source.toFromItem c s
    let left ← source.occurrence
    let joined ← joinsToItems c s left true joins
    let filter? ← clauses.filter?.mapM s.filter
    let group ← s.group clauses.group?
    let having? ← clauses.having?.mapM s.expr
    let order ← s.order (pushOrders clauses.order joins)
    return ⟨clauses.distinct, items, item, joined, filter?, group, having?, order, clauses.limit?⟩

/-- The source of a qualified request. -/
def Source.toFromItem (c : Context) (s : Scope) : Source → Except CompileError FromItem
  | .table name alias? => do
    let name? ← s.tableName? name alias?
    return .table name name?
  | .nested query alias? => do
    let selection ← query.toSelect c
    let name? ← s.nestedName? alias?
    return .select selection name?

/-- A join of a qualified request and the joins beneath it, behind the parent `left`. -/
def Join.toItems (c : Context) (s : Scope) (left : Alias) (mayRequire : Bool) :
    Join → Except CompileError (List JoinItem)
  | ⟨key, kind, link, mergedLinks, ⟨source, clauses, joins, _⟩⟩ => do
    if let some clause := clauses.unjoinable? then throw (.notJoinable key clause)
    link.checkMerged c.schema key mergedLinks
    if kind = .required ∧ mayRequire = false then throw (.requiredBeneathOptional key)
    let item ← source.toFromItem c s
    let right ← source.occurrence
    let on ← s.on link left right clauses.filter?
    let rest ← joinsToItems c s right (kind == .required) joins
    return ⟨kind, item, on⟩ :: rest

/-- The joins of a qualified request, behind the parent `left`. -/
def joinsToItems (c : Context) (s : Scope) (left : Alias) (mayRequire : Bool) :
    List Join → Except CompileError (List JoinItem)
  | [] => return []
  | j :: rest => do
    let items ← j.toItems c s left mayRequire
    let restItems ← joinsToItems c s left mayRequire rest
    return items ++ restItems

end

/-- What keeps a request from being a deletion, whatever its source. -/
def Query.deleteObstacle? (q : Query) : Option DeleteObstacle :=
  if q.clauses.group?.isSome then some .grouped
  else if q.clauses.having?.isSome then some .having
  else if !q.joins.isEmpty then some .joined
  else none

/-- The order and the limit of a deletion. An order alone says nothing. -/
def Scope.deleteTail (s : Scope) (clauses : Clauses) :
    Except CompileError (List (SortTerm String) × Option Limit) :=
  match clauses.limit? with
  | none => return ([], none)
  | some limit =>
    if s.context.schema.allowsDeleteLimit then do
      let order ← s.order clauses.order
      return (order, some limit)
    else throw .noDeleteLimit

/-- The deletion of a qualified request. -/
def Query.toDelete (c : Context) (q : Query) : Except CompileError Delete := do
  if let some obstacle := q.deleteObstacle? then throw (.notDeletable obstacle)
  match q.source with
  | .nested _ _ => throw (.notDeletable .notATable)
  | .table table alias? => do
    let s := Scope.ofAliases c q.levelAliases
    let name? ← s.tableName? table alias?
    let filter? ← q.clauses.filter?.mapM s.filter
    let tail ← s.deleteTail q.clauses
    return ⟨table, name?, filter?, tail.1, tail.2⟩

end SqlTree
