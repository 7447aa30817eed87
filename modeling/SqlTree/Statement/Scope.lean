import SqlTree.Query.Basic
import SqlTree.Statement.Naming

/-!
# Names in a statement

Where the sources of a request stand in its statement, and what they are called there. A request,
its joins and the joins of these stand at one level; a nested request is a level of its own. At a
level with one occurrence columns are written alone, at a level with several they are written behind
the name of their occurrence.

* `Query.levelAliases` are the sources of one level, `Query.statementAliases` those of all levels.
* `Query.items` and `Query.fullOrder` collect what a level selects and how it is ordered.
* `Context` is what a statement is compiled against, `Scope` what a level is.
-/

namespace SqlTree

/-! ## Collecting along the joins -/

mutual

/-- The occurrences of the sources of one level. -/
def Query.levelAliases : Query → List Alias
  | ⟨source, _, joins, _⟩ => source.alias?.toList ++ joinsLevelAliases joins

/-- The occurrences of the sources of joins. -/
def joinsLevelAliases : List Join → List Alias
  | [] => []
  | j :: rest => joinLevelAliases j ++ joinsLevelAliases rest

/-- The occurrences of the sources of one join. -/
def joinLevelAliases : Join → List Alias
  | ⟨_, _, _, _, query⟩ => query.levelAliases

end

mutual

/-- The occurrences of all sources of a statement, in order of appearance. -/
def Query.statementAliases : Query → List Alias
  | ⟨source, _, joins, _⟩ => source.statementAliases ++ joinsStatementAliases joins

/-- The occurrence of a source, and those of all sources in it. -/
def Source.statementAliases : Source → List Alias
  | .table _ alias? => alias?.toList
  | .nested query alias? => alias?.toList ++ query.statementAliases

/-- The occurrences of all sources of joins. -/
def joinsStatementAliases : List Join → List Alias
  | [] => []
  | j :: rest => joinStatementAliases j ++ joinsStatementAliases rest

/-- The occurrences of all sources of one join. -/
def joinStatementAliases : Join → List Alias
  | ⟨_, _, _, _, query⟩ => query.statementAliases

end

mutual

/-- The items that a request selects, and behind them those of its joins. -/
def Query.items : Query → List (SelectItem Alias)
  | ⟨_, clauses, joins, _⟩ => clauses.selection ++ joinsItems joins

/-- The items that joins select, one join behind the other. -/
def joinsItems : List Join → List (SelectItem Alias)
  | [] => []
  | j :: rest => joinItems j ++ joinsItems rest

/-- The items that one join selects. -/
def joinItems : Join → List (SelectItem Alias)
  | ⟨_, _, _, _, query⟩ => query.items

end

mutual

/-- The order of a request, and behind it the orders of its joins, which are reversed with it. -/
def Query.fullOrder : Query → SortOrder
  | ⟨_, clauses, joins, _⟩ => pushOrders clauses.order joins

/-- An order with the orders of joins nested at its end. -/
def pushOrders (o : SortOrder) : List Join → SortOrder
  | [] => o
  | j :: rest => pushOrders (o.pushOrder (joinOrder j)) rest

/-- The order of one join. -/
def joinOrder : Join → SortOrder
  | ⟨_, _, _, _, query⟩ => query.fullOrder

end

/-! ## Names -/

/-- What a statement is compiled against: the occurrences, the schema, and the name of every
occurrence in the statement. -/
structure Context where
  forest : Forest
  schema : Schema
  names : List (Alias × String)

namespace Context

/-- The context of the statement of a qualified request. -/
def ofQuery (f : Forest) (db : Schema) (q : Query) : Except CompileError Context :=
  return ⟨f, db, ← assignNames (f.occurrences q.statementAliases)⟩

/-- The name of an occurrence in the statement. -/
def name (c : Context) (a : Alias) : Except CompileError String :=
  match c.names.lookup (c.forest.root a) with
  | some name => .ok name
  | none => .error (.unknownOccurrence ((c.forest.identityName? a).getD "anonymous"))

end Context

/-- A level of a statement: whether the names of occurrences are written in front of columns. -/
structure Scope where
  context : Context
  showsNames : Bool

namespace Scope

/-- The level with sources of the given occurrences. -/
def ofAliases (c : Context) (aliases : List Alias) : Scope :=
  ⟨c, 1 < (aliases.map c.forest.root).eraseDups.length⟩

/-- What is written in front of a column of the given occurrence. The occurrence has to be part of
the statement, also when nothing is written. -/
def owner? (s : Scope) : Option Alias → Except CompileError (Option String)
  | none => return none
  | some a => do
    let name ← s.context.name a
    return if s.showsNames then some name else none

end Scope

/-- The occurrence of a qualified source. -/
def Source.occurrence (s : Source) : Except CompileError Alias :=
  match s.alias? with
  | some a => .ok a
  | none => .error (.unknownOccurrence (s.tableName?.getD "subquery"))

end SqlTree
