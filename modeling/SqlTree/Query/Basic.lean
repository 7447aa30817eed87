import SqlTree.Alias.Monad
import SqlTree.Expr.Order
import SqlTree.Schema.KeyLink

/-!
# Requests

A `Query` describes a selection (or a deletion) before it is a statement. It reads from a source, a
table or another request; its clauses say what is selected from there and how; and its joins, each
under a key, are requests on associated tables. Columns need not say which occurrence of a table
they belong to: they belong to the source of the request that they are written in.

* `SelectItem` is an item of the selection, `Clauses` the clauses of a request.
* `Query`, `Source` and `Join` are the request itself, as a tree.
-/

namespace SqlTree

/-! ## Clauses -/

/-- An item of a selection, with occurrences in `ρ`. -/
inductive SelectItem (ρ : Type) where
  /-- All columns of a given occurrence, or of the one at hand. -/
  | star (owner? : Option ρ)
  /-- An expression, with a name of its own if it has one. -/
  | expr (e : Expr ρ) (name? : Option String)

namespace SelectItem

variable {ρ σ ε : Type}

/-- The item with `owner` given to every star and column that has no occurrence. -/
def qualified (owner : ρ) : SelectItem ρ → SelectItem ρ
  | star none => star (some owner)
  | star (some own) => star (some own)
  | expr e name? => expr (e.qualified owner) name?

/-- The item with its occurrences replaced. -/
def withOwners (replace : Option ρ → Except ε (Option σ)) : SelectItem ρ → Except ε (SelectItem σ)
  | star owner? => return star (← replace owner?)
  | expr e name? => return expr (← e.withOwners replace) name?

end SelectItem

/-- How many rows are kept, and how many are passed over before them. -/
structure Limit where
  count : Nat
  offset? : Option Nat
  deriving DecidableEq

/-- The clauses of a request on its source. -/
structure Clauses where
  selection : List (SelectItem Alias)
  distinct : Bool := false
  filter? : Option (Lookup (Expr Alias)) := none
  group? : Option (Lookup (List (Expr Alias))) := none
  having? : Option (Expr Alias) := none
  order : SortOrder := .empty
  limit? : Option Limit := none

/-! ## The tree -/

/-- How a join treats rows without an associated row. -/
inductive JoinKind where
  /-- They are kept. -/
  | optional
  /-- They are left out. -/
  | required
  deriving DecidableEq, Repr

/-- The kind of two joins taken together: required if either is. -/
def JoinKind.merge : JoinKind → JoinKind → JoinKind
  | optional, optional => optional
  | _, _ => required

/-- Which columns a join compares: those of a foreign key, held by the parent table or by the joined
one. -/
structure JoinLink where
  key : KeyLink
  isHeldByParent : Bool
  deriving DecidableEq

mutual

/-- A request. -/
structure Query where
  source : Source
  clauses : Clauses
  joins : List Join
  /-- Whether the request was qualified. Qualifying it again leaves it as it is. -/
  isQualified : Bool

/-- What a request reads from, and the occurrence that this is. -/
inductive Source where
  | table (name : String) (alias? : Option Alias)
  | nested (query : Query) (alias? : Option Alias)

/-- A request on an associated table, under a key. Joins that were merged into it and whose link was
written in another way leave their links in `mergedLinks`. -/
structure Join where
  key : String
  kind : JoinKind
  link : JoinLink
  mergedLinks : List JoinLink
  query : Query

end

namespace Source

/-- The occurrence that a source is. -/
def alias? : Source → Option Alias
  | table _ alias? => alias?
  | nested _ alias? => alias?

/-- The table of a source that is a table. -/
def tableName? : Source → Option String
  | table name _ => some name
  | nested _ _ => none

/-- The source as the given occurrence. -/
def withAlias (a : Alias) : Source → Source
  | table name _ => table name (some a)
  | nested query _ => nested query (some a)

end Source

namespace Query

/-- The request for all columns of a source. -/
def ofSource (source : Source) : Query := ⟨source, { selection := [.star none] }, [], false⟩

/-- The request for all columns of a table. -/
def table (name : String) : Query := ofSource (.table name none)

/-- The request for all columns of another request. -/
def nested (query : Query) : Query := ofSource (.nested query none)

end Query

/-- The join under a key, if there is one. -/
def Join.find? (key : String) (joins : List Join) : Option Join := joins.find? (·.key == key)

/-- The joins with the first one under the key of `j` replaced by `j`. -/
def Join.replace (j : Join) : List Join → List Join
  | [] => []
  | k :: rest => if k.key = j.key then j :: rest else k :: Join.replace j rest

/-- The join under a key, if there is one. -/
def Query.join? (q : Query) (key : String) : Option Join := Join.find? key q.joins

end SqlTree
