import SqlTree.Schema.Basic

/-!
# Catalogs

A catalog is a list of table descriptions, from which a schema is answered. Tables are looked up by
name without regard to ASCII case, and of two tables with one name the one added last counts.
-/

namespace SqlTree

/-- The description of a table. -/
structure Table where
  name : String
  columns : List String := []
  /-- The declared primary key, if there is one. -/
  declaredKey? : Option PrimaryKey := none
  uniqueKeys : List (List String) := []
  foreignKeys : List ForeignKey := []

namespace Table

/-- The primary key: the declared one, or the row id. -/
def primaryKey (t : Table) : PrimaryKey := t.declaredKey?.getD .hidden

/-- All keys that hold at most one row for given columns, the primary key first. -/
def keys (t : Table) : List (List String) := t.primaryKey.columns :: t.uniqueKeys

end Table

/-- A list of table descriptions, the one added last in front. -/
structure Catalog where
  tables : List Table := []
  allowsDeleteLimit : Bool := false

namespace Catalog

/-- The catalog with one more table, which hides an earlier one of the same name. -/
def add (c : Catalog) (t : Table) : Catalog := { c with tables := t :: c.tables }

/-- The table of the given name. -/
def table (c : Catalog) (name : String) : Except CompileError Table :=
  match c.tables.find? (Text.sameName ·.name name) with
  | some t => .ok t
  | none => .error (.noSuchTable name)

/-- The answers of a catalog. -/
def schema (c : Catalog) : Schema where
  declaredName name := return (← c.table name).name
  primaryKey name := return (← c.table name).primaryKey
  uniqueKey? name columns := return (← c.table name).keys.find? (Text.sameNames columns)
  columnCount name := return (← c.table name).columns.length
  foreignKeys name := return (← c.table name).foreignKeys
  allowsDeleteLimit := c.allowsDeleteLimit

end Catalog

end SqlTree
