import SqlTree.Region.TableMap
import SqlTree.Text.Ascii

/-!
# Regions

A region is a set of rows of tables: every row there is, none, or those of a map from tables to
rows. Tables are told apart without regard to ASCII case.

* `Region.contains` says whether a row lies in a region, `Region.containsTable` whether some row of
  a table may.
* `Region.union` and `Region.inter` combine regions.
-/

namespace SqlTree

/-- A set of rows of tables. -/
inductive Region where
  /-- Every row of every table. -/
  | full
  /-- Rows of the given tables, under names in small letters. -/
  | tables (m : TableMap)
  /-- Nothing. -/
  | empty
  deriving DecidableEq

namespace Region

/-! ## Building -/

/-- The region of the given rows of one table. -/
def ofRows (name : String) (rows : Rows) : Region :=
  tables (TableMap.empty.insert (Text.asciiLower name) rows)

/-- All rows of a table. -/
def table (name : String) : Region := ofRows name .all

/-- The rows of a table with the given row ids. -/
def rows (name : String) (ids : List Int64) : Region :=
  if ids.isEmpty then empty else ofRows name (.only (.ofList ids))

/-- The region of a map, empty when the map is. -/
def ofMap (m : TableMap) : Region := if m.isEmpty then empty else tables m

/-- What lies in either region. -/
def union : Region → Region → Region
  | full, _ | _, full => full
  | empty, r => r
  | r, empty => r
  | tables m, tables n => tables (m.union n)

/-- What lies in both regions. -/
def inter : Region → Region → Region
  | empty, _ | _, empty => empty
  | full, r => r
  | r, full => r
  | tables m, tables n => ofMap (m.inter n)

/-! ## Reading -/

/-- Whether nothing lies in a region. -/
def isEmpty : Region → Bool
  | full => false
  | tables m => m.isEmpty
  | empty => true

/-- Whether everything lies in a region. -/
def isFull : Region → Bool
  | full => true
  | _ => false

/-- Whether the row of a table with the given row id lies in a region. -/
def contains (r : Region) (name : String) (id : Int64) : Bool :=
  match r with
  | full => true
  | tables m => (m.find? (Text.asciiLower name)).any (·.contains id)
  | empty => false

/-- Whether a region has a table. -/
def containsTable (r : Region) (name : String) : Bool :=
  match r with
  | full => true
  | tables m => (m.find? (Text.asciiLower name)).isSome
  | empty => false

end Region

end SqlTree
