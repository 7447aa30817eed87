import SqlTree.Query.Basic

/-!
# Widths

How many columns a request selects. An expression is one column; a star is as many as its source
has. A star of another occurrence counts the columns of the table it is bound to.
-/

namespace SqlTree

/-- The number of columns of an item, selected from the occurrence `own?` of a source of the given
width. -/
def SelectItem.width (f : Forest) (db : Schema) (own? : Option Alias)
    (sourceWidth : Except CompileError Nat) : SelectItem Alias → Except CompileError Nat
  | star none => sourceWidth
  | star (some owner) =>
    if own?.any (f.isSame · owner) then sourceWidth
    else
      match f.tableName? owner with
      | some name => db.columnCount name
      | none => sourceWidth
  | expr _ _ => return 1

/-- The number of columns of all items. -/
def itemsWidth (f : Forest) (db : Schema) (own? : Option Alias)
    (sourceWidth : Except CompileError Nat) : List (SelectItem Alias) → Except CompileError Nat
  | [] => return 0
  | item :: rest => do
    let width ← item.width f db own? sourceWidth
    let restWidth ← itemsWidth f db own? sourceWidth rest
    return width + restWidth

mutual

/-- The number of columns that a request and its joins select. -/
def Query.width (f : Forest) (db : Schema) : Query → Except CompileError Nat
  | ⟨source, clauses, joins, _⟩ => do
    let width ← itemsWidth f db source.alias? (source.width f db) clauses.selection
    let joinsWidth ← joinsWidth f db joins
    return width + joinsWidth

/-- The number of columns of a source. -/
def Source.width (f : Forest) (db : Schema) : Source → Except CompileError Nat
  | .table name _ => db.columnCount name
  | .nested query _ => query.width f db

/-- The number of columns that a join selects. -/
def Join.width (f : Forest) (db : Schema) : Join → Except CompileError Nat
  | ⟨_, _, _, _, query⟩ => query.width f db

/-- The number of columns that joins select. -/
def joinsWidth (f : Forest) (db : Schema) : List Join → Except CompileError Nat
  | [] => return 0
  | j :: rest => do
    let width ← j.width f db
    let restWidth ← joinsWidth f db rest
    return width + restWidth

end

/-- The number of columns that a request selects itself, without its joins. -/
def Query.ownWidth (f : Forest) (db : Schema) (q : Query) : Except CompileError Nat :=
  itemsWidth f db q.source.alias? (q.source.width f db) q.clauses.selection

end SqlTree
