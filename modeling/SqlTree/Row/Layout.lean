import SqlTree.Query.Width

/-!
# Row layouts

The columns of a row that a request with joins fetches: first its own, then those of each join in
order, each with the columns of the joins beneath it. A `RowLayout` says which columns are whose,
and slices a row accordingly.

* `Query.rowLayout?` is the layout of a request, `RowLayout.slice?` slices a row by it.
-/

namespace SqlTree

/-- The columns from `start` up to, not including, `stop`, and a layout for each key of a join. -/
structure RowLayout where
  start : Nat
  stop : Nat
  scopes : List (String × RowLayout)
  deriving BEq

/-- A row in slices: its own columns, and a sliced row for each key of a join. -/
structure SlicedRow (α : Type) where
  own : List α
  scopes : List (String × SlicedRow α)

/-- The layout under a key. -/
def RowLayout.scope? (l : RowLayout) (key : String) : Option RowLayout := l.scopes.lookup key

/-- The sliced row under a key. -/
def SlicedRow.scope? {α : Type} (r : SlicedRow α) (key : String) : Option (SlicedRow α) :=
  r.scopes.lookup key

/-- The part of a row from `start` up to, not including, `stop`, if the row has it. -/
def slice? {α : Type} (row : List α) (start stop : Nat) : Option (List α) :=
  if start ≤ stop ∧ stop ≤ row.length then some ((row.take stop).drop start) else none

mutual

/-- A row sliced by a layout, if the row is long enough. -/
def RowLayout.slice? {α : Type} (row : List α) : RowLayout → Option (SlicedRow α)
  | ⟨start, stop, scopes⟩ => do
    let slices ← sliceScopes? row scopes
    let own ← SqlTree.slice? row start stop
    return ⟨own, slices⟩

/-- A row sliced by the layouts under keys. -/
def sliceScopes? {α : Type} (row : List α) :
    List (String × RowLayout) → Option (List (String × SlicedRow α))
  | [] => return []
  | (key, l) :: rest => do
    let r ← l.slice? row
    let slices ← sliceScopes? row rest
    return (key, r) :: slices

end

mutual

/-- The layout of a request whose columns begin at `start`. -/
def Query.layoutFrom (f : Forest) (db : Schema) (start : Nat) :
    Query → Except CompileError (RowLayout × Nat)
  | ⟨source, clauses, joins, _⟩ => do
    let width ← itemsWidth f db source.alias? (source.width f db) clauses.selection
    let scopes ← joinsLayout f db [] (start + width) joins
    return (⟨start, start + width, scopes.1⟩, scopes.2)

/-- The layout of a join whose columns begin at `start`. -/
def joinLayout (f : Forest) (db : Schema) (start : Nat) :
    Join → Except CompileError (RowLayout × Nat)
  | ⟨_, _, _, _, query⟩ => query.layoutFrom f db start

/-- The layouts of joins whose columns begin at `start`, under keys that differ from the keys `seen`
before and from each other. -/
def joinsLayout (f : Forest) (db : Schema) (seen : List String) (start : Nat) :
    List Join → Except CompileError (List (String × RowLayout) × Nat)
  | [] => return ([], start)
  | j :: rest => do
    if seen.any (Text.sameName · j.key) then throw (.clashingJoins j.key)
    let layout ← joinLayout f db start j
    let layouts ← joinsLayout f db (j.key :: seen) layout.2 rest
    return ((j.key, layout.1) :: layouts.1, layouts.2)

end

/-- The layout of the rows that a request fetches. A request without joins has none. -/
def Query.rowLayout? (f : Forest) (db : Schema) (q : Query) :
    Except CompileError (Option RowLayout) :=
  if q.joins.isEmpty then return none
  else do
    let layout ← q.layoutFrom f db 0
    return some layout.1

end SqlTree
