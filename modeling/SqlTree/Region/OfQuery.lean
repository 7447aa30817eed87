import SqlTree.Query.Qualify
import SqlTree.Query.Merge
import SqlTree.Region.Basic

/-!
# Regions of requests

Which rows a request reads. Every table in it is read whole, except that of its own source where the
filter tells the row ids: comparisons of the row id with integers, lists of integers, and what
conjunctions and disjunctions make of them. A source that is read again elsewhere in the request
stays whole.

* `Expr.rowIds?` are the row ids that a filter allows, if it tells.
* `Query.region` is the region of a request.
-/

namespace SqlTree

/-! ## Row ids of a filter -/

/-- A column that holds the row id, of the occurrence that the source of a request is. -/
structure RowIdColumn where
  name : String
  owner? : Option Alias

namespace RowIdColumn

/-- Whether a name stands for the row id. -/
def hasName (c : RowIdColumn) (name : String) : Bool :=
  ["rowid", "_rowid_", "oid", c.name].any (Text.sameName · name)

/-- Whether a column of the given occurrence is one of the source. -/
def isOwn (c : RowIdColumn) (f : Forest) : Option Alias → Bool
  | none => true
  | some a => c.owner?.any (f.isSame a ·)

/-- Whether an expression is the row id of the source. -/
def isMatch (c : RowIdColumn) (f : Forest) : Expr Alias → Bool
  | .column name owner? => c.hasName name && c.isOwn f owner?
  | _ => false

end RowIdColumn

namespace Expr

variable {ρ : Type}

/-- The row ids that equal a written value: none equals `NULL`. -/
def idValue? : Expr ρ → Option (List Int64)
  | value .null => some []
  | value (.integer n) => some [n]
  | _ => none

/-- The row ids for which a comparison of the row id with a value holds, if it is one. -/
def comparedIds? (isRowId : Expr ρ → Bool) (lhs rhs : Expr ρ) : Option IdSet :=
  if isRowId lhs then rhs.idValue?.map .ofList
  else if isRowId rhs then lhs.idValue?.map .ofList
  else none

mutual

/-- The row ids among which those of all rows are for which a condition holds, if it tells. -/
def rowIds? (isRowId : Expr ρ → Bool) : Expr ρ → Option IdSet
  | binary op lhs rhs =>
    if op = .eq ∨ op = .is then comparedIds? isRowId lhs rhs else none
  | member e list negated =>
    if !negated && isRowId e then (list.mapM idValue?).map (.ofList ·.flatten) else none
  | conj terms => conjRowIds? isRowId terms
  | disj [] => none
  | disj (term :: terms) => do
    let ids ← term.rowIds? isRowId
    let more ← disjRowIds? isRowId terms
    return ids.union more
  | _ => none

/-- The row ids that all terms allow, of those terms that tell. -/
def conjRowIds? (isRowId : Expr ρ → Bool) : List (Expr ρ) → Option IdSet
  | [] => none
  | term :: rest => mergeWith .inter (term.rowIds? isRowId) (conjRowIds? isRowId rest)

/-- The row ids that some term allows, if every term tells. -/
def disjRowIds? (isRowId : Expr ρ → Bool) : List (Expr ρ) → Option IdSet
  | [] => some .empty
  | term :: rest => do
    let ids ← term.rowIds? isRowId
    let more ← disjRowIds? isRowId rest
    return ids.union more

end

end Expr

/-! ## Tables of a request -/

mutual

/-- The tables that a request reads, each as often as it occurs. -/
def Query.tableNames : Query → List String
  | ⟨source, _, joins, _⟩ => source.tableNames ++ joinsTableNames joins

/-- The tables that a source reads. -/
def Source.tableNames : Source → List String
  | .table name _ => [name]
  | .nested query _ => query.tableNames

/-- The tables that joins read. -/
def joinsTableNames : List Join → List String
  | [] => []
  | j :: rest => joinTableNames j ++ joinsTableNames rest

/-- The tables that one join reads. -/
def joinTableNames : Join → List String
  | ⟨_, _, _, _, query⟩ => query.tableNames

end

/-- The declared name of a table, in small letters. -/
def Schema.regionName (db : Schema) (name : String) : Except CompileError String := do
  let declared ← db.declaredName name
  return Text.asciiLower declared

/-! ## The region -/

/-- The row ids that the filter of a qualified request allows in the table `name`, if it tells. -/
def Query.rowIds? (f : Forest) (db : Schema) (q : Query) (name : String) :
    Except CompileError (Option IdSet) := do
  let key ← db.primaryKey name
  match key.rowIdColumn?, q.clauses.filter? with
  | some column, some filter => do
    let filter ← filter.resolve db
    return filter.rowIds? (RowIdColumn.isMatch ⟨column, q.source.alias?⟩ f)
  | _, _ => return none

/-- The region with only the given rows of one table. -/
def Region.narrow (r : Region) (name : String) (ids : IdSet) : Region :=
  match r with
  | .tables m => .ofMap ((m.insert name (.only ids)).filter (!·.2.isEmpty))
  | r => r

/-- All rows of the given tables. -/
def Region.ofTables (names : List String) : Region :=
  names.foldl (fun r name => r.union (.table name)) .empty

/-- The region of a qualified request. A filter that can't be resolved tells nothing. -/
def Query.regionIn (f : Forest) (db : Schema) (q : Query) : Except CompileError Region := do
  let names ← q.tableNames.mapM db.regionName
  match q.source with
  | .nested _ _ => return .ofTables names
  | .table name _ => do
    let own ← db.regionName name
    if 1 < names.count own then return .ofTables names
    match q.rowIds? f db name with
    | .ok (some ids) => return (Region.ofTables names).narrow own ids
    | _ => return .ofTables names

/-- The rows that a request reads. -/
def Query.region (db : Schema) (q : Query) : AliasM Region := do
  let q ← q.qualify
  AliasM.read (q.regionIn · db)

end SqlTree
