import SqlTree.Query.Derive

/-!
# Rows by key

Conditions and groups on the primary key or a unique key of the source, whose columns the schema
knows. `NULL` equals nothing, so a key with a `NULL` in it finds no row.
-/

namespace SqlTree

/-- The failure of a key on a source that is not a table. -/
def CompileError.noKeyTable : CompileError := .schemaFailure "key lookups need a table source"

/-- The table whose key is asked for. -/
def Source.keyTable (s : Source) : Except CompileError String :=
  match s.tableName? with
  | some name => .ok name
  | none => .error .noKeyTable

/-- The condition that a column has one of the given values. -/
def Expr.isOneOf (column : String) : List Value → Expr Alias
  | [] => .never
  | [v] => .binary .eq (.col column) (.value v)
  | vs => .member (.col column) (vs.map .value) false

/-- The condition that the only column of the primary key has one of the given values. -/
def Source.primaryKeyFilter (s : Source) (values : List Value) : Lookup (Expr Alias) :=
  ⟨fun db => do
    let table ← s.keyTable
    let key ← db.primaryKey table
    match key.columns with
    | [column] => return .isOneOf column values
    | columns => throw (.primaryKeyWidth table columns.length 1)⟩

/-- The condition that every column has the value paired with it; without pairs it never holds. -/
def Expr.allEqual : List (String × Value) → Expr Alias
  | [] => .never
  | (name, v) :: rest =>
    rest.foldl (fun e pair => e.and (.binary .eq (.col pair.1) (.value pair.2)))
      (.binary .eq (.col name) (.value v))

/-- The condition that the columns of a unique key have the values paired with them. -/
def Source.uniqueKeyFilter (s : Source) (key : List (String × Value)) : Lookup (Expr Alias) :=
  ⟨fun db => do
    let table ← s.keyTable
    match ← db.uniqueKey? table (key.map (·.1)) with
    | none => throw (.notAUniqueKey table (key.map (·.1)))
    | some _ => return if key.any (·.2.isNull) then .never else .allEqual key⟩

namespace Query

variable (q : Query)

/-- The rows whose primary key is one of the given values. -/
def filterByPrimaryKey (values : List Value) : Query :=
  q.filterBy (q.source.primaryKeyFilter (values.filter (!·.isNull)))

/-- The row whose unique key has the given values. -/
def filterByUniqueKey (key : List (String × Value)) : Query :=
  q.filterBy (q.source.uniqueKeyFilter key)

/-- The request grouped by the primary key. -/
def groupByPrimaryKey : Query :=
  q.groupBy ⟨fun db => do
    let table ← q.source.keyTable
    let key ← db.primaryKey table
    return key.columns.map .col⟩

end Query

end SqlTree
