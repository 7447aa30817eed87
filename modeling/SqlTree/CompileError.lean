import SqlTree.Sql.Token

/-!
# Causes of failure

Why a request has no statement, with the text that reports it.
-/

namespace SqlTree

/-- What a deletion can't have. -/
inductive DeleteObstacle where
  | grouped
  | having
  | joined
  | notATable
  deriving DecidableEq, Repr

/-- What a deletion is told about an obstacle. -/
def DeleteObstacle.reason : DeleteObstacle → String
  | grouped => "GROUP BY is not supported"
  | having => "HAVING is not supported"
  | joined => "joins are not supported"
  | notATable => "only tables can be deleted from"

/-- Why a request can't be compiled. -/
inductive CompileError where
  /-- Two joins under one key can't be one join. -/
  | clashingJoins (key : String)
  /-- A required join stands beneath an optional one. -/
  | requiredBeneathOptional (key : String)
  /-- The request can't be a deletion. -/
  | notDeletable (obstacle : DeleteObstacle)
  /-- A joined request has a clause that a join has no place for. -/
  | notJoinable (key : String) (clause : Token)
  /-- Nothing is selected. -/
  | nothingSelected
  /-- No foreign key links the two tables. -/
  | noForeignKey (origin destination : String)
  /-- Several foreign keys link the two tables. -/
  | severalForeignKeys (origin destination : String) (candidates : Nat)
  /-- The columns are not a unique key of the table. -/
  | notAUniqueKey (table : String) (columns : List String)
  /-- The engine takes no limit in a deletion. -/
  | noDeleteLimit
  /-- An occurrence can't be both of two tables, or have both of two names. -/
  | aliasClash (bound requested : String)
  /-- Two occurrences have one name. -/
  | repeatedName (name : String)
  /-- An occurrence is not part of the statement. -/
  | unknownOccurrence (name : String)
  /-- The schema has no such table. -/
  | noSuchTable (table : String)
  /-- The primary key has another number of columns. -/
  | primaryKeyWidth (table : String) (expected found : Nat)
  /-- The schema reports a failure of its own. -/
  | schemaFailure (report : String)
  deriving DecidableEq

namespace CompileError

/-- A name between double quotes, as it is. -/
def quoted (name : String) : String := "\x22" ++ name ++ "\x22"

/-- The text that reports a failure. -/
def message : CompileError → String
  | clashingJoins key =>
    "Association key " ++ quoted key ++
      " is ambiguous: the same key refers to incompatible joins. " ++
      "Disambiguate the associations with distinct keys."
  | requiredBeneathOptional key =>
    "Not implemented: chaining the required association " ++ quoted key ++
      " behind an optional association"
  | notDeletable obstacle => "Invalid delete request: " ++ obstacle.reason
  | notJoinable key clause =>
    "Association " ++ quoted key ++ " can't be joined: " ++ clause.text ++
      " is not supported in joined queries"
  | nothingSelected => "Can't generate SQL with an empty selection"
  | noForeignKey origin destination =>
    "Could not infer foreign key from " ++ origin ++ " to " ++ destination
  | severalForeignKeys origin destination candidates =>
    "Ambiguous foreign key from " ++ origin ++ " to " ++ destination ++ ": " ++
      toString candidates ++ " candidates"
  | notAUniqueKey table columns =>
    "Table " ++ table ++ " has no unique index on column(s) " ++ String.intercalate ", " columns
  | noDeleteLimit =>
    "DELETE with ORDER BY/LIMIT requires SQLite compiled with SQLITE_ENABLE_UPDATE_DELETE_LIMIT"
  | aliasClash bound requested =>
    "Table alias bound to " ++ quoted bound ++ " can't refer to " ++ quoted requested
  | repeatedName name => "Ambiguous alias: " ++ quoted name ++ " names several tables"
  | unknownOccurrence name => "Undefined alias: " ++ name
  | noSuchTable table => "No such table: " ++ table
  | primaryKeyWidth table expected found =>
    "Primary key of table " ++ table ++ " has " ++ toString expected ++ " column(s), got " ++
      toString found ++ " value(s)"
  | schemaFailure report => "Schema error: " ++ report

end CompileError

end SqlTree
