import SqlTree.Schema.Basic

/-!
# Links by foreign key

A `KeyLink` asks for the foreign key from one table to another, with its columns given or not.
Resolving it pairs the columns: the given ones when both sides are given, else those of the one
declared key that agrees with what is given. Columns given without a declared key refer to the
primary key of the other table.
-/

namespace SqlTree

/-- A foreign key to be found: its two tables, and the columns on either side when they are
given. -/
structure KeyLink where
  origin : String
  destination : String
  originColumns? : Option (List String) := none
  destinationColumns? : Option (List String) := none
  deriving DecidableEq

namespace KeyLink

/-- The failure to find a key. -/
def notFound (l : KeyLink) : CompileError := .noForeignKey l.origin l.destination

/-- Whether given columns, if any, are the columns of a key in some order. -/
def agrees (given? : Option (List String)) (columns : List String) : Bool :=
  match given? with
  | some given => Text.sameNames given columns
  | none => true

/-- Whether a declared key leads to the table of the given name and agrees with the link. -/
def isMatch (l : KeyLink) (destination : String) (k : ForeignKey) : Bool :=
  Text.sameName k.destination destination && agrees l.originColumns? k.originColumns &&
    agrees l.destinationColumns? k.destinationColumns

/-- The pairs of columns when the schema has to be asked. -/
def resolveDeclared (l : KeyLink) (db : Schema) : Except CompileError (List (String × String)) := do
  let destination ← db.declaredName l.destination
  let declared ← db.foreignKeys l.origin
  match declared.filter (l.isMatch destination) with
  | [k] => return k.pairs
  | [] =>
    match l.originColumns? with
    | none => throw l.notFound
    | some columns => do
      let key ← db.primaryKey destination
      if key.columns.length ≠ columns.length then throw l.notFound
      return columns.zip key.columns
  | ks => throw (.severalForeignKeys l.origin l.destination ks.length)

/-- The columns of the key, each paired with the column it refers to. -/
def resolve (l : KeyLink) (db : Schema) : Except CompileError (List (String × String)) :=
  match l.originColumns?, l.destinationColumns? with
  | some origin, some destination =>
    if origin.length ≠ destination.length ∨ origin.isEmpty then .error l.notFound
    else .ok (origin.zip destination)
  | _, _ => l.resolveDeclared db

end KeyLink

end SqlTree
