import SqlTree.CompileError
import SqlTree.Text.Ascii

/-!
# Schemas

What compiling a request asks about the tables it names. A `Schema` is a record of answers, each of
which may fail; where the answers come from is not said here. A `Lookup` is a value that depends on
the answers, such as a filter on a primary key whose columns are not known before.

* `Lookup.const`, `Lookup.map` and `Lookup.zipWith` build lookups; `Lookup.resolve` runs one.
-/

namespace SqlTree

/-- The primary key of a table. -/
structure PrimaryKey where
  columns : List String
  /-- Whether the key is the row id. -/
  isRowId : Bool
  deriving DecidableEq

namespace PrimaryKey

/-- The row id, the key of a table without a declared one. -/
def hidden : PrimaryKey := ⟨["rowid"], true⟩

/-- A declared integer column that is the row id. -/
def rowId (column : String) : PrimaryKey := ⟨[column], true⟩

/-- Declared columns that are not the row id. -/
def regular (columns : List String) : PrimaryKey := ⟨columns, false⟩

/-- The column that holds the row id, when the key is the row id. -/
def rowIdColumn? : PrimaryKey → Option String
  | ⟨[column], true⟩ => some column
  | _ => none

end PrimaryKey

/-- A foreign key: the table it leads to, and its columns paired with those they refer to. -/
structure ForeignKey where
  destination : String
  pairs : List (String × String)
  deriving DecidableEq

namespace ForeignKey

/-- The columns of the table that has the key. -/
def originColumns (k : ForeignKey) : List String := k.pairs.map (·.1)

/-- The columns of the table that the key leads to. -/
def destinationColumns (k : ForeignKey) : List String := k.pairs.map (·.2)

end ForeignKey

/-- What is known of the tables. -/
structure Schema where
  /-- The name of a table as it was declared. -/
  declaredName : String → Except CompileError String
  /-- The primary key of a table. -/
  primaryKey : String → Except CompileError PrimaryKey
  /-- The primary or unique key of a table that has exactly the given columns, if there is one. -/
  uniqueKey? : String → List String → Except CompileError (Option (List String))
  /-- The number of columns of a table. -/
  columnCount : String → Except CompileError Nat
  /-- The foreign keys declared on a table. -/
  foreignKeys : String → Except CompileError (List ForeignKey)
  /-- Whether a deletion takes an order and a limit. -/
  allowsDeleteLimit : Bool

/-- A value that depends on the schema. -/
structure Lookup (α : Type) where
  resolve : Schema → Except CompileError α

namespace Lookup

variable {α β γ : Type}

/-- A value that does not depend on the schema. -/
def const (a : α) : Lookup α := ⟨fun _ => .ok a⟩

/-- A failure, whatever the schema. -/
def fail (e : CompileError) : Lookup α := ⟨fun _ => .error e⟩

/-- A lookup with its value changed. -/
def map (f : α → β) (x : Lookup α) : Lookup β := ⟨fun db => (x.resolve db).map f⟩

/-- Two lookups combined. The failure of the first one goes before that of the second. -/
def zipWith (f : α → β → γ) (x : Lookup α) (y : Lookup β) : Lookup γ :=
  ⟨fun db => do
    let a ← x.resolve db
    let b ← y.resolve db
    return f a b⟩

@[simp]
theorem resolve_const (a : α) (db : Schema) : (const a).resolve db = .ok a := rfl

@[simp]
theorem resolve_map (f : α → β) (x : Lookup α) (db : Schema) :
    (x.map f).resolve db = (x.resolve db).map f := rfl

theorem resolve_zipWith (f : α → β → γ) (x : Lookup α) (y : Lookup β) (db : Schema) :
    (zipWith f x y).resolve db =
      (x.resolve db).bind fun a => (y.resolve db).bind fun b => .ok (f a b) := rfl

theorem map_map (x : Lookup α) (f : α → β) (g : β → γ) : (x.map f).map g = x.map (g ∘ f) := by
  rw [map, map, map]
  refine congrArg mk (funext fun db => ?_)
  change Except.map g (Except.map f (x.resolve db)) = Except.map (g ∘ f) (x.resolve db)
  cases x.resolve db <;> rfl

theorem map_zipWith {g : γ → γ} {g' : α → α} {g'' : β → β} {f : α → β → γ}
    (h : ∀ a b, g (f a b) = f (g' a) (g'' b)) (x : Lookup α) (y : Lookup β) :
    (zipWith f x y).map g = zipWith f (x.map g') (y.map g'') := by
  refine congrArg mk (funext fun db => ?_)
  simp only [resolve_zipWith, resolve_map]
  cases x.resolve db with
  | error e => rfl
  | ok a =>
    cases y.resolve db with
    | error e => rfl
    | ok b => exact congrArg Except.ok (h a b)

end Lookup

end SqlTree
