import SqlTree.CompileError
import SqlTree.Text.Ascii

/-!
# Occurrences of tables

A table may occur in a statement several times, and each occurrence has an identity of its own, an
`Alias`. Two identities may turn out to be one: then one of them becomes a proxy of the other. A
`Forest` records, for every identity made so far, the table it is bound to and the name its user
gave it, or the identity it is a proxy of.

* `Forest.root` follows proxies to their end; all else is read off the root
  (`Forest.tableName?`, `Forest.userName?`), and two identities denote one occurrence when their
  roots agree (`Forest.isSame`).
* `Forest.fresh`, `Forest.bind`, `Forest.link` and `Forest.unify` change a forest. An operation that
  fails gives no forest, so it changes nothing.
* `Forest.compress` points the proxies on a chain straight at its root. It changes no answer.
-/

namespace SqlTree

/-- The identity of one occurrence of a table. -/
structure Alias where
  id : Nat
  deriving DecidableEq, Inhabited

/-- What is known of an identity. -/
inductive Cell where
  /-- An occurrence of a table not known yet. -/
  | free (userName? : Option String)
  /-- An occurrence of a table. -/
  | bound (tableName : String) (userName? : Option String)
  /-- The same occurrence as another identity. -/
  | proxy (target : Alias)
  deriving DecidableEq

namespace Cell

/-- The table of an occurrence, when it is known. -/
def tableName? : Cell → Option String
  | bound tableName _ => some tableName
  | _ => none

/-- The name that the user gave to an occurrence. -/
def userName? : Cell → Option String
  | free userName? => userName?
  | bound _ userName? => userName?
  | proxy _ => none

/-- The cell with the name given by the user. -/
def withUserName (name : String) : Cell → Cell
  | free _ => free (some name)
  | bound tableName _ => bound tableName (some name)
  | proxy target => proxy target

end Cell

/-- All identities made so far, each with what is known of it. -/
structure Forest where
  cells : List Cell
  deriving DecidableEq

namespace Forest

/-- The forest without identities. -/
def empty : Forest := ⟨[]⟩

/-! ## Reading -/

/-- What is known of an identity. One that was never made is free. -/
def cell (f : Forest) (a : Alias) : Cell := f.cells.getD a.id (.free none)

/-- The identity reached from `a` through at most the given number of proxies. -/
def rootWithin (f : Forest) : Nat → Alias → Alias
  | 0, a => a
  | n + 1, a =>
    match f.cell a with
    | .proxy target => f.rootWithin n target
    | _ => a

/-- The end of the chain of proxies that starts at `a`. A chain without a cycle is shorter than the
forest. -/
def root (f : Forest) (a : Alias) : Alias := f.rootWithin f.cells.length a

/-- Whether two identities denote one occurrence. -/
def isSame (f : Forest) (a b : Alias) : Bool := f.root a == f.root b

/-- The table that an occurrence is bound to. -/
def tableName? (f : Forest) (a : Alias) : Option String := (f.cell (f.root a)).tableName?

/-- The name that the user gave to an occurrence. -/
def userName? (f : Forest) (a : Alias) : Option String := (f.cell (f.root a)).userName?

/-- The name that an occurrence is known by: the user's, else the table's. -/
def identityName? (f : Forest) (a : Alias) : Option String := f.userName? a <|> f.tableName? a

/-! ## Changing -/

/-- The forest with another cell for `a`. -/
def set (f : Forest) (a : Alias) (c : Cell) : Forest := ⟨f.cells.set a.id c⟩

/-- A new identity, with the name that the user gives to it. -/
def fresh (f : Forest) (userName? : Option String) : Alias × Forest :=
  (⟨f.cells.length⟩, ⟨f.cells ++ [.free userName?]⟩)

/-- Binds the occurrence of `a` to a table. An occurrence bound to this table stays as it is; one
bound to another table can't be bound. -/
def bind (f : Forest) (a : Alias) (tableName : String) : Except CompileError Forest :=
  let r := f.root a
  match f.cell r with
  | .free userName? => .ok (f.set r (.bound tableName userName?))
  | .bound current _ =>
    if Text.sameName current tableName then .ok f else .error (.aliasClash current tableName)
  | .proxy _ => .ok f

/-- Points at most the given number of proxies on the chain from `a` at `r`. -/
def compressWithin (r : Alias) : Nat → Alias → Forest → Forest
  | 0, _, f => f
  | n + 1, a, f =>
    match f.cell a with
    | .proxy target => compressWithin r n target (f.set a (.proxy r))
    | _ => f

/-- Points every proxy on the chain from `a` straight at its root. -/
def compress (f : Forest) (a : Alias) : Forest := compressWithin (f.root a) f.cells.length a f

/-- Gives a name to a root, if there is one to give. -/
def nameRoot (f : Forest) (r : Alias) : Option String → Forest
  | some name => f.set r ((f.cell r).withUserName name)
  | none => f

/-- Binds a root to a table, if there is one to bind it to. -/
def bindRoot (f : Forest) (r : Alias) : Option String → Except CompileError Forest
  | some tableName => f.bind r tableName
  | none => .ok f

/-- Makes the root `r` a proxy of the root `s`, which takes over its table and name. Occurrences
with different names, or of different tables, can't be one. -/
def linkRoots (f : Forest) (r s : Alias) : Except CompileError Forest :=
  let join := do
    let g ← f.bindRoot s (f.cell r).tableName?
    return (g.nameRoot s (f.cell r).userName?).set r (.proxy s)
  match (f.cell r).userName?, (f.cell s).userName? with
  | some name, some baseName =>
    if name = baseName then join else .error (.aliasClash baseName name)
  | _, _ => join

/-- Makes the occurrence of `a` the occurrence of `base`. -/
def link (f : Forest) (a base : Alias) : Except CompileError Forest :=
  let f := (f.compress a).compress base
  if f.root a = f.root base then .ok f else f.linkRoots (f.root a) (f.root base)

/-- Whether two tables are known and differ. -/
def differ : Option String → Option String → Bool
  | some s, some t => !Text.sameName s t
  | _, _ => false

/-- Makes the occurrence of `b` the occurrence of `a`, if they can be one. -/
def unify (f : Forest) (a b : Alias) : Option Forest :=
  if f.isSame a b then some f
  else if differ (f.tableName? a) (f.tableName? b) then none
  else (f.link b a).toOption

end Forest

end SqlTree
