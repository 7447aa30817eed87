import SqlTree.Alias.Forest

/-!
# Work on occurrences

Compiling a request makes new identities and links them. `AliasM` is work that changes the forest
and may fail; changes made before a failure remain. `UnifyM` is the work of merging, which may come
to nothing, and whose changes remain too.
-/

namespace SqlTree

/-- Work on a forest that may fail. -/
abbrev AliasM := ExceptT CompileError (StateM Forest)

/-- Work on a forest that may come to nothing. -/
abbrev UnifyM := OptionT (StateM Forest)

namespace AliasM

/-- A change of the forest that may fail, and then changes nothing. -/
def change (step : Forest → Except CompileError Forest) : AliasM Unit :=
  ExceptT.mk fun f =>
    match step f with
    | .ok g => (.ok (), g)
    | .error e => (.error e, f)

/-- A new identity. -/
def fresh (userName? : Option String) : AliasM Alias :=
  ExceptT.mk fun f => (.ok (f.fresh userName?).1, (f.fresh userName?).2)

/-- Binds an occurrence to a table. -/
def bind (a : Alias) (tableName : String) : AliasM Unit := change (·.bind a tableName)

/-- Makes the occurrence of `a` the occurrence of `base`. -/
def link (a base : Alias) : AliasM Unit := change (·.link a base)

/-- What is read off the forest, without changing it. -/
def read {α : Type} (view : Forest → Except CompileError α) : AliasM α :=
  ExceptT.mk fun f => (view f, f)

end AliasM

namespace UnifyM

/-- Makes the occurrence of `b` the occurrence of `a`. -/
def unify (a b : Alias) : UnifyM Unit :=
  OptionT.mk fun f =>
    match f.unify a b with
    | some g => (some (), g)
    | none => (none, f)

/-- Merging as a step that fails with `e` when it comes to nothing. -/
def orError {α : Type} (x : UnifyM α) (e : CompileError) : AliasM α :=
  ExceptT.mk fun f =>
    match x.run f with
    | (some a, g) => (.ok a, g)
    | (none, g) => (.error e, g)

end UnifyM

end SqlTree
