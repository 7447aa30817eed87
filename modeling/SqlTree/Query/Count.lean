import SqlTree.Query.Derive

/-!
# Counting rows

The request for the number of rows of another one. Where the rows are those of a table, or the
different values of one expression, the selection is replaced by a count; all other requests are
counted from outside.
-/

namespace SqlTree

/-- The expression that counts the rows of a selection of one item from a table, all of them or
different ones, if there is one. -/
def SelectItem.count? (distinct : Bool) : SelectItem Alias → Option (Expr Alias)
  | star _ => if distinct then none else some .countAll
  | expr e _ => some (if distinct then .countDistinct e else .countAll)

namespace Query

variable (q : Query)

/-- The request with a count selected in place of its selection. -/
def counting (count : Expr Alias) : Query :=
  { q with clauses := { q.clauses with selection := [.expr count none], distinct := false } }

/-- The request that counts the rows of `q` from outside. -/
def countedOutside : Query := (nested q).select [.expr .countAll none]

/-- The expression that counts the rows of `q` in place, if there is one. -/
def countInPlace? : Option (Expr Alias) :=
  if q.clauses.group?.isSome || q.clauses.limit?.isSome || !q.joins.isEmpty ||
      q.source.tableName?.isNone then none
  else
    match q.clauses.selection with
    | [item] => item.count? q.clauses.distinct
    | _ => if q.clauses.distinct then none else some .countAll

/-- The request for the number of rows of `q`, which its order does not change. -/
def count : Query :=
  match q.unordered.countInPlace? with
  | some e => q.unordered.counting e
  | none => q.unordered.countedOutside

end Query

end SqlTree
