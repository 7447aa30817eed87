import SqlTree.Query.Count
import SqlTree.Query.Qualify
import SqlTree.Row.Layout
import SqlTree.Statement.OfQuery

/-!
# Compiling requests

From a request to a finished statement: the request is qualified, its occurrences are named, and the
statement is written.

* `Query.selectStatement`, `Query.deleteStatement` and `Query.countStatement` compile a request.
* `Query.prepare` compiles a selection together with the layout of its rows.
-/

namespace SqlTree

/-- The selection of a qualified request, under the names it gets in a statement of its own. -/
def Query.selectIn (f : Forest) (db : Schema) (q : Query) : Except CompileError Select := do
  let c ← Context.ofQuery f db q
  q.toSelect c

/-- The deletion of a qualified request, under the name its table gets in a statement of its own. -/
def Query.deleteIn (f : Forest) (db : Schema) (q : Query) : Except CompileError Delete := do
  let c ← Context.ofQuery f db q
  q.toDelete c

namespace Query

variable (db : Schema) (q : Query)

/-- The statement that selects what a request asks for. -/
def selectStatement : AliasM Statement := do
  let q ← q.qualify
  let s ← AliasM.read (q.selectIn · db)
  return s.fragment.statement

/-- The statement that deletes the rows of a request. -/
def deleteStatement : AliasM Statement := do
  let q ← q.qualify
  let d ← AliasM.read (q.deleteIn · db)
  return d.fragment.statement

/-- The statement that counts the rows of a request. -/
def countStatement : AliasM Statement := q.count.selectStatement db

/-- The statement that selects what a request asks for, and the layout of its rows. -/
def prepare : AliasM (Statement × Option RowLayout) := do
  let q ← q.qualify
  let statement ← q.selectStatement db
  let layout? ← AliasM.read (q.rowLayout? · db)
  return (statement, layout?)

end Query

end SqlTree
