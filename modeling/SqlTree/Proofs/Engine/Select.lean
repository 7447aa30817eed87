import SqlTree.Proofs.Engine.Eval
import SqlTree.Proofs.Statement.Level

/-!
# Results of selections

What an engine returns for a selection, given what is stored in the tables. The sources of a level
are joined one behind the other, each row found so far with the rows of the next source that the
condition holds for; `WHERE` keeps the rows for which it is true. With a group, a condition on
groups or an aggregate among the items, the rows are put into groups, and every group gives one row;
else every row found does. Of these `DISTINCT` keeps one of each class, they are ordered, and the
limit takes some of them.

A column without an owner is looked for in the sources from left to right, one with an owner in the
first source of that name. Where there is no such column, which an engine refuses, it stands for
`NULL`. An aggregate in a condition on rows, or in an order where rows are not put into groups, is
refused as well, and has no members to look at.

* `Select.resultFrom` is what a selection returns, given the contents of its sources, and
  `Select.result` what it returns, given those of the tables.
* `Select.length_resultFrom` counts the rows returned; orders make no difference to it.
-/

namespace SqlTree

/-- Rows under the names of their columns. A column may be without a name to be relied on. -/
structure Relation where
  columns : List (Option String)
  rows : List Row

/-- The row that stands for the one that an optional join does not find. -/
def Relation.missing (r : Relation) : Row := ⟨r.columns.map fun _ => .null, none⟩

/-! ## Columns of a level -/

/-- A source at a level: what it is called, and what its columns are. -/
structure Header where
  name? : Option String
  columns : List (Option String)

namespace Header

/-- Whether a source goes by a name. -/
def isNamed (h : Header) (owner : String) : Bool := h.name?.any (Text.sameName · owner)

/-- What a column of a row of the source is, if there is one. A declared column goes before the row
id. -/
def value? (h : Header) (row : Row) (name : String) : Option Value :=
  match (h.columns.zip row.values).find? (·.1.any (Text.sameName · name)) with
  | some column => some column.2
  | none => if isRowIdName name then row.rowId?.map .integer else none

/-- What a column stands for, given one row of each source. -/
def column (hs : List Header) (rows : List Row) (name : String) : Option String → Value
  | none => ((hs.zip rows).findSome? fun p => p.1.value? p.2 name).getD .null
  | some owner =>
    (((hs.zip rows).find? (·.1.isNamed owner)).bind fun p => p.1.value? p.2 name).getD .null

end Header

/-- What the columns and texts at a level stand for, given one row of each source. -/
def Engine.rowEnv (E : Engine) (hs : List Header) (rows : List Row) : Env String :=
  ⟨Header.column hs rows, fun text arguments => E.text text arguments rows⟩

/-- What one row of a result is computed from: the rows that columns are taken from, and the members
of the group if it is one of a group. -/
structure Sample where
  rows : List Row
  members? : Option (List (List Row))

namespace Sample

variable (E : Engine) (hs : List Header) (s : Sample)

/-- What the columns and texts at a level stand for in one row of the result. -/
def env : Env String :=
  ⟨Header.column hs s.rows, fun text arguments =>
    match s.members? with
    | some members =>
      if E.isAggregateText text then E.aggregateText text arguments members
      else E.text text arguments s.rows
    | none => E.text text arguments s.rows⟩

/-- The members of the group. -/
def members : List (Env String) := (s.members?.getD []).map (E.rowEnv hs)

/-- The value of an expression in one row of the result. -/
def value (e : Expr String) : Value := e.eval E (s.members E hs) (s.env E hs)

end Sample

/-- The values of an item in one row of the result. -/
def SelectItem.values (E : Engine) (hs : List Header) (s : Sample) : SelectItem String → List Value
  | star none => (hs.zip s.rows).flatMap (·.2.values)
  | star (some owner) => ((hs.zip s.rows).filter (·.1.isNamed owner)).flatMap (·.2.values)
  | expr e _ => [s.value E hs e]

/-- The columns that an item adds to the result. What is neither named nor a column has no name. -/
def SelectItem.columns (hs : List Header) : SelectItem String → List (Option String)
  | star none => hs.flatMap (·.columns)
  | star (some owner) => (hs.filter (·.isNamed owner)).flatMap (·.columns)
  | expr _ (some name) => [some name]
  | expr (.column name _) none => [some name]
  | expr _ none => [none]

/-- Whether an item has an aggregate in it. -/
def SelectItem.hasAggregate {ρ : Type} (E : Engine) : SelectItem ρ → Bool
  | star _ => false
  | expr e _ => e.hasAggregate E

/-! ## Rows of a level -/

/-- Whether a condition, if there is one, is true for one row of each source. -/
def Engine.keeps (E : Engine) (hs : List Header) (e? : Option (Expr String)) (rows : List Row) :
    Bool :=
  e?.all fun e => E.truth (e.eval E [] (E.rowEnv hs rows)) == some true

/-- The rows found so far with those of a joined source. -/
def JoinItem.extend (E : Engine) (hs : List Header) (j : JoinItem) (r : Relation)
    (rows : List Row) : List (List Row) :=
  let found := (r.rows.map fun row => rows ++ [row]).filter (E.keeps hs (some j.on))
  if found.isEmpty && j.kind == .optional then [rows ++ [r.missing]] else found

/-- The rows found with those of all joined sources. -/
def Engine.joined (E : Engine) (hs : List Header) :
    List (JoinItem × Relation) → List (List Row) → List (List Row)
  | [], found => found
  | (j, r) :: rest, found => E.joined hs rest (found.flatMap (j.extend E hs r))

/-- The group of some rows. Columns are taken from the row that the engine picks, and are `NULL`
when there is none. -/
def Engine.group (E : Engine) (rs : List Relation) (members : List (List Row)) : Sample :=
  ⟨members.getD (E.pick members) (rs.map (·.missing)), some members⟩

/-- Which rows a limit takes. -/
def Limit.take? {α : Type} : Option Limit → List α → List α
  | none, as => as
  | some limit, as => (as.drop (limit.offset?.getD 0)).take limit.count

namespace Select

variable (E : Engine) (t : Select) (rs : List Relation)

/-- The sources of a level. -/
def headers : List Header :=
  (t.fromItems.zip rs).map fun p => ⟨p.1.name?, p.2.columns⟩

/-- The rows of the sources, joined, for which `WHERE` is true. -/
def found : List (List Row) :=
  match rs with
  | [] => []
  | r :: rest =>
    (E.joined (t.headers rs) (t.joins.zip rest) (r.rows.map ([·]))).filter
      (E.keeps (t.headers rs) t.filter?)

/-- Whether rows are put into groups. -/
def isAggregate : Bool :=
  !t.group.isEmpty || t.having?.isSome || t.items.any (·.hasAggregate E)

/-- The values of the group that rows of the sources are put into. -/
def groupKey (rows : List Row) : List Value :=
  t.group.map fun e => E.key (e.eval E [] (E.rowEnv (t.headers rs) rows))

/-- The groups. Without a `GROUP BY` there is one, also of no rows. -/
def groups : List (List (List Row)) :=
  if t.group.isEmpty then [t.found E rs]
  else (firsts (t.groupKey E rs) (t.found E rs)).map fun first =>
    (t.found E rs).filter fun rows => t.groupKey E rs rows == t.groupKey E rs first

/-- Whether the condition on groups, if there is one, is true. -/
def keepsGroup (s : Sample) : Bool :=
  t.having?.all fun e => E.truth (s.value E (t.headers rs) e) == some true

/-- What the rows of the result are computed from. -/
def samples : List Sample :=
  if t.isAggregate E then ((t.groups E rs).map (E.group rs)).filter (t.keepsGroup E rs)
  else (t.found E rs).map fun rows => ⟨rows, none⟩

/-- The values of one row of the result. -/
def rowValues (s : Sample) : List Value := t.items.flatMap (·.values E (t.headers rs) s)

/-- The values that one row of the result is sorted by. -/
def sortKeys (s : Sample) : List (Direction × Value) :=
  t.order.map fun term => (term.direction, s.value E (t.headers rs) term.expr)

/-- What the rows of the result are computed from, when `DISTINCT` was followed. -/
def kept : List Sample :=
  if t.distinct then firsts (fun s => (t.rowValues E rs s).map E.key) (t.samples E rs)
  else t.samples E rs

/-- What a selection returns, given the contents of its sources. -/
def resultFrom : Relation where
  columns := t.items.flatMap (·.columns (t.headers rs))
  rows :=
    let ordered := (t.kept E rs).mergeSort fun s s' =>
      E.precedes (t.sortKeys E rs s) (t.sortKeys E rs s')
    (Limit.take? t.limit? ordered).map fun s => ⟨t.rowValues E rs s, none⟩

end Select

mutual

/-- What a selection returns, given the contents of the tables. -/
def Select.result (E : Engine) (db : String → Relation) : Select → Relation
  | ⟨distinct, items, source, joins, filter?, group, having?, order, limit?⟩ =>
    Select.resultFrom E ⟨distinct, items, source, joins, filter?, group, having?, order, limit?⟩
      (source.relation E db :: joinsRelations E db joins)

/-- The contents of a source. -/
def FromItem.relation (E : Engine) (db : String → Relation) : FromItem → Relation
  | .table name _ => db name
  | .select s _ => s.result E db

/-- The contents of joined sources. -/
def joinsRelations (E : Engine) (db : String → Relation) : List JoinItem → List Relation
  | [] => []
  | j :: rest => j.relation E db :: joinsRelations E db rest

/-- The contents of a joined source. -/
def JoinItem.relation (E : Engine) (db : String → Relation) : JoinItem → Relation
  | ⟨_, item, _⟩ => item.relation E db

end

/-! ## Numbers of rows -/

/-- How many of a number of rows a limit takes. -/
def Limit.size? (limit? : Option Limit) (n : Nat) : Nat :=
  match limit? with
  | none => n
  | some limit => min limit.count (n - limit.offset?.getD 0)

theorem Limit.length_take? {α : Type} (limit? : Option Limit) (as : List α) :
    (take? limit? as).length = size? limit? as.length := by
  cases limit? with
  | none => rfl
  | some limit => rw [take?, size?, List.length_take, List.length_drop]

namespace Select

variable (E : Engine) (t : Select) (rs : List Relation)

/-- **The number of rows returned.** The order makes no difference to it. -/
theorem length_resultFrom : (t.resultFrom E rs).rows.length =
    Limit.size? t.limit? (t.kept E rs).length := by
  rw [resultFrom, List.length_map, Limit.length_take?, List.length_mergeSort]

/-- Without `DISTINCT` there is a row for every sample, with it one for every class of them. -/
theorem length_kept : (t.kept E rs).length =
    if t.distinct then
      ((t.samples E rs).map fun s => (t.rowValues E rs s).map E.key).toFinset.card
    else (t.samples E rs).length := by
  rw [kept]
  split
  · exact length_firsts _ _
  · rfl

/-- Without a `GROUP BY` the rows found are one group. -/
theorem samples_of_oneGroup (haggregate : t.isAggregate E = true) (hgroup : t.group = []) :
    t.samples E rs = [E.group rs (t.found E rs)].filter (t.keepsGroup E rs) := by
  rw [samples, if_pos haggregate, groups, hgroup, List.isEmpty_nil, if_pos rfl, List.map_singleton]

theorem samples_of_rows (haggregate : t.isAggregate E = false) :
    t.samples E rs = (t.found E rs).map fun rows => ⟨rows, none⟩ := by
  rw [samples, haggregate, if_neg (by decide)]

end Select

end SqlTree
