import SqlTree.Query.Basic

/-!
# Statements

A statement as a tree, with every name decided. At one level stand the items selected, the source
and the joins behind it, in the order in which they are written, and the clauses on them. Columns
and stars carry the name that is written in front of them, if one is.

* `Select` and `Delete` are the two kinds of statement.
* `Select.fragment` and `Delete.fragment` write them; `Statement` is the finished text with its
  values.
-/

namespace SqlTree

mutual

/-- A selection from a source and the joins behind it. -/
structure Select where
  distinct : Bool
  items : List (SelectItem String)
  source : FromItem
  joins : List JoinItem
  filter? : Option (Expr String)
  group : List (Expr String)
  having? : Option (Expr String)
  order : List (SortTerm String)
  limit? : Option Limit

/-- A table or a selection, with a name of its own if it has one. -/
inductive FromItem where
  | table (name : String) (name? : Option String)
  | select (s : Select) (name? : Option String)

/-- A joined table or selection, and the condition that it is joined on. -/
structure JoinItem where
  kind : JoinKind
  item : FromItem
  on : Expr String

end

/-- A deletion of rows of a table. -/
structure Delete where
  table : String
  name? : Option String
  filter? : Option (Expr String)
  order : List (SortTerm String)
  limit? : Option Limit

/-- The text of a statement, and the values bound to its placeholders in their order. -/
structure Statement where
  text : String
  params : List Value
  deriving DecidableEq

/-- The statement that a fragment writes. -/
def Fragment.statement (f : Fragment) : Statement := ⟨f.text, f.params⟩

/-! ## Clauses -/

/-- A fragment with a name given to it, if there is one. -/
def Fragment.namedIf (f : Fragment) : Option String → Fragment
  | some name => f.named name
  | none => f

/-- A clause of one condition, if there is one. -/
def conditionClause (t : Token) : Option (Expr String) → Fragment
  | some e => .token t :: e.fragment
  | none => []

/-- A clause of a list, unless the list is empty. -/
def listClause (t : Token) : List Fragment → Fragment
  | [] => []
  | fs => .token t :: Fragment.separated .comma fs

/-- The clause of a limit, if there is one. -/
def limitClause : Option Limit → Fragment
  | none => []
  | some ⟨count, none⟩ => [.token .limit, .number count]
  | some ⟨count, some offset⟩ => [.token .limit, .number count, .token .offset, .number offset]

/-- A star, with the name of its occurrence in front of it if it has one. -/
def starFragment : Option String → Fragment
  | some owner => [.ident owner, .token .dot, .token .star]
  | none => [.token .star]

/-- The written form of a selected item. -/
def SelectItem.fragment : SelectItem String → Fragment
  | star owner? => starFragment owner?
  | expr e name? => e.fragment.namedIf name?

/-- The words that introduce a join. -/
def JoinKind.token : JoinKind → Token
  | optional => .leftJoin
  | required => .join

/-! ## Statements -/

mutual

/-- The written form of a selection. -/
def Select.fragment : Select → Fragment
  | ⟨distinct, items, source, joins, filter?, group, having?, order, limit?⟩ =>
    (if distinct then [.token .select, .token .distinct] else [.token .select]) ++
      Fragment.separated .comma (items.map (·.fragment)) ++ .token .from_ :: source.fragment ++
      joinsFragment joins ++ conditionClause .where_ filter? ++
      listClause .groupBy (group.map (·.fragment)) ++ conditionClause .having having? ++
      listClause .orderBy (order.map (·.fragment)) ++ limitClause limit?

/-- The written form of a source. -/
def FromItem.fragment : FromItem → Fragment
  | .table name name? => Fragment.namedIf (.ident name) name?
  | .select s name? => s.fragment.parens.namedIf name?

/-- The written form of a join. -/
def JoinItem.fragment : JoinItem → Fragment
  | ⟨kind, item, on⟩ => .token kind.token :: item.fragment ++ .token .on :: on.fragment

/-- The written form of joins, one behind the other. -/
def joinsFragment : List JoinItem → Fragment
  | [] => []
  | j :: rest => j.fragment ++ joinsFragment rest

end

/-- The written form of a deletion. -/
def Delete.fragment (d : Delete) : Fragment :=
  .token .deleteFrom :: Fragment.namedIf (.ident d.table) d.name? ++
    conditionClause .where_ d.filter? ++ listClause .orderBy (d.order.map (·.fragment)) ++
    limitClause d.limit?

end SqlTree
