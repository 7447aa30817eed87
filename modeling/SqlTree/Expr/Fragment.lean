import SqlTree.Expr.Basic

/-!
# Expressions as text

How an expression is written. Operators bind by precedence: `OR` loosest, then `AND`, `NOT`, the
class of `=` that `IN` and `LIKE` belong to, the comparisons, and the arithmetic operators up to
`||`. An operand that binds looser than its place allows stands between parentheses, and all
operators with two operands associate to the left. Text taken as it is binds looser than
everything, so it is parenthesised as an operand wherever it stands.

* `Expr.precedence` is how tightly the outermost operator binds.
* `Expr.fragment` writes an expression.
-/

namespace SqlTree

/-- How tightly an operator binds. -/
def BinaryOp.precedence : BinaryOp → Nat
  | eq | ne | is | isNot | like => 4
  | lt | le | gt | ge => 5
  | add | subtract => 6
  | multiply | divide => 7
  | concat => 8

namespace Expr

variable {ρ : Type}

/-- How tightly the outermost operator of an expression binds. -/
def precedence : Expr ρ → Nat
  | verbatim _ _ => 0
  | disj _ => 1
  | conj _ => 2
  | neg _ => 3
  | member _ _ _ => 4
  | binary op _ _ => op.precedence
  | column _ _ | value _ | call _ _ | countAll | countDistinct _ => 10

/-- A fragment in a place for operators that bind at least as tightly as `min`. -/
def bracketed (min precedence : Nat) (f : Fragment) : Fragment :=
  if precedence < min then f.parens else f

/-- A column, with the name of its occurrence in front of it if it has one. -/
def columnFragment (name : String) : Option String → Fragment
  | some owner => [.ident owner, .token .dot, .ident name]
  | none => [.ident name]

mutual

/-- The written form of an expression. -/
def fragment : Expr String → Fragment
  | column name owner? => columnFragment name owner?
  | value v => .value v
  | verbatim text arguments => .verbatim text arguments
  | binary op lhs rhs =>
    bracketed op.precedence lhs.precedence lhs.fragment ++
      .token op.token :: bracketed (op.precedence + 1) rhs.precedence rhs.fragment
  | conj [] => .verbatim "1" []
  | conj (term :: terms) =>
    .separated .and (bracketed 2 term.precedence term.fragment :: operands 2 terms)
  | disj [] => .verbatim "0" []
  | disj (term :: terms) =>
    .separated .or (bracketed 1 term.precedence term.fragment :: operands 1 terms)
  | neg e => .token .not :: bracketed 4 e.precedence e.fragment
  | member _ [] negated => .verbatim (if negated then "1" else "0") []
  | member e (item :: items) negated =>
    bracketed 5 e.precedence e.fragment ++ (if negated then [.token .not] else []) ++
      .token .in_ :: Fragment.parens (.separated .comma (item.fragment :: operands 0 items))
  | call name arguments => .call name (.separated .comma (operands 0 arguments))
  | countAll => .call "COUNT" [.token .star]
  | countDistinct e => .call "COUNT" (.token .distinct :: e.fragment)

/-- The written forms of expressions in places for operators that bind at least as tightly as
`min`. -/
def operands (min : Nat) : List (Expr String) → List Fragment
  | [] => []
  | e :: rest => bracketed min e.precedence e.fragment :: operands min rest

end

end Expr

end SqlTree
