import SqlTree.Sql.Fragment

/-!
# Expressions

Scalar expressions. A column may carry the occurrence of the table that it belongs to; `Expr ρ` is
an expression whose occurrences are given by an `ρ`. In a request they are identities (`Alias`), in
a statement they are the names written in front of columns (`String`).

* `Expr.and` and `Expr.or` combine conditions without nesting conjunctions in conjunctions or
  disjunctions in disjunctions.
* `Expr.qualified` gives an occurrence to every column that has none.
* `Expr.withOwners` replaces the occurrences, and fails where one has no replacement.
* `Expr.equal` compares expressions, numbers as numbers and occurrences by a given test.
-/

namespace SqlTree

/-- An operator between two operands. -/
inductive BinaryOp where
  | eq | ne | lt | le | gt | ge | is | isNot | like
  | add | subtract | multiply | divide | concat
  deriving DecidableEq, Repr

/-- The token of an operator. -/
def BinaryOp.token : BinaryOp → Token
  | eq => .eq
  | ne => .ne
  | lt => .lt
  | le => .le
  | gt => .gt
  | ge => .ge
  | is => .is
  | isNot => .isNot
  | like => .like
  | add => .plus
  | subtract => .minus
  | multiply => .star
  | divide => .slash
  | concat => .concat

/-- An expression with occurrences in `ρ`. -/
inductive Expr (ρ : Type) where
  /-- A column, of a given occurrence or of the one at hand. -/
  | column (name : String) (owner? : Option ρ)
  /-- A value. -/
  | value (v : Value)
  /-- Text taken as it is, with placeholders bound to `arguments`. -/
  | verbatim (text : String) (arguments : List Value)
  /-- Two operands with an operator between them. -/
  | binary (op : BinaryOp) (lhs rhs : Expr ρ)
  /-- A conjunction. -/
  | conj (terms : List (Expr ρ))
  /-- A disjunction. -/
  | disj (terms : List (Expr ρ))
  /-- A negation. -/
  | neg (e : Expr ρ)
  /-- Membership in a list, or its negation. -/
  | member (e : Expr ρ) (list : List (Expr ρ)) (negated : Bool)
  /-- A function applied to arguments. -/
  | call (name : String) (arguments : List (Expr ρ))
  /-- The number of rows. -/
  | countAll
  /-- The number of different values. -/
  | countDistinct (e : Expr ρ)
  deriving Inhabited

namespace Expr

variable {ρ σ ε : Type}

/-! ## Building -/

/-- A column of the occurrence at hand. -/
def col (name : String) : Expr ρ := column name none

/-- A column of a given occurrence. -/
def colOf (owner : ρ) (name : String) : Expr ρ := column name (some owner)

/-- A condition that holds never. -/
def never : Expr ρ := verbatim "0" []

/-- Whether an expression is null. -/
def isNull (e : Expr ρ) : Expr ρ := binary .is e (value .null)

/-- Whether an expression is not null. -/
def isNotNull (e : Expr ρ) : Expr ρ := binary .isNot e (value .null)

/-- The terms of a conjunction; any other expression is a single term. -/
def conjuncts : Expr ρ → List (Expr ρ)
  | conj terms => terms
  | e => [e]

/-- The terms of a disjunction; any other expression is a single term. -/
def disjuncts : Expr ρ → List (Expr ρ)
  | disj terms => terms
  | e => [e]

/-- Both conditions, as one conjunction of their terms. -/
def and (a b : Expr ρ) : Expr ρ := conj (a.conjuncts ++ b.conjuncts)

/-- Either condition, as one disjunction of their terms. -/
def or (a b : Expr ρ) : Expr ρ := disj (a.disjuncts ++ b.disjuncts)

/-! ## Occurrences -/

mutual

/-- The expression with `owner` given to every column that has no occurrence. -/
def qualified (owner : ρ) : Expr ρ → Expr ρ
  | column name none => column name (some owner)
  | column name (some own) => column name (some own)
  | value v => value v
  | verbatim text arguments => verbatim text arguments
  | binary op lhs rhs => binary op (lhs.qualified owner) (rhs.qualified owner)
  | conj terms => conj (qualifiedList owner terms)
  | disj terms => disj (qualifiedList owner terms)
  | neg e => neg (e.qualified owner)
  | member e list negated => member (e.qualified owner) (qualifiedList owner list) negated
  | call name arguments => call name (qualifiedList owner arguments)
  | countAll => countAll
  | countDistinct e => countDistinct (e.qualified owner)

/-- The expressions with `owner` given to every column that has no occurrence. -/
def qualifiedList (owner : ρ) : List (Expr ρ) → List (Expr ρ)
  | [] => []
  | e :: rest => e.qualified owner :: qualifiedList owner rest

end

mutual

/-- The expression with its occurrences replaced. The first column, from left to right, whose
occurrence has no replacement is the one that fails. Nothing is a member of the empty list, so what
is asked to be one is not looked at and gives way to `NULL`. -/
def withOwners (replace : Option ρ → Except ε (Option σ)) : Expr ρ → Except ε (Expr σ)
  | column name owner? => return column name (← replace owner?)
  | value v => return value v
  | verbatim text arguments => return verbatim text arguments
  | binary op lhs rhs => do
    let lhs ← lhs.withOwners replace
    let rhs ← rhs.withOwners replace
    return binary op lhs rhs
  | conj terms => return conj (← withOwnersList replace terms)
  | disj terms => return disj (← withOwnersList replace terms)
  | neg e => return neg (← e.withOwners replace)
  | member _ [] negated => return member (value .null) [] negated
  | member e (item :: items) negated => do
    let e ← e.withOwners replace
    let item ← item.withOwners replace
    let items ← withOwnersList replace items
    return member e (item :: items) negated
  | call name arguments => return call name (← withOwnersList replace arguments)
  | countAll => return countAll
  | countDistinct e => return countDistinct (← e.withOwners replace)

/-- The expressions with their occurrences replaced. -/
def withOwnersList (replace : Option ρ → Except ε (Option σ)) :
    List (Expr ρ) → Except ε (List (Expr σ))
  | [] => return []
  | e :: rest => do
    let e ← e.withOwners replace
    let rest ← withOwnersList replace rest
    return e :: rest

end

/-! ## Equality -/

/-- Whether two lists have the same length and equal values in each place. -/
def equalValues : List Value → List Value → Bool
  | [], [] => true
  | v :: vs, w :: ws => v.equal w && equalValues vs ws
  | _, _ => false

/-- Whether two columns have no occurrence, or occurrences that pass the test. -/
def equalOwners (same : ρ → ρ → Bool) : Option ρ → Option ρ → Bool
  | none, none => true
  | some a, some b => same a b
  | _, _ => false

mutual

/-- Equality of expressions, with occurrences compared by `same`. -/
def equal (same : ρ → ρ → Bool) : Expr ρ → Expr ρ → Bool
  | column name owner?, column name' owner?' => name == name' && equalOwners same owner? owner?'
  | value v, value v' => v.equal v'
  | verbatim text arguments, verbatim text' arguments' =>
    text == text' && equalValues arguments arguments'
  | binary op lhs rhs, binary op' lhs' rhs' =>
    op == op' && lhs.equal same lhs' && rhs.equal same rhs'
  | conj terms, conj terms' => equalList same terms terms'
  | disj terms, disj terms' => equalList same terms terms'
  | neg e, neg e' => e.equal same e'
  | member e list negated, member e' list' negated' =>
    e.equal same e' && equalList same list list' && negated == negated'
  | call name arguments, call name' arguments' =>
    name == name' && equalList same arguments arguments'
  | countAll, countAll => true
  | countDistinct e, countDistinct e' => e.equal same e'
  | _, _ => false

/-- Equality of lists of expressions. -/
def equalList (same : ρ → ρ → Bool) : List (Expr ρ) → List (Expr ρ) → Bool
  | [], [] => true
  | e :: rest, e' :: rest' => e.equal same e' && equalList same rest rest'
  | _, _ => false

end

end Expr

end SqlTree
