import SqlTree.Alias.Forest
import SqlTree.Expr.Fragment

/-!
# Sort orders

A sort order is a sequence of terms and of sort orders nested in it, with one flag that reverses all
of it. Reversing only changes the flag; the directions of the terms follow when the order is
flattened: a term is reversed when an odd number of the orders around it are.

* `SortOrder.terms` flattens an order.
* `SortOrder.followedBy` is one order behind another, `SortOrder.reverse` the reversed order.
-/

namespace SqlTree

/-! ## Terms -/

/-- The direction of a term. -/
inductive Direction where
  | unspecified | asc | desc | ascNullsLast | descNullsFirst
  deriving DecidableEq, Repr

namespace Direction

/-- The opposite direction. Ascending is what the engine does where none is given. -/
def reverse : Direction → Direction
  | unspecified | asc => desc
  | desc => asc
  | ascNullsLast => descNullsFirst
  | descNullsFirst => ascNullsLast

/-- The words of a direction. -/
def fragment : Direction → Fragment
  | unspecified => []
  | asc => [.token .asc]
  | desc => [.token .desc]
  | ascNullsLast => [.token .asc, .token .nullsLast]
  | descNullsFirst => [.token .desc, .token .nullsFirst]

end Direction

/-- An expression to sort by, and its direction. -/
structure SortTerm (ρ : Type) where
  expr : Expr ρ
  direction : Direction

namespace SortTerm

variable {ρ σ ε : Type}

/-- The term in the opposite direction. -/
def reverse (t : SortTerm ρ) : SortTerm ρ := ⟨t.expr, t.direction.reverse⟩

/-- The term, reversed or as it is. -/
def reverseIf (reversed : Bool) (t : SortTerm ρ) : SortTerm ρ := if reversed then t.reverse else t

/-- The term with `owner` given to every column that has no occurrence. -/
def qualified (owner : ρ) (t : SortTerm ρ) : SortTerm ρ := ⟨t.expr.qualified owner, t.direction⟩

/-- The term with its occurrences replaced. -/
def withOwners (replace : Option ρ → Except ε (Option σ)) (t : SortTerm ρ) :
    Except ε (SortTerm σ) :=
  return ⟨← t.expr.withOwners replace, t.direction⟩

/-- The written form of a term. -/
def fragment (t : SortTerm String) : Fragment := t.expr.fragment ++ t.direction.fragment

end SortTerm

/-! ## Orders -/

mutual

/-- Terms and nested orders, and whether all of them are reversed. -/
structure SortOrder where
  elements : List SortElement
  reversed : Bool

/-- A member of a sort order. -/
inductive SortElement where
  | term (t : SortTerm Alias)
  | nested (o : SortOrder)

end

namespace SortOrder

/-! ## Building -/

/-- The order without terms. -/
def empty : SortOrder := ⟨[], false⟩

/-- The order of the given terms. -/
def ofTerms (terms : List (SortTerm Alias)) : SortOrder := ⟨terms.map .term, false⟩

/-- The order with one more term, which the flag of the order covers. -/
def pushTerm (o : SortOrder) (t : SortTerm Alias) : SortOrder :=
  { o with elements := o.elements ++ [.term t] }

/-- The order with another one nested at its end. An order without elements is left out. -/
def pushOrder (o other : SortOrder) : SortOrder :=
  if other.elements.isEmpty then o else { o with elements := o.elements ++ [.nested other] }

/-- The order in the opposite directions. -/
def reverse (o : SortOrder) : SortOrder := { o with reversed := !o.reversed }

/-! ## Flattening -/

mutual

/-- Whether an order has no terms, at any depth. -/
def isEmpty : SortOrder → Bool
  | ⟨elements, _⟩ => allEmpty elements

/-- Whether none of the elements has a term. -/
def allEmpty : List SortElement → Bool
  | [] => true
  | e :: rest => elementIsEmpty e && allEmpty rest

/-- Whether an element has no terms. -/
def elementIsEmpty : SortElement → Bool
  | .term _ => false
  | .nested o => o.isEmpty

end

mutual

/-- The terms of an order, when the orders around it reverse it or not. -/
def termsUnder (outer : Bool) : SortOrder → List (SortTerm Alias)
  | ⟨elements, reversed⟩ => elementsTerms (outer ^^ reversed) elements

/-- The terms of elements, reversed or not. -/
def elementsTerms (reversed : Bool) : List SortElement → List (SortTerm Alias)
  | [] => []
  | e :: rest => elementTerms reversed e ++ elementsTerms reversed rest

/-- The terms of one element, reversed or not. -/
def elementTerms (reversed : Bool) : SortElement → List (SortTerm Alias)
  | .term t => [t.reverseIf reversed]
  | .nested o => o.termsUnder reversed

end

/-- The terms of an order in sequence, each in its final direction. -/
def terms (o : SortOrder) : List (SortTerm Alias) := o.termsUnder false

/-- One order behind another, each with its own flag. -/
def followedBy (a b : SortOrder) : SortOrder :=
  if a.isEmpty then b
  else if b.isEmpty then a
  else (empty.pushOrder a).pushOrder b

/-! ## Occurrences -/

mutual

/-- The order with `owner` given to every column that has no occurrence. -/
def qualified (owner : Alias) : SortOrder → SortOrder
  | ⟨elements, reversed⟩ => ⟨qualifiedElements owner elements, reversed⟩

/-- The elements with `owner` given to every column that has no occurrence. -/
def qualifiedElements (owner : Alias) : List SortElement → List SortElement
  | [] => []
  | e :: rest => qualifiedElement owner e :: qualifiedElements owner rest

/-- One element with `owner` given to every column that has no occurrence. -/
def qualifiedElement (owner : Alias) : SortElement → SortElement
  | .term t => .term (t.qualified owner)
  | .nested o => .nested (o.qualified owner)

end

end SortOrder

end SqlTree
