import SqlTree.Expr.Fragment
import SqlTree.Proofs.Expr.Owners

/-!
# Values in expressions

The values that an expression binds, in the order of its placeholders. `Expr.params` reads them off
the expression; `Expr.params_fragment` says that they are those of its written form. They do not
depend on occurrences (`Expr.params_mapOwners`), and those of a conjunction are those of its terms,
one behind the other (`Expr.params_conjuncts`).
-/

namespace SqlTree

variable {ρ σ : Type}

namespace Expr

mutual

/-- The values bound in an expression, from left to right. What is asked to be a member of the empty
list is not written. -/
def params : Expr ρ → List Value
  | column _ _ => []
  | value v => (Fragment.value v).params
  | verbatim _ arguments => arguments
  | binary _ lhs rhs => lhs.params ++ rhs.params
  | conj terms => listParams terms
  | disj terms => listParams terms
  | neg e => e.params
  | member _ [] _ => []
  | member e (item :: items) _ => e.params ++ (item.params ++ listParams items)
  | call _ arguments => listParams arguments
  | countAll => []
  | countDistinct e => e.params

/-- The values bound in expressions. -/
def listParams : List (Expr ρ) → List Value
  | [] => []
  | e :: rest => e.params ++ listParams rest

end

theorem listParams_eq_flatMap (es : List (Expr ρ)) : listParams es = es.flatMap (·.params) := by
  induction es with
  | nil => rfl
  | cons e es ih => rw [listParams, ih, List.flatMap_cons]

/-! ## Written forms -/

@[simp] theorem params_bracketed (min precedence : Nat) (f : Fragment) :
    (bracketed min precedence f).params = f.params := by
  rw [bracketed]
  split
  · exact Fragment.params_parens f
  · rfl

mutual

/-- **The written form of an expression binds the values of the expression.** -/
theorem params_fragment : ∀ e : Expr String, e.fragment.params = e.params
  | column name none => rfl
  | column name (some owner) => rfl
  | value v => rfl
  | verbatim text arguments => by
    simp [fragment, params, Fragment.verbatim, Chunk.values]
  | binary op lhs rhs => by
    simp only [fragment, params, Fragment.params_append, Fragment.params_cons, params_bracketed,
      params_fragment lhs, params_fragment rhs, Chunk.values, List.nil_append]
  | conj [] => rfl
  | conj (term :: terms) => by
    rw [fragment, Fragment.params_separated, List.flatMap_cons, params_bracketed,
      params_fragment term, params_operands 2 terms, params, listParams]
  | disj [] => rfl
  | disj (term :: terms) => by
    rw [fragment, Fragment.params_separated, List.flatMap_cons, params_bracketed,
      params_fragment term, params_operands 1 terms, params, listParams]
  | neg e => by
    rw [fragment, Fragment.params_cons, params_bracketed, params_fragment e, params]
    rfl
  | member e [] negated => by cases negated <;> rfl
  | member e (item :: items) negated => by
    have hnot : Fragment.params (if negated then [.token .not] else []) = [] := by
      cases negated <;> rfl
    rw [fragment, Fragment.params_append, Fragment.params_append, Fragment.params_cons,
      Fragment.params_parens, Fragment.params_separated, List.flatMap_cons, params_bracketed,
      params_fragment e, params_fragment item, params_operands 0 items, hnot, List.append_nil,
      params]
    rfl
  | call name arguments => by
    rw [fragment, Fragment.call, Fragment.params_cons, Fragment.params_parens,
      Fragment.params_separated, params_operands 0 arguments, params]
    rfl
  | countAll => rfl
  | countDistinct e => by
    rw [fragment, Fragment.call, Fragment.params_cons, Fragment.params_parens,
      Fragment.params_cons, params_fragment e, params]
    rfl

theorem params_operands (min : Nat) : ∀ es : List (Expr String),
    (operands min es).flatMap Fragment.params = listParams es
  | [] => rfl
  | e :: rest => by
    rw [operands, List.flatMap_cons, params_bracketed, params_fragment e, params_operands min rest,
      listParams]

end

/-! ## Occurrences and terms -/

mutual

/-- Names stand in front of columns only. -/
@[simp] theorem params_mapOwners (g : Option ρ → Option σ) : ∀ e : Expr ρ,
    (e.mapOwners g).params = e.params
  | column name owner? => rfl
  | value v => rfl
  | verbatim text arguments => rfl
  | binary op lhs rhs => by
    rw [mapOwners, params, params, params_mapOwners g lhs, params_mapOwners g rhs]
  | conj terms => by
    rw [mapOwners, params, params, listParams_mapOwnersList g terms]
  | disj terms => by
    rw [mapOwners, params, params, listParams_mapOwnersList g terms]
  | neg e => by
    rw [mapOwners, params, params, params_mapOwners g e]
  | member e [] negated => rfl
  | member e (item :: items) negated => by
    rw [mapOwners, params, params, params_mapOwners g e, params_mapOwners g item,
      listParams_mapOwnersList g items]
  | call name arguments => by
    rw [mapOwners, params, params, listParams_mapOwnersList g arguments]
  | countAll => rfl
  | countDistinct e => by
    rw [mapOwners, params, params, params_mapOwners g e]

theorem listParams_mapOwnersList (g : Option ρ → Option σ) : ∀ es : List (Expr ρ),
    listParams (mapOwnersList g es) = listParams es
  | [] => rfl
  | e :: rest => by
    rw [mapOwnersList, listParams, listParams, params_mapOwners g e,
      listParams_mapOwnersList g rest]

end

/-- The values of a condition are those of its terms. -/
theorem params_conjuncts (e : Expr ρ) : e.conjuncts.flatMap (·.params) = e.params := by
  cases e with
  | conj terms => rw [conjuncts, params, listParams_eq_flatMap]
  | _ => simp [conjuncts]

end Expr

end SqlTree
