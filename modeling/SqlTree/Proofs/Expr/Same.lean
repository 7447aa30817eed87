import Mathlib.Data.List.Forall2
import SqlTree.Expr.Fragment

/-!
# Expressions that are written alike

Writing an expression does not keep all of its shape: of a conjunction in a conjunction only the
sequence of the terms is left, and a conjunction without terms is a constant. `Expr.Same` is what is
left, the least congruence with these identities. Conjunctions and disjunctions obey the same ones,
so they are named together as `Junction.expr`.

* `Expr.Same.junction`, `Expr.Same.members`, `Expr.Same.arguments`: equal lists, place by place.
* `Expr.Same.unnest_first`, `Expr.Same.nest_last`: the shapes that reading from left to right meets.
-/

namespace SqlTree

variable {ρ : Type}

/-- A connective of any number of terms. -/
inductive Junction where
  | and | or
  deriving DecidableEq, Repr

namespace Junction

/-- The connective applied to terms. -/
def expr : Junction → List (Expr ρ) → Expr ρ
  | and => .conj
  | or => .disj

/-- What the connective of no terms is. -/
def unit : Junction → String
  | and => "1"
  | or => "0"

/-- The token between terms. -/
def token : Junction → Token
  | and => .and
  | or => .or

end Junction

namespace Expr

/-- The constant that membership in no values amounts to. -/
def memberOfNone (negated : Bool) : Expr ρ := verbatim (if negated then "1" else "0") []

/-- Expressions that differ in the nesting of conjunctions in conjunctions and of disjunctions in
disjunctions, in conjunctions and disjunctions of one term or none, and in memberships in no values,
anywhere inside them. -/
inductive Same : Expr ρ → Expr ρ → Prop where
  | refl (e : Expr ρ) : Same e e
  | symm {e e' : Expr ρ} : Same e e' → Same e' e
  | trans {e e' e'' : Expr ρ} : Same e e' → Same e' e'' → Same e e''
  /-- The terms of a nested junction stand among those around it. -/
  | nested (j : Junction) (before after : List (Expr ρ)) {inner : List (Expr ρ)} : inner ≠ [] →
    Same (j.expr (before ++ j.expr inner :: after)) (j.expr (before ++ inner ++ after))
  /-- A junction of one term is the term. -/
  | single (j : Junction) (e : Expr ρ) : Same (j.expr [e]) e
  /-- A conjunction of no terms is true, a disjunction of none is false. -/
  | empty (j : Junction) : Same (j.expr []) (verbatim j.unit [])
  /-- Nothing is one of no values. -/
  | noValues (e : Expr ρ) (negated : Bool) : Same (member e [] negated) (memberOfNone negated)
  | term (j : Junction) (before after : List (Expr ρ)) {e e' : Expr ρ} : Same e e' →
    Same (j.expr (before ++ e :: after)) (j.expr (before ++ e' :: after))
  | lhs (op : BinaryOp) (rhs : Expr ρ) {e e' : Expr ρ} : Same e e' →
    Same (binary op e rhs) (binary op e' rhs)
  | rhs (op : BinaryOp) (lhs : Expr ρ) {e e' : Expr ρ} : Same e e' →
    Same (binary op lhs e) (binary op lhs e')
  | neg {e e' : Expr ρ} : Same e e' → Same e.neg e'.neg
  | subject (list : List (Expr ρ)) (negated : Bool) {e e' : Expr ρ} : Same e e' →
    Same (member e list negated) (member e' list negated)
  | item (subject : Expr ρ) (before after : List (Expr ρ)) (negated : Bool) {e e' : Expr ρ} :
    Same e e' →
    Same (member subject (before ++ e :: after) negated)
      (member subject (before ++ e' :: after) negated)
  | argument (name : String) (before after : List (Expr ρ)) {e e' : Expr ρ} : Same e e' →
    Same (call name (before ++ e :: after)) (call name (before ++ e' :: after))
  | counted {e e' : Expr ρ} : Same e e' → Same e.countDistinct e'.countDistinct

namespace Same

/-- What holds of one place of a list holds of all places. -/
theorem places (make : List (Expr ρ) → Expr ρ)
    (hplace : ∀ before after e e', Same e e' →
      Same (make (before ++ e :: after)) (make (before ++ e' :: after)))
    {es es' : List (Expr ρ)} (h : List.Forall₂ Same es es') (before : List (Expr ρ)) :
    Same (make (before ++ es)) (make (before ++ es')) := by
  induction h generalizing before with
  | nil => exact .refl _
  | @cons e e' es es' he _ ih =>
    have htail := ih (before ++ [e'])
    rw [List.append_assoc, List.append_assoc, List.singleton_append, List.singleton_append] at htail
    exact (hplace before es e e' he).trans htail

theorem junction (j : Junction) {es es' : List (Expr ρ)} (h : List.Forall₂ Same es es') :
    Same (j.expr es) (j.expr es') :=
  places j.expr (fun before after _ _ => .term j before after) h []

theorem arguments (name : String) {es es' : List (Expr ρ)} (h : List.Forall₂ Same es es') :
    Same (call name es) (call name es') :=
  places (call name) (fun before after _ _ => .argument name before after) h []

theorem members {e e' : Expr ρ} {list list' : List (Expr ρ)} (negated : Bool) (he : Same e e')
    (h : List.Forall₂ Same list list') : Same (member e list negated) (member e' list' negated) :=
  (Same.subject list negated he).trans
    (places (member e' · negated) (fun before after _ _ => .item e' before after negated) h [])

theorem binary {e e' r r' : Expr ρ} (op : BinaryOp) (he : Same e e') (hr : Same r r') :
    Same (.binary op e r) (.binary op e' r') :=
  (Same.lhs op r he).trans (.rhs op e' hr)

/-- A junction at the front of its own kind. -/
theorem unnest_first (j : Junction) {inner : List (Expr ρ)} (after : List (Expr ρ))
    (h : inner ≠ []) : Same (j.expr (j.expr inner :: after)) (j.expr (inner ++ after)) :=
  .nested j [] after h

/-- A junction at the end of its own kind. -/
theorem nest_last (j : Junction) (before : List (Expr ρ)) {inner : List (Expr ρ)}
    (h : inner ≠ []) : Same (j.expr (before ++ inner)) (j.expr (before ++ [j.expr inner])) := by
  have hnested := Same.nested j before [] h
  rw [List.append_nil] at hnested
  exact hnested.symm

end Same

end Expr

end SqlTree
