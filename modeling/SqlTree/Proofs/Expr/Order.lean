import Mathlib.Data.List.Forall2
import SqlTree.Expr.Order

/-!
# Terms of a sort order

Reversing an order changes directions only. `SortOrder.exprs` are the expressions that an order
sorts by, in sequence, whatever the directions; `SortOrder.map_expr_terms` reads them off the
flattened order, and the lemmas behind it follow them through the ways in which orders are built.

* `SortOrder.isEmpty_iff`: an order is empty when it has no terms.
* `SortOrder.terms_followedBy` and `SortOrder.reversed_followedBy`: what one order behind another
  sorts by, and what becomes of their flags.
* `SortOrder.termsUnder_opposes`: under the other flag an order has the opposite terms.
-/

namespace SqlTree

namespace SortOrder

mutual

/-- The expressions that an order sorts by. -/
def exprs : SortOrder → List (Expr Alias)
  | ⟨elements, _⟩ => elementsExprs elements

/-- The expressions that elements sort by. -/
def elementsExprs : List SortElement → List (Expr Alias)
  | [] => []
  | e :: rest => elementExprs e ++ elementsExprs rest

/-- The expressions that one element sorts by. -/
def elementExprs : SortElement → List (Expr Alias)
  | .term t => [t.expr]
  | .nested o => o.exprs

end

mutual

theorem map_expr_termsUnder (outer : Bool) : ∀ o : SortOrder,
    (o.termsUnder outer).map (·.expr) = o.exprs
  | ⟨elements, reversed⟩ => by
    rw [termsUnder, exprs, map_expr_elementsTerms (outer ^^ reversed) elements]

theorem map_expr_elementsTerms (reversed : Bool) : ∀ elements : List SortElement,
    (elementsTerms reversed elements).map (·.expr) = elementsExprs elements
  | [] => rfl
  | e :: rest => by
    rw [elementsTerms, elementsExprs, List.map_append, map_expr_elementTerms reversed e,
      map_expr_elementsTerms reversed rest]

theorem map_expr_elementTerms (reversed : Bool) : ∀ e : SortElement,
    (elementTerms reversed e).map (·.expr) = elementExprs e
  | .term t => by cases reversed <;> rfl
  | .nested o => by rw [elementTerms, elementExprs, map_expr_termsUnder reversed o]

end

/-- The flattened order sorts by the expressions of the order. -/
theorem map_expr_terms (o : SortOrder) : o.terms.map (·.expr) = o.exprs :=
  map_expr_termsUnder false o

theorem elementsExprs_append (es es' : List SortElement) :
    elementsExprs (es ++ es') = elementsExprs es ++ elementsExprs es' := by
  induction es with
  | nil => rfl
  | cons e es ih => rw [List.cons_append, elementsExprs, elementsExprs, ih, List.append_assoc]

@[simp] theorem exprs_pushOrder (o p : SortOrder) :
    (o.pushOrder p).exprs = o.exprs ++ p.exprs := by
  obtain ⟨elements, reversed⟩ := o
  obtain ⟨elements', reversed'⟩ := p
  rw [pushOrder]
  split
  · rename_i hempty
    have helements : elements' = [] := by simpa using hempty
    simp [helements, exprs, elementsExprs]
  · simp [exprs, elementsExprs_append, elementsExprs, elementExprs]

mutual

theorem exprs_qualified (owner : Alias) : ∀ o : SortOrder,
    (o.qualified owner).exprs = o.exprs.map (·.qualified owner)
  | ⟨elements, reversed⟩ => by
    rw [qualified, exprs, exprs, elementsExprs_qualified owner elements]

theorem elementsExprs_qualified (owner : Alias) : ∀ elements : List SortElement,
    elementsExprs (qualifiedElements owner elements) =
      (elementsExprs elements).map (·.qualified owner)
  | [] => rfl
  | e :: rest => by
    rw [qualifiedElements, elementsExprs, elementsExprs, List.map_append,
      elementExprs_qualified owner e, elementsExprs_qualified owner rest]

theorem elementExprs_qualified (owner : Alias) : ∀ e : SortElement,
    elementExprs (qualifiedElement owner e) = (elementExprs e).map (·.qualified owner)
  | .term t => rfl
  | .nested o => by rw [qualifiedElement, elementExprs, elementExprs, exprs_qualified owner o]

end

/-! ## Terms -/

theorem elementsTerms_append (reversed : Bool) (es es' : List SortElement) :
    elementsTerms reversed (es ++ es') =
      elementsTerms reversed es ++ elementsTerms reversed es' := by
  induction es with
  | nil => rfl
  | cons e es ih => rw [List.cons_append, elementsTerms, elementsTerms, ih, List.append_assoc]

/-- A nested order is reversed with the order that it is nested in. -/
theorem termsUnder_pushOrder (outer : Bool) (o p : SortOrder) : (o.pushOrder p).termsUnder outer =
    o.termsUnder outer ++ p.termsUnder (outer ^^ o.reversed) := by
  obtain ⟨elements, reversed⟩ := o
  obtain ⟨elements', reversed'⟩ := p
  rw [pushOrder]
  split
  · rename_i hempty
    have helements : elements' = [] := by simpa using hempty
    simp [helements, termsUnder, elementsTerms]
  · simp [termsUnder, elementsTerms_append, elementsTerms, elementTerms]

theorem reversed_pushOrder (o p : SortOrder) : (o.pushOrder p).reversed = o.reversed := by
  rw [pushOrder]
  split <;> rfl

theorem SortTerm.reverseIf_qualified (reversed : Bool) (owner : Alias) (t : SortTerm Alias) :
    (t.qualified owner).reverseIf reversed = (t.reverseIf reversed).qualified owner := by
  cases reversed <;> rfl

mutual

theorem termsUnder_qualified (owner : Alias) (outer : Bool) : ∀ o : SortOrder,
    (o.qualified owner).termsUnder outer = (o.termsUnder outer).map (·.qualified owner)
  | ⟨elements, reversed⟩ => by
    rw [qualified, termsUnder, termsUnder,
      elementsTerms_qualified owner (outer ^^ reversed) elements]

theorem elementsTerms_qualified (owner : Alias) (reversed : Bool) : ∀ elements : List SortElement,
    elementsTerms reversed (qualifiedElements owner elements) =
      (elementsTerms reversed elements).map (·.qualified owner)
  | [] => rfl
  | e :: rest => by
    rw [qualifiedElements, elementsTerms, elementsTerms, List.map_append,
      elementTerms_qualified owner reversed e, elementsTerms_qualified owner reversed rest]

theorem elementTerms_qualified (owner : Alias) (reversed : Bool) : ∀ e : SortElement,
    elementTerms reversed (qualifiedElement owner e) =
      (elementTerms reversed e).map (·.qualified owner)
  | .term t => by
    rw [qualifiedElement, elementTerms, elementTerms, List.map_singleton,
      SortTerm.reverseIf_qualified]
  | .nested o => by
    rw [qualifiedElement, elementTerms, elementTerms, termsUnder_qualified owner reversed o]

end

/-! ## Occurrences -/

mutual

theorem isEmpty_qualified (owner : Alias) : ∀ o : SortOrder,
    (o.qualified owner).isEmpty = o.isEmpty
  | ⟨elements, reversed⟩ => by
    rw [qualified, isEmpty, isEmpty, allEmpty_qualified owner elements]

theorem allEmpty_qualified (owner : Alias) : ∀ elements : List SortElement,
    allEmpty (qualifiedElements owner elements) = allEmpty elements
  | [] => rfl
  | e :: rest => by
    rw [qualifiedElements, allEmpty, allEmpty, elementIsEmpty_qualified owner e,
      allEmpty_qualified owner rest]

theorem elementIsEmpty_qualified (owner : Alias) : ∀ e : SortElement,
    elementIsEmpty (qualifiedElement owner e) = elementIsEmpty e
  | .term t => rfl
  | .nested o => by
    rw [qualifiedElement, elementIsEmpty, elementIsEmpty, isEmpty_qualified owner o]

end

theorem qualifiedElements_append (owner : Alias) (es es' : List SortElement) :
    qualifiedElements owner (es ++ es') =
      qualifiedElements owner es ++ qualifiedElements owner es' := by
  induction es with
  | nil => rfl
  | cons e es ih =>
    rw [List.cons_append, qualifiedElements, qualifiedElements, ih, List.cons_append]

theorem qualified_pushOrder (owner : Alias) (o p : SortOrder) :
    (o.pushOrder p).qualified owner = (o.qualified owner).pushOrder (p.qualified owner) := by
  obtain ⟨elements, reversed⟩ := o
  obtain ⟨elements', reversed'⟩ := p
  cases elements' with
  | nil => rfl
  | cons e rest =>
    simp only [pushOrder, qualified, qualifiedElements, List.isEmpty_cons, Bool.false_eq_true,
      if_false, qualifiedElements_append, qualifiedElement]

theorem qualified_followedBy (owner : Alias) (o p : SortOrder) :
    (o.followedBy p).qualified owner = (o.qualified owner).followedBy (p.qualified owner) := by
  rw [followedBy, followedBy, isEmpty_qualified, isEmpty_qualified]
  split
  · rfl
  · split
    · rfl
    · rw [qualified_pushOrder, qualified_pushOrder]
      rfl

/-! ## Orders behind each other -/

mutual

theorem isEmpty_iff_termsUnder (outer : Bool) : ∀ o : SortOrder,
    o.isEmpty = true ↔ o.termsUnder outer = []
  | ⟨elements, reversed⟩ => by
    rw [isEmpty, termsUnder, allEmpty_iff (outer ^^ reversed) elements]

theorem allEmpty_iff (reversed : Bool) : ∀ elements : List SortElement,
    allEmpty elements = true ↔ elementsTerms reversed elements = []
  | [] => iff_of_true rfl rfl
  | e :: rest => by
    rw [allEmpty, elementsTerms, Bool.and_eq_true, List.append_eq_nil_iff,
      elementIsEmpty_iff reversed e, allEmpty_iff reversed rest]

theorem elementIsEmpty_iff (reversed : Bool) : ∀ e : SortElement,
    elementIsEmpty e = true ↔ elementTerms reversed e = []
  | .term _ => iff_of_false nofun nofun
  | .nested o => isEmpty_iff_termsUnder reversed o

end

/-- **An order is empty** when it has no terms. -/
theorem isEmpty_iff {o : SortOrder} : o.isEmpty = true ↔ o.terms = [] :=
  isEmpty_iff_termsUnder false o

/-- One order behind another has the terms of both, each in its direction. -/
theorem terms_followedBy (o p : SortOrder) : (o.followedBy p).terms = o.terms ++ p.terms := by
  rw [followedBy]
  split
  · rename_i ho
    rw [isEmpty_iff.1 ho, List.nil_append]
  · split
    · rename_i hp
      rw [isEmpty_iff.1 hp, List.append_nil]
    · rw [terms, termsUnder_pushOrder, termsUnder_pushOrder, reversed_pushOrder]
      rfl

theorem exprs_followedBy (o p : SortOrder) : (o.followedBy p).exprs = o.exprs ++ p.exprs := by
  rw [← map_expr_terms, terms_followedBy, List.map_append, map_expr_terms, map_expr_terms]

/-- The flag of one order behind another: of two orders that have terms none covers what is nested
behind them. -/
theorem reversed_followedBy (o p : SortOrder) : (o.followedBy p).reversed =
    if o.isEmpty then p.reversed else if p.isEmpty then o.reversed else false := by
  rw [followedBy]
  split
  · rfl
  · split
    · rfl
    · rw [reversed_pushOrder, reversed_pushOrder]
      rfl

end SortOrder

/-! ## Opposite directions -/

/-- The terms sort by one expression, in opposite directions. -/
def SortTerm.Opposes {ρ : Type} (t u : SortTerm ρ) : Prop := u = t.reverse ∨ t = u.reverse

theorem Direction.reverse_ne (d : Direction) : d.reverse ≠ d := by
  cases d <;> decide

theorem SortTerm.Opposes.ne {ρ : Type} {t u : SortTerm ρ} (h : t.Opposes u) : t ≠ u := by
  rintro rfl
  have hself : t = t.reverse := h.elim id id
  exact t.direction.reverse_ne (congrArg SortTerm.direction hself).symm

namespace SortOrder

mutual

/-- **A reversed order has the opposite terms.** -/
theorem termsUnder_opposes (outer : Bool) : ∀ o : SortOrder,
    List.Forall₂ SortTerm.Opposes (o.termsUnder outer) (o.termsUnder !outer)
  | ⟨elements, reversed⟩ => by
    rw [termsUnder, termsUnder, Bool.not_xor]
    exact elementsTerms_opposes (outer ^^ reversed) elements

theorem elementsTerms_opposes (reversed : Bool) : ∀ elements : List SortElement,
    List.Forall₂ SortTerm.Opposes (elementsTerms reversed elements)
      (elementsTerms (!reversed) elements)
  | [] => .nil
  | e :: rest => by
    rw [elementsTerms, elementsTerms]
    exact List.rel_append (elementTerms_opposes reversed e) (elementsTerms_opposes reversed rest)

theorem elementTerms_opposes (reversed : Bool) : ∀ e : SortElement,
    List.Forall₂ SortTerm.Opposes (elementTerms reversed e) (elementTerms (!reversed) e)
  | .term t => by
    refine .cons ?_ .nil
    cases reversed with
    | false => exact .inl rfl
    | true => exact .inr rfl
  | .nested o => termsUnder_opposes reversed o

end

end SortOrder

end SqlTree
