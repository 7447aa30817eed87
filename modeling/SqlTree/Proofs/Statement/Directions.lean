import Mathlib.Algebra.Ring.Parity
import SqlTree.Proofs.Statement.MergedOrder
import SqlTree.Proofs.Statement.Written

/-!
# Directions of what a request sorts by

A term stands at the end of a path: from the request through its joins to the one that the term is
written in, and through the orders nested in the order of that one. Each of them has a flag, and the
term is reversed when an odd number of the flags on its path are set.

* `SortOrder.flagged` and `Query.flagged` list terms with the flags on their paths, in the sequence
  in which they are sorted by. `Query.termsUnder_fullOrder`: flattening resolves just these.
* `Query.toSelect_reversed`: a reversed request is selected by the same statement, but that its
  terms have the opposite directions.
* `SortTerm.IsReadFrom` and `Fragment.SortsOppositely` say what is written for a term and for the
  term in the opposite direction.
* `Query.selectStatement_directions` puts these together.
-/

namespace SqlTree

/-! ## Terms and the flags on their paths -/

/-- An odd number of flags are set. -/
def oddFlags (flags : List Bool) : Bool := Odd (flags.count true)

theorem oddFlags_concat (flags : List Bool) (r : Bool) :
    oddFlags (flags ++ [r]) = (oddFlags flags ^^ r) := by
  rw [oddFlags, oddFlags, List.count_append]
  cases r with
  | false => simp
  | true =>
    rw [Bool.xor_true, ← decide_not, List.count_singleton_self]
    exact decide_eq_decide.2 Nat.odd_add_one

/-- A term with the flags on its path, the outermost first. -/
structure FlaggedTerm where
  flags : List Bool
  term : SortTerm Alias

/-- The term in its final direction. -/
def FlaggedTerm.resolved (t : FlaggedTerm) : SortTerm Alias := t.term.reverseIf (oddFlags t.flags)

namespace SortOrder

mutual

/-- The terms of an order in sequence, when the order is at the end of a path. -/
def flagged (flags : List Bool) : SortOrder → List FlaggedTerm
  | ⟨elements, reversed⟩ => elementsFlagged (flags ++ [reversed]) elements

/-- The terms of elements in sequence. -/
def elementsFlagged (flags : List Bool) : List SortElement → List FlaggedTerm
  | [] => []
  | e :: rest => elementFlagged flags e ++ elementsFlagged flags rest

/-- The terms of one element in sequence. -/
def elementFlagged (flags : List Bool) : SortElement → List FlaggedTerm
  | .term t => [⟨flags, t⟩]
  | .nested o => o.flagged flags

end

mutual

/-- **A flattened order** has the terms of the order, each reversed by the flags on its path. -/
theorem termsUnder_eq_flagged (flags : List Bool) : ∀ o : SortOrder,
    o.termsUnder (oddFlags flags) = (o.flagged flags).map (·.resolved)
  | ⟨elements, reversed⟩ => by
    rw [termsUnder, flagged, ← oddFlags_concat, elementsTerms_eq_flagged _ elements]

theorem elementsTerms_eq_flagged (flags : List Bool) : ∀ es : List SortElement,
    elementsTerms (oddFlags flags) es = (elementsFlagged flags es).map (·.resolved)
  | [] => rfl
  | e :: rest => by
    rw [elementsTerms, elementsFlagged, List.map_append, elementTerms_eq_flagged flags e,
      elementsTerms_eq_flagged flags rest]

theorem elementTerms_eq_flagged (flags : List Bool) : ∀ e : SortElement,
    elementTerms (oddFlags flags) e = (elementFlagged flags e).map (·.resolved)
  | .term t => rfl
  | .nested o => by rw [elementTerms, elementFlagged, termsUnder_eq_flagged flags o]

end

end SortOrder

mutual

/-- The terms that a request sorts by in sequence, its own and those of its joins, when the request
is at the end of a path. -/
def Query.flagged (flags : List Bool) : Query → List FlaggedTerm
  | ⟨_, clauses, joins, _⟩ =>
    clauses.order.flagged flags ++ joinsFlagged (flags ++ [clauses.order.reversed]) joins

/-- The terms that joins sort by in sequence. -/
def joinsFlagged (flags : List Bool) : List Join → List FlaggedTerm
  | [] => []
  | j :: rest => joinFlagged flags j ++ joinsFlagged flags rest

/-- The terms that one join sorts by in sequence. -/
def joinFlagged (flags : List Bool) : Join → List FlaggedTerm
  | ⟨_, _, _, _, query⟩ => query.flagged flags

end

mutual

/-- **What a request sorts by** are its own terms and those of its joins, depth first, each reversed
by the flags on its path. -/
theorem Query.termsUnder_fullOrder (flags : List Bool) : ∀ q : Query,
    q.fullOrder.termsUnder (oddFlags flags) = (q.flagged flags).map (·.resolved)
  | ⟨source, clauses, joins, isQualified⟩ => by
    rw [Query.fullOrder, termsUnder_pushOrders, Query.flagged, List.map_append,
      SortOrder.termsUnder_eq_flagged, ← oddFlags_concat, joinsTermsUnder_eq_flagged _ joins]

theorem joinsTermsUnder_eq_flagged (flags : List Bool) : ∀ joins : List Join,
    (joins.flatMap fun j => j.query.fullOrder.termsUnder (oddFlags flags)) =
      (joinsFlagged flags joins).map (·.resolved)
  | [] => rfl
  | j :: rest => by
    rw [List.flatMap_cons, joinsFlagged, List.map_append, joinTermsUnder_eq_flagged flags j,
      joinsTermsUnder_eq_flagged flags rest]

theorem joinTermsUnder_eq_flagged (flags : List Bool) : ∀ j : Join,
    j.query.fullOrder.termsUnder (oddFlags flags) = (joinFlagged flags j).map (·.resolved)
  | ⟨_, _, _, _, query⟩ => by rw [joinFlagged, Query.termsUnder_fullOrder flags query]

end

theorem Query.terms_fullOrder (q : Query) :
    q.fullOrder.terms = (q.flagged []).map (·.resolved) :=
  Query.termsUnder_fullOrder [] q

/-! ## Reversing -/

/-- The direction that a term is sorted in: ascending where none is given. -/
def Direction.effective : Direction → Direction
  | unspecified => asc
  | d => d

/-- The term with the direction that it is sorted in. -/
def SortTerm.effective {ρ : Type} (t : SortTerm ρ) : SortTerm ρ := ⟨t.expr, t.direction.effective⟩

/-- The selections are the same, but that the second one sorts in the opposite directions. -/
structure Select.IsReversed (t t' : Select) : Prop where
  others : t' = { t with order := t'.order }
  order : t'.order.map (·.effective) = t.order.map (·.reverse.effective)

theorem Direction.effective_reverse_reverse (d : Direction) :
    d.reverse.reverse.effective = d.effective := by
  cases d <;> rfl

theorem SortTerm.Opposes.effective {ρ : Type} {t u : SortTerm ρ} (h : t.Opposes u) :
    t.reverse.effective = u.effective := by
  rcases h with rfl | rfl
  · rfl
  · exact congrArg (SortTerm.mk u.expr) u.direction.effective_reverse_reverse

theorem SortTerm.Opposes.expr_eq {ρ : Type} {t u : SortTerm ρ} (h : t.Opposes u) :
    u.expr = t.expr := by
  rcases h with rfl | rfl <;> rfl

/-- Opposite terms are written with opposite directions. -/
theorem SortTerm.Opposes.withOwners {ρ σ ε : Type} {t u : SortTerm ρ} (h : t.Opposes u)
    (replace : Option ρ → Except ε (Option σ)) :
    FailsAlike SortTerm.Opposes (t.withOwners replace) (u.withOwners replace) := by
  rw [SortTerm.withOwners, SortTerm.withOwners, h.expr_eq]
  refine .step fun e _ => .results ?_
  rcases h with rfl | rfl
  · exact .inl rfl
  · exact .inr rfl

theorem SortOrder.reverse_reverse (o : SortOrder) : o.reverse.reverse = o := by
  obtain ⟨elements, reversed⟩ := o
  rw [reverse, reverse, Bool.not_not]

theorem SortOrder.termsUnder_reverse (outer : Bool) (o : SortOrder) :
    o.reverse.termsUnder outer = o.termsUnder !outer := by
  obtain ⟨elements, reversed⟩ := o
  rw [reverse, termsUnder, termsUnder, Bool.xor_not, Bool.not_xor]

theorem SortOrder.qualified_reverse (owner : Alias) (o : SortOrder) :
    o.reverse.qualified owner = (o.qualified owner).reverse := by
  obtain ⟨elements, reversed⟩ := o
  rfl

theorem terms_pushOrders_reverse (o : SortOrder) (joins : List Join) :
    (pushOrders o.reverse joins).terms = (pushOrders o joins).termsUnder true := by
  rw [SortOrder.terms, termsUnder_pushOrders, termsUnder_pushOrders, SortOrder.termsUnder_reverse,
    SortOrder.reverse, Bool.false_xor, Bool.true_xor, Bool.not_false]

/-! ## Written terms -/

/-- A fragment is read as the expression of a term under names, and behind it stand the words of the
direction. -/
inductive SortTerm.IsReadFrom {ρ : Type} (g : Option ρ → Option String) :
    SortTerm ρ → Fragment → Prop
  | unspecified {e : Expr ρ} {f : Fragment} : e.IsReadFrom g f → IsReadFrom g ⟨e, .unspecified⟩ f
  | asc {e : Expr ρ} {f : Fragment} : e.IsReadFrom g f →
      IsReadFrom g ⟨e, .asc⟩ (f ++ [.token .asc])
  | desc {e : Expr ρ} {f : Fragment} : e.IsReadFrom g f →
      IsReadFrom g ⟨e, .desc⟩ (f ++ [.token .desc])
  | ascNullsLast {e : Expr ρ} {f : Fragment} : e.IsReadFrom g f →
      IsReadFrom g ⟨e, .ascNullsLast⟩ (f ++ [.token .asc, .token .nullsLast])
  | descNullsFirst {e : Expr ρ} {f : Fragment} : e.IsReadFrom g f →
      IsReadFrom g ⟨e, .descNullsFirst⟩ (f ++ [.token .desc, .token .nullsFirst])

/-- The words of opposite directions. Where there are none the direction is ascending. -/
inductive Fragment.AreOpposite : Fragment → Fragment → Prop
  | unstated : AreOpposite [] [.token .desc]
  | asc : AreOpposite [.token .asc] [.token .desc]
  | descUnstated : AreOpposite [.token .desc] []
  | desc : AreOpposite [.token .desc] [.token .asc]
  | ascNullsLast : AreOpposite [.token .asc, .token .nullsLast] [.token .desc, .token .nullsFirst]
  | descNullsFirst : AreOpposite [.token .desc, .token .nullsFirst] [.token .asc, .token .nullsLast]

/-- Two terms have one expression in front of the words of opposite directions. -/
def Fragment.SortsOppositely (f f' : Fragment) : Prop :=
  ∃ (e words words' : Fragment) (x : Expr String), e.read? = some x ∧ f = e ++ words ∧
    f' = e ++ words' ∧ words.AreOpposite words'

theorem SortTerm.isReadFrom {ρ : Type} (g : Option ρ → Option String) (t : SortTerm ρ) :
    t.IsReadFrom g (t.mapOwners g).fragment := by
  obtain ⟨e, direction⟩ := t
  have he := e.isReadFrom g
  cases direction with
  | unspecified =>
    rw [mapOwners, fragment, Direction.fragment, List.append_nil]
    exact .unspecified he
  | asc => exact .asc he
  | desc => exact .desc he
  | ascNullsLast => exact .ascNullsLast he
  | descNullsFirst => exact .descNullsFirst he

theorem Direction.areOpposite {d d' : Direction} (h : d.reverse.effective = d'.effective) :
    d.fragment.AreOpposite d'.fragment := by
  cases d <;> cases d' <;> cases h <;> constructor

/-- A term that is sorted in the opposite direction of another one is written so. -/
theorem SortTerm.sortsOppositely {t u : SortTerm String} (h : t.reverse.effective = u.effective) :
    t.fragment.SortsOppositely u.fragment := by
  obtain ⟨e, direction⟩ := t
  obtain ⟨e', direction'⟩ := u
  obtain ⟨rfl, hdirection⟩ : e = e' ∧ direction.reverse.effective = direction'.effective := by
    simpa only [reverse, effective, SortTerm.mk.injEq] using h
  obtain ⟨x, hread, -⟩ := Reading.read?_fragment e
  exact ⟨e.fragment, _, _, x, hread, rfl, rfl, Direction.areOpposite hdirection⟩

/-- The selections are written the same, but that the second one sorts in the opposite
directions. -/
structure WrittenSelect.IsReversed (w w' : WrittenSelect) : Prop where
  others : w' = { w with order := w'.order }
  order : List.Forall₂ Fragment.SortsOppositely w.order w'.order

theorem Select.IsReversed.written {t t' : Select} (h : t.IsReversed t') :
    t.written.IsReversed t'.written := by
  constructor
  · rw [h.others]
    rfl
  · rw [Select.written, Select.written, List.forall₂_map_left_iff, List.forall₂_map_right_iff]
    exact (forall₂_of_map_eq h.order.symm).imp fun _ _ ht => SortTerm.sortsOppositely ht

/-! ## Requests -/

namespace Query

variable {c : Context} {f g : Forest} {db : Schema}

/-- **Reversing twice changes nothing.** -/
theorem reversed_reversed (q : Query) : q.reversed.reversed = q := by
  obtain ⟨source, clauses, joins, isQualified⟩ := q
  simp only [reversed, orderBy, SortOrder.reverse_reverse]

theorem qualify_reversed : ∀ q : Query,
    q.reversed.qualify = q.qualify >>= fun q' => pure q'.reversed
  | ⟨source, clauses, joins, true⟩ => by
    rw [Query.qualify, pure_bind, reversed, orderBy, Query.qualify]
  | ⟨source, clauses, joins, false⟩ => by
    simp only [reversed, orderBy, Query.qualify, bind_assoc, pure_bind, Clauses.qualified,
      SortOrder.qualified_reverse]

theorem statementAliases_reversed (q : Query) :
    q.reversed.statementAliases = q.statementAliases := by
  obtain ⟨source, clauses, joins, isQualified⟩ := q
  rfl

/-- The order of a reversed request is written in the opposite directions. -/
theorem order_reversed (s : Scope) (o : SortOrder) (joins : List Join) :
    FailsAlike (List.Forall₂ SortTerm.Opposes) (s.order (pushOrders o joins))
      (s.order (pushOrders o.reverse joins)) := by
  rw [Scope.order, Scope.order, terms_pushOrders_reverse]
  exact .mapM ((SortOrder.termsUnder_opposes false _).imp fun _ _ h => h.withOwners _)

/-- **A reversed request is selected by the reversed selection.** -/
theorem toSelect_reversed (q : Query) :
    FailsAlike Select.IsReversed (q.toSelect c) (q.reversed.toSelect c) := by
  obtain ⟨source, clauses, joins, isQualified⟩ := q
  rw [reversed, orderBy, toSelect, toSelect]
  refine .step fun items _ => ?_
  split
  · exact .failures _
  · refine .step fun item _ => .step fun left _ => .step fun joined _ => .step fun filter? _ =>
      .step fun group _ => .step fun having? _ => ?_
    refine (order_reversed _ clauses.order joins).map fun ts us h => ⟨rfl, ?_⟩
    exact (map_eq_of_forall₂ (h.imp fun _ _ h => h.effective)).symm

theorem selectIn_reversed (q : Query) :
    FailsAlike Select.IsReversed (q.selectIn f db) (q.reversed.selectIn f db) := by
  rw [selectIn, selectIn, Context.ofQuery, Context.ofQuery, statementAliases_reversed]
  exact .step fun c _ => q.toSelect_reversed

/-- A reversed request is compiled in the same forest. -/
theorem runs_selectStatement_reversed {q q' : Query} {t : Select}
    (hq : AliasM.Runs q.qualify f q' g) (ht : q'.selectIn g db = .ok t) : ∃ t' : Select,
      AliasM.Runs (q.reversed.selectStatement db) f t'.fragment.statement g ∧ t.IsReversed t' := by
  have hrel : FailsAlike Select.IsReversed (q'.selectIn g db) (q'.reversed.selectIn g db) :=
    q'.selectIn_reversed
  rw [ht] at hrel
  generalize hx : q'.reversed.selectIn g db = x at hrel
  cases hrel with
  | @results _ t' hrel =>
    have hqualify : AliasM.Runs q.reversed.qualify f q'.reversed g := by
      rw [qualify_reversed, AliasM.runs_bind]
      exact ⟨q', g, hq, AliasM.runs_pure.2 ⟨rfl, rfl⟩⟩
    exact ⟨t', runs_selectStatement.2 ⟨t', runs_compile.2 ⟨_, hqualify, hx⟩, rfl⟩, hrel⟩

/-- The order of a selection, read off the qualified request. -/
theorem order_of_selectIn {q' : Query} {t : Select} (h : q'.selectIn g db = .ok t) :
    ∃ c, Context.ofQuery g db q' = .ok c ∧
      t.order = (q'.flagged []).map fun l => l.resolved.mapOwners (q'.scope c).written := by
  obtain ⟨c, hc, ht⟩ := selectIn_eq_ok.1 h
  obtain ⟨⟨own, sites, hw⟩, -⟩ := toSelect_isWritten ht
  refine ⟨c, hc, ?_⟩
  have hterms : t.order = q'.fullOrder.terms.map (·.mapOwners (q'.scope c).written) :=
    eq_map_of_mapM_eq_ok (fun _ _ => SortTerm.eq_mapOwners fun _ _ => Scope.eq_written) hw.order
  rw [hterms, terms_fullOrder, List.map_map]
  rfl

/-- **What a request sorts by, and in which directions.** The terms of its statement are those of
its own order and of its joins' orders, depth first, and each is reversed when an odd number of the
flags on its path are set; they are read back from behind `ORDER BY`. The reversed request has the
same statement with the words for the opposite directions behind all terms, and reversing it again
has the statement of the request. An order behind another one has the terms of both, a qualified
order the qualified terms, and an empty order none. -/
theorem selectStatement_directions (q : Query) (db : Schema) :
    (∀ {f g st}, AliasM.Runs (q.selectStatement db) f st g → ∃ (t t' : Select) (q' : Query)
      (c : Context) (w w' : WrittenSelect), st = t.fragment.statement ∧
      AliasM.Runs q.qualify f q' g ∧ Context.ofQuery g db q' = .ok c ∧
      t.order = (q'.flagged []).map (fun l => l.resolved.mapOwners (q'.scope c).written) ∧
      t.bareOrder = (q.flagged []).map (·.resolved.bare) ∧ t.fragment = w.chunks ∧
      List.Forall₂ (fun l => l.resolved.IsReadFrom (q'.scope c).written) (q'.flagged []) w.order ∧
      AliasM.Runs (q.reversed.selectStatement db) f t'.fragment.statement g ∧
      t' = { t with order := t'.order } ∧
      t'.order.map (·.effective) = t.order.map (·.reverse.effective) ∧
      t'.fragment = w'.chunks ∧ w.IsReversed w') ∧
    q.reversed.reversed.selectStatement db = q.selectStatement db ∧
    ∀ (o p : SortOrder) (owner : Alias), (o.followedBy p).terms = o.terms ++ p.terms ∧
      (o.qualified owner).terms = o.terms.map (·.qualified owner) ∧
      (o.isEmpty = true ↔ o.terms = []) := by
  refine ⟨fun {f g st} h => ?_, congrArg (·.selectStatement db) q.reversed_reversed,
    fun o p owner => ⟨o.terms_followedBy p, o.termsUnder_qualified owner false,
      SortOrder.isEmpty_iff⟩⟩
  obtain ⟨t, ht, rfl⟩ := runs_selectStatement.1 h
  obtain ⟨q', hq, ht⟩ := runs_compile.1 ht
  obtain ⟨c, hc, horder⟩ := order_of_selectIn ht
  obtain ⟨t', hruns, hreversed⟩ := runs_selectStatement_reversed hq ht
  have hbare : q'.fullOrder.terms.map (·.bare) = q.fullOrder.terms.map (·.bare) :=
    QualifiedUpTo.bare_termsUnder false q (q.qualify_qualified hq)
  have hwritten : List.Forall₂ (fun l => l.resolved.IsReadFrom (q'.scope c).written)
      (q'.flagged []) t.written.order := by
    rw [Select.written, horder, List.map_map]
    exact forall₂_map (fun l => l.resolved.isReadFrom _) _
  refine ⟨t, t', q', c, t.written, t'.written, rfl, hq, hc, horder, ?_, t.fragment_eq_chunks,
    hwritten, hruns, hreversed.others, hreversed.order, t'.fragment_eq_chunks, hreversed.written⟩
  rw [terms_fullOrder, terms_fullOrder, List.map_map, List.map_map] at hbare
  rw [Select.bareOrder, horder, List.map_map]
  simp only [Function.comp_def, SortTerm.bare_mapOwners] at hbare ⊢
  exact hbare

/-- The books by the numbers of their authors have no terms of their own, but the flag of their
order reverses those of the authors. -/
theorem selectStatement_directions_books : ∃ (st st' : Statement) (g : Forest) (t t' : Select)
    (w w' : WrittenSelect),
    AliasM.Runs (booksByAuthorReversed.selectStatement bookCatalog.schema) .empty st g ∧
    st = ⟨"SELECT \x22book\x22.*, \x22author\x22.* FROM \x22book\x22 " ++
      "JOIN \x22author\x22 ON \x22author\x22.\x22id\x22 = \x22book\x22.\x22authorId\x22 " ++
      "ORDER BY \x22author\x22.\x22id\x22 DESC", []⟩ ∧
    st = t.fragment.statement ∧ t.fragment = w.chunks ∧
    t.bareOrder = [⟨.column "id" none, .desc⟩] ∧
    AliasM.Runs (booksByAuthorReversed.reversed.selectStatement bookCatalog.schema) .empty st' g ∧
    st' = ⟨"SELECT \x22book\x22.*, \x22author\x22.* FROM \x22book\x22 " ++
      "JOIN \x22author\x22 ON \x22author\x22.\x22id\x22 = \x22book\x22.\x22authorId\x22 " ++
      "ORDER BY \x22author\x22.\x22id\x22", []⟩ ∧
    st' = t'.fragment.statement ∧ t'.fragment = w'.chunks ∧ w.IsReversed w' := by
  have h : AliasM.Runs (booksByAuthorReversed.selectStatement bookCatalog.schema) .empty _ _ := rfl
  have h' : AliasM.Runs (booksByAuthorReversed.reversed.selectStatement bookCatalog.schema) .empty _
    _ := rfl
  obtain ⟨t, t', q', c, w, w', hst, -, -, -, hbare, hw, -, hreversed, -, -, hw', horder⟩ :=
    (selectStatement_directions booksByAuthorReversed bookCatalog.schema).1 h
  have hflagged : (booksByAuthorReversed.flagged []).map (·.resolved.bare) =
      [⟨.column "id" none, .desc⟩] := rfl
  obtain ⟨hst', -⟩ := AliasM.Runs.unique h' hreversed
  exact ⟨_, _, _, t, t', w, w', h, rfl, hst, hw, hbare.trans hflagged, h', rfl, hst', hw', horder⟩

end Query

end SqlTree
