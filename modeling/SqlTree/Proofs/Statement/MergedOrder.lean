import SqlTree.Proofs.Query.Count
import SqlTree.Proofs.Query.MergedLinks

/-!
# Directions of a merged request

Merging puts the order of the second request behind that of the first, and the orders of its joins
behind those of the first request's joins. A request's own order keeps its directions. What its
joins sort by is under the flag of its own order, and that flag is not the merged request's: it is dropped
where the own order has no terms, and stays with the own terms where both orders have some.

* `Query.runs_selectStatement_bareOrder`: the terms that a request is written with are those of its
  own order and, under the flag of that order, those of its joins' orders.
* `Query.mergedOrder_keepsDirections_iff` compares the terms of a merged request with those of the
  two it is merged from: they are the same terms, and all have the directions they had just when
  the joins that sort by anything are under the flag they were under.
-/

namespace SqlTree

/-! ## Terms without names -/

namespace Expr

variable {ρ σ τ : Type} (g : Option ρ → Option σ) (h : Option σ → Option τ)

mutual

theorem mapOwners_mapOwners : ∀ e : Expr ρ,
    (e.mapOwners g).mapOwners h = e.mapOwners fun o => h (g o)
  | column name owner? => rfl
  | value v => rfl
  | verbatim text arguments => rfl
  | binary op lhs rhs => by
    rw [mapOwners, mapOwners, mapOwners, mapOwners_mapOwners lhs, mapOwners_mapOwners rhs]
  | conj terms => by rw [mapOwners, mapOwners, mapOwners, mapOwnersList_mapOwnersList terms]
  | disj terms => by rw [mapOwners, mapOwners, mapOwners, mapOwnersList_mapOwnersList terms]
  | neg e => by rw [mapOwners, mapOwners, mapOwners, mapOwners_mapOwners e]
  | member e [] negated => rfl
  | member e (item :: items) negated => by
    rw [mapOwners, mapOwners, mapOwners, mapOwners_mapOwners e, mapOwners_mapOwners item,
      mapOwnersList_mapOwnersList items]
  | call name arguments => by
    rw [mapOwners, mapOwners, mapOwners, mapOwnersList_mapOwnersList arguments]
  | countAll => rfl
  | countDistinct e => by rw [mapOwners, mapOwners, mapOwners, mapOwners_mapOwners e]

theorem mapOwnersList_mapOwnersList : ∀ es : List (Expr ρ),
    mapOwnersList h (mapOwnersList g es) = mapOwnersList (fun o => h (g o)) es
  | [] => rfl
  | e :: rest => by
    rw [mapOwnersList, mapOwnersList, mapOwnersList, mapOwners_mapOwners e,
      mapOwnersList_mapOwnersList rest]

end

end Expr

section

variable {ρ : Type}

/-- The term with nothing in front of its columns. -/
def SortTerm.bare (t : SortTerm ρ) : SortTerm String := t.mapOwners fun _ => none

theorem SortTerm.bare_mapOwners {σ : Type} (g : Option ρ → Option σ) (t : SortTerm ρ) :
    (t.mapOwners g).bare = t.bare := by
  rw [bare, bare, mapOwners, mapOwners, mapOwners, Expr.mapOwners_mapOwners]

theorem SortTerm.bare_qualified (owner : ρ) (t : SortTerm ρ) :
    (t.qualified owner).bare = t.bare := by
  rw [bare, bare, qualified, mapOwners, mapOwners, Expr.mapOwners_qualified]

theorem SortTerm.Opposes.bare {t u : SortTerm ρ} (h : t.Opposes u) : t.bare.Opposes u.bare := by
  rcases h with rfl | rfl
  · exact .inl rfl
  · exact .inr rfl

end

/-- The terms of a selection's order, with nothing in front of their columns. -/
def Select.bareOrder (t : Select) : List (SortTerm String) := t.order.map (·.bare)

namespace Query

/-! ## Own terms and terms of joins -/

/-- The orders of the joins of a request, behind each other. -/
def joinedOrder (q : Query) : SortOrder := pushOrders .empty q.joins

/-- The terms that a request sorts by itself. -/
def ownTerms (q : Query) : List (SortTerm String) := q.clauses.order.terms.map (·.bare)

/-- The terms that the joins of a request sort by, reversed or not. -/
def joinedTerms (reversed : Bool) (q : Query) : List (SortTerm String) :=
  (q.joinedOrder.termsUnder reversed).map (·.bare)

end Query

/-- The orders of joins are reversed with the order that they are nested in. -/
theorem termsUnder_pushOrders (outer : Bool) (joins : List Join) (o : SortOrder) :
    (pushOrders o joins).termsUnder outer = o.termsUnder outer ++
      joins.flatMap fun j => j.query.fullOrder.termsUnder (outer ^^ o.reversed) := by
  induction joins generalizing o with
  | nil => exact (List.append_nil _).symm
  | cons j joins ih =>
    obtain ⟨key, kind, link, mergedLinks, query⟩ := j
    rw [pushOrders, ih, SortOrder.termsUnder_pushOrder, SortOrder.reversed_pushOrder, joinOrder,
      List.flatMap_cons, List.append_assoc]

theorem Query.joinedTerms_eq (reversed : Bool) (q : Query) : q.joinedTerms reversed =
    (q.joins.flatMap fun j => j.query.fullOrder.termsUnder reversed).map (·.bare) := by
  rw [joinedTerms, joinedOrder, termsUnder_pushOrders, SortOrder.empty, Bool.xor_false]
  rfl

theorem Query.bare_terms_fullOrder (q : Query) : q.fullOrder.terms.map (·.bare) =
    q.ownTerms ++ q.joinedTerms q.clauses.order.reversed := by
  obtain ⟨source, clauses, joins, isQualified⟩ := q
  rw [joinedTerms_eq, fullOrder, SortOrder.terms, termsUnder_pushOrders, List.map_append,
    Bool.false_xor]
  rfl

/-- Under the other flag joins sort by the opposite terms. -/
theorem Query.joinedTerms_opposes (reversed : Bool) (q : Query) :
    List.Forall₂ SortTerm.Opposes (q.joinedTerms reversed) (q.joinedTerms !reversed) := by
  rw [joinedTerms, joinedTerms, List.forall₂_map_left_iff, List.forall₂_map_right_iff]
  exact (SortOrder.termsUnder_opposes reversed q.joinedOrder).imp fun _ _ h => h.bare

theorem Query.length_joinedTerms (q : Query) (reversed : Bool) :
    (q.joinedTerms reversed).length = (q.joinedTerms false).length := by
  cases reversed with
  | false => rfl
  | true => exact (q.joinedTerms_opposes false).length_eq.symm

/-- The terms of joins under two flags: the same, unless the flags differ and there are any. -/
theorem Query.joinedTerms_eq_iff {q : Query} {r s : Bool} :
    q.joinedTerms r = q.joinedTerms s ↔ q.joinedTerms false = [] ∨ r = s := by
  by_cases hflags : r = s
  · subst hflags
    simp
  · obtain rfl : s = !r := by
      cases r <;> cases s <;> simp_all
    have hopposes := q.joinedTerms_opposes r
    have hempty : q.joinedTerms r = [] ↔ q.joinedTerms false = [] := by
      rw [← List.length_eq_zero_iff, ← List.length_eq_zero_iff, q.length_joinedTerms]
    rw [or_iff_left hflags, ← hempty]
    generalize q.joinedTerms r = ts at hopposes
    generalize q.joinedTerms (!r) = us at hopposes
    cases hopposes with
    | nil => simp
    | cons h _ => simp [h.ne]

/-! ## Written terms -/

mutual

/-- Qualifying a request changes its terms only by what is in front of columns. -/
theorem Query.QualifiedUpTo.bare_termsUnder {same : Alias → Alias → Prop} (outer : Bool) :
    ∀ (q : Query) {q' : Query}, q.QualifiedUpTo same q' →
      (q'.fullOrder.termsUnder outer).map (·.bare) = (q.fullOrder.termsUnder outer).map (·.bare)
  | ⟨source, clauses, joins, _⟩, q', h => by
    cases h with
    | kept => rfl
    | @made owner _ source' _ _ joins' _ hjoins =>
      have hown : (((clauses.qualified owner).order).termsUnder outer).map (·.bare) =
          (clauses.order.termsUnder outer).map (·.bare) := by
        rw [Clauses.qualified, SortOrder.termsUnder_qualified, List.map_map]
        exact List.map_congr_left fun t _ => t.bare_qualified owner
      have hreversed : (clauses.qualified owner).order.reversed = clauses.order.reversed := by
        rw [Clauses.qualified]
        cases clauses.order
        rfl
      rw [Query.fullOrder, Query.fullOrder, termsUnder_pushOrders, termsUnder_pushOrders,
        List.map_append, List.map_append, hown, hreversed,
        JoinsQualifiedUpTo.bare_termsUnder (outer ^^ clauses.order.reversed) joins hjoins]

theorem JoinsQualifiedUpTo.bare_termsUnder {same : Alias → Alias → Prop} (outer : Bool) :
    ∀ (joins : List Join) {joins' : List Join}, JoinsQualifiedUpTo same joins joins' →
      (joins'.flatMap fun j => j.query.fullOrder.termsUnder outer).map (·.bare) =
        (joins.flatMap fun j => j.query.fullOrder.termsUnder outer).map (·.bare)
  | [], joins', h => by
    cases h
    rfl
  | ⟨key, kind, link, mergedLinks, query⟩ :: rest, joins', h => by
    cases h with
    | cons hq hrest =>
      rw [List.flatMap_cons, List.flatMap_cons, List.map_append, List.map_append,
        Query.QualifiedUpTo.bare_termsUnder outer query hq,
        JoinsQualifiedUpTo.bare_termsUnder outer rest hrest]

end

/-- **What a request is sorted by**: the terms of its own order and, under the flag of that order,
the terms of its joins' orders. -/
theorem Query.runs_selectStatement_bareOrder {q : Query} {db : Schema} {f g : Forest}
    {st : Statement} (h : AliasM.Runs (q.selectStatement db) f st g) :
    ∃ t : Select, st = t.fragment.statement ∧
      t.bareOrder = q.ownTerms ++ q.joinedTerms q.clauses.order.reversed := by
  obtain ⟨t, ht, rfl⟩ := runs_selectStatement.1 h
  obtain ⟨q', hq', ht⟩ := runs_compile.1 ht
  obtain ⟨c, -, ht⟩ := selectIn_eq_ok.1 ht
  obtain ⟨⟨own, sites, hw⟩, -⟩ := Query.toSelect_isWritten ht
  refine ⟨t, rfl, ?_⟩
  have hterms : t.order = q'.fullOrder.terms.map (·.mapOwners (q'.scope c).written) :=
    eq_map_of_mapM_eq_ok (fun _ _ => SortTerm.eq_mapOwners fun _ _ => Scope.eq_written) hw.order
  have hbare : t.bareOrder = q'.fullOrder.terms.map (·.bare) := by
    rw [Select.bareOrder, hterms, List.map_map]
    exact List.map_congr_left fun t _ => t.bare_mapOwners _
  rw [hbare, ← bare_terms_fullOrder]
  exact Query.QualifiedUpTo.bare_termsUnder false q (q.qualify_qualified hq')

/-! ## Merging -/

/-- Joins under new keys go to the end. -/
theorem mergeJoins_of_newKeys {more mine joins : List Join} {f g : Forest}
    (hkeys : (more.map (·.key)).Nodup) (hnew : ∀ k ∈ mine, ∀ j ∈ more, k.key ≠ j.key)
    (h : UnifyM.Runs (mergeJoins mine more) f joins g) : joins = mine ++ more := by
  induction more generalizing mine with
  | nil =>
    rw [mergeJoins, UnifyM.runs_pure] at h
    rw [h.1, List.append_nil]
  | cons j rest ih =>
    obtain ⟨hj, hrest⟩ := List.nodup_cons.1 hkeys
    have hfirst : Join.find? j.key mine = none :=
      Join.find?_eq_none_iff.2 fun k hk => hnew k hk j List.mem_cons_self
    rw [mergeJoins, hfirst] at h
    rw [List.append_cons]
    refine ih hrest (fun k hk j' hj' => ?_) h
    rcases List.mem_append.1 hk with hk | hk
    · exact hnew k hk j' (List.mem_cons_of_mem j hj')
    · obtain rfl := List.mem_singleton.1 hk
      exact fun hkey => hj (List.mem_map.2 ⟨j', hj', hkey.symm⟩)

/-- **Directions of a merged request.** Two requests without a common key merge into one that sorts
by the terms of both, first their own and then those of their joins. Own terms keep their
directions. Terms of joins are under the flag of the merged request: that of the second request
where the first one sorts by nothing itself, that of the first where the second one does, and none
where both sort by something. So all terms keep their directions just when each of the two requests
has joins that sort by nothing, or the flag of the merged request. -/
theorem Query.mergedOrder_keepsDirections_iff {a b m : Query} {e e' : Forest}
    (hmerge : UnifyM.Runs (a.merge b) e m e') (hb : b.KeysDiffer)
    (hkeys : ∀ j ∈ a.joins, ∀ k ∈ b.joins, j.key ≠ k.key) {db : Schema}
    {fa ga fb gb fm gm : Forest} {sa sb sm : Statement}
    (hsa : AliasM.Runs (a.selectStatement db) fa sa ga)
    (hsb : AliasM.Runs (b.selectStatement db) fb sb gb)
    (hsm : AliasM.Runs (m.selectStatement db) fm sm gm) :
    ∃ ta tb tm : Select, sa = ta.fragment.statement ∧ sb = tb.fragment.statement ∧
      sm = tm.fragment.statement ∧
      ta.bareOrder = a.ownTerms ++ a.joinedTerms a.clauses.order.reversed ∧
      tb.bareOrder = b.ownTerms ++ b.joinedTerms b.clauses.order.reversed ∧
      tm.bareOrder = a.ownTerms ++ b.ownTerms ++
        (a.joinedTerms m.clauses.order.reversed ++ b.joinedTerms m.clauses.order.reversed) ∧
      m.clauses.order.reversed = (if a.clauses.order.isEmpty then b.clauses.order.reversed
        else if b.clauses.order.isEmpty then a.clauses.order.reversed else false) ∧
      (tm.bareOrder = a.ownTerms ++ b.ownTerms ++
          (a.joinedTerms a.clauses.order.reversed ++ b.joinedTerms b.clauses.order.reversed) ↔
        (a.joinedTerms false = [] ∨ m.clauses.order.reversed = a.clauses.order.reversed) ∧
        (b.joinedTerms false = [] ∨ m.clauses.order.reversed = b.clauses.order.reversed)) := by
  obtain ⟨ta, rfl, hta⟩ := runs_selectStatement_bareOrder hsa
  obtain ⟨tb, rfl, htb⟩ := runs_selectStatement_bareOrder hsb
  obtain ⟨tm, rfl, htm⟩ := runs_selectStatement_bareOrder hsm
  obtain ⟨source, e₁, joins, -, hjoins, rfl⟩ := merge_runs hmerge
  obtain rfl := mergeJoins_of_newKeys ((keysDiffer_iff b).1 hb).1 hkeys hjoins
  have hterms : tm.bareOrder = a.ownTerms ++ b.ownTerms ++
      (a.joinedTerms (a.clauses.order.followedBy b.clauses.order).reversed ++
        b.joinedTerms (a.clauses.order.followedBy b.clauses.order).reversed) := by
    rw [htm, joinedTerms_eq, List.flatMap_append, List.map_append, ← joinedTerms_eq,
      ← joinedTerms_eq]
    simp only [ownTerms, Clauses.merge, SortOrder.terms_followedBy, List.map_append]
  refine ⟨ta, tb, tm, rfl, rfl, rfl, hta, htb, hterms, SortOrder.reversed_followedBy _ _, ?_⟩
  rw [hterms, List.append_cancel_left_eq, ← joinedTerms_eq_iff, ← joinedTerms_eq_iff]
  constructor
  · intro h
    exact List.append_inj h (by rw [a.length_joinedTerms, ← a.length_joinedTerms])
  · rintro ⟨ha, hb⟩
    exact congrArg₂ (· ++ ·) ha hb

/-- The books by the numbers of their authors, which come last first. -/
def booksByAuthorReversed : Query :=
  let author := (Query.table "author").order [⟨.col "id", .unspecified⟩]
  Query.reversed { Query.table "book" with
    joins := [((Association.belongsTo "book" "author").withDestination author).toJoin
      .required true] }

/-- Merged with all books, which have no order, the books are no longer reversed. -/
theorem Query.mergedOrder_keepsDirections_iff_books : ∃ m sa sb sm ga gb gm ta tb tm,
    UnifyM.Runs (booksByAuthorReversed.merge (.table "book")) .empty m .empty ∧
    AliasM.Runs (booksByAuthorReversed.selectStatement bookCatalog.schema) .empty sa ga ∧
    AliasM.Runs ((Query.table "book").selectStatement bookCatalog.schema) .empty sb gb ∧
    AliasM.Runs (m.selectStatement bookCatalog.schema) .empty sm gm ∧
    sa = Fragment.statement (Select.fragment ta) ∧ sb = Fragment.statement (Select.fragment tb) ∧
    sm = Fragment.statement (Select.fragment tm) ∧
    Select.bareOrder ta = [⟨.column "id" none, .desc⟩] ∧ Select.bareOrder tb = [] ∧
    Select.bareOrder tm = [⟨.column "id" none, .unspecified⟩] := by
  obtain ⟨m, sa, sb, sm, ga, gb, gm, hmerge, hsa, hsb, hsm, hown, hjoined, hreversed⟩ :
      ∃ m sa sb sm ga gb gm,
        UnifyM.Runs (booksByAuthorReversed.merge (.table "book")) .empty m .empty ∧
        AliasM.Runs (booksByAuthorReversed.selectStatement bookCatalog.schema) .empty sa ga ∧
        AliasM.Runs ((Query.table "book").selectStatement bookCatalog.schema) .empty sb gb ∧
        AliasM.Runs (m.selectStatement bookCatalog.schema) .empty sm gm ∧
        booksByAuthorReversed.ownTerms = [] ∧
        (∀ r, booksByAuthorReversed.joinedTerms r =
          [⟨.column "id" none, if r then .desc else .unspecified⟩]) ∧
        m.clauses.order.reversed = false :=
    ⟨_, _, _, _, _, _, _, rfl, rfl, rfl, rfl, rfl, fun r => by cases r <;> rfl, rfl⟩
  obtain ⟨ta, tb, tm, hta, htb, htm, hoa, hob, hom, -⟩ :=
    Query.mergedOrder_keepsDirections_iff hmerge (Query.keysDiffer_of_joins_eq_nil rfl) nofun hsa
      hsb hsm
  refine ⟨m, sa, sb, sm, ga, gb, gm, ta, tb, tm, hmerge, hsa, hsb, hsm, hta, htb, htm, ?_, hob, ?_⟩
  · rw [hoa, hown, hjoined]
    rfl
  · rw [hom, hown, hjoined, hreversed]
    rfl

end SqlTree
