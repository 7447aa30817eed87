import SqlTree.Proofs.Query.LateMerge
import SqlTree.Query.Key

/-!
# Derivations

A request is derived from another one by steps. They can be taken before the other one is qualified,
and they can be taken after, which is too late for them: the request that comes out passes for
qualified, and what the steps brought along is not.

* `Derivation` is a step, and `Query.derive` takes several.
* `Query.Trails`: the one request is what late steps give where the other one is what the same steps
  give in time. Each step keeps this up or fails both times (`Derivation.apply_trails`), and so do
  several (`Query.derive_trails`).
* `Query.Extends`: what late steps do to the sources. A join under a new key brings a source that is
  no occurrence and never becomes one.
-/

namespace SqlTree

/-! ## Steps -/

/-- A step by which a request is derived from another one. A condition or a group that does not
depend on the schema is a constant one, and an association is joined as its join under its key. -/
inductive Derivation where
  | select (items : List (SelectItem Alias))
  | selectMore (items : List (SelectItem Alias))
  | filterBy (condition : Lookup (Expr Alias))
  | filterByPrimaryKey (values : List Value)
  | filterByUniqueKey (key : List (String × Value))
  | groupBy (expressions : Lookup (List (Expr Alias)))
  | having (condition : Expr Alias)
  | order (terms : List (SortTerm Alias))
  | withJoin (key : String) (join : Join)

namespace Derivation

/-- The request that a step gives. -/
def apply (q : Query) : Derivation → AliasM Query
  | select items => return q.select items
  | selectMore items => return q.selectMore items
  | filterBy condition => return q.filterBy condition
  | filterByPrimaryKey values => return q.filterByPrimaryKey values
  | filterByUniqueKey key => return q.filterByUniqueKey key
  | groupBy expressions => return q.groupBy expressions
  | having condition => return q.having condition
  | order terms => return q.order terms
  | withJoin key join => q.withJoin key join

/-- The key of the join that a step brings. -/
def joinKeys : Derivation → List String
  | withJoin key _ => [key]
  | _ => []

/-- In the join that a step brings nothing was qualified, and no source is an occurrence. -/
def IsUnnamed : Derivation → Prop
  | withJoin _ join => join.query.Everywhere Query.IsUnnamed
  | _ => True

end Derivation

/-- The request that steps give, one after the other. -/
def Query.derive (ds : List Derivation) (q : Query) : AliasM Query :=
  ds.foldlM (fun q d => d.apply q) q

/-! ## Steps on clauses -/

/-- A change of clauses that can be made, in another way, after they were given an occurrence. -/
def Clauses.QualifiesLate (m : Clauses → Clauses) : Prop :=
  ∀ owner, ∃ m' : Clauses → Clauses, ∀ c, (m c).qualified owner = m' (c.qualified owner)

namespace Clauses.QualifiesLate

/-- Columns that were given the occurrence before the change need not be given it again. -/
theorem qualified_eq {m : Clauses → Clauses} (hm : QualifiesLate m) {owner : Alias}
    {c c' : Clauses} (h : c'.qualified owner = c.qualified owner) :
    (m c').qualified owner = (m c).qualified owner := by
  obtain ⟨m', hm'⟩ := hm owner
  rw [hm', hm', h]

theorem select (items : List (SelectItem Alias)) :
    QualifiesLate fun c => { c with selection := items } :=
  fun owner =>
    ⟨fun c => { c with selection := items.map (·.qualified owner) }, fun _ => rfl⟩

theorem selectMore (items : List (SelectItem Alias)) :
    QualifiesLate fun c => { c with selection := c.selection ++ items } := by
  refine fun owner =>
    ⟨fun c => { c with selection := c.selection ++ items.map (·.qualified owner) }, fun c => ?_⟩
  simp only [qualified, List.map_append]

theorem filterBy (condition : Lookup (Expr Alias)) :
    QualifiesLate fun c =>
      { c with filter? := mergeWith (.zipWith .and) c.filter? (some condition) } := by
  refine fun owner => ⟨fun c => { c with
    filter? := mergeWith (.zipWith .and) c.filter? (some (condition.map (.qualified owner))) },
    fun c => ?_⟩
  have hfilter := map_mergeWith (Lookup.map_zipWith (Expr.qualified_and owner)) c.filter?
    (some condition)
  simp only [qualified, hfilter, Option.map_some]

theorem groupBy (expressions : Lookup (List (Expr Alias))) :
    QualifiesLate fun c => { c with group? := some expressions } :=
  fun owner =>
    ⟨fun c => { c with group? := some (expressions.map (·.map (·.qualified owner))) },
      fun _ => rfl⟩

theorem having (condition : Expr Alias) :
    QualifiesLate fun c => { c with having? := mergeWith .and c.having? (some condition) } := by
  refine fun owner => ⟨fun c => { c with
    having? := mergeWith .and c.having? (some (condition.qualified owner)) }, fun c => ?_⟩
  have hhaving := map_mergeWith (Expr.qualified_and owner) c.having? (some condition)
  simp only [qualified, hhaving, Option.map_some]

theorem order (o : SortOrder) : QualifiesLate fun c => { c with order := o } :=
  fun owner => ⟨fun c => { c with order := o.qualified owner }, fun _ => rfl⟩

end Clauses.QualifiesLate

section

variable {s s' : Source}

theorem Source.primaryKeyFilter_congr (h : s'.tableName? = s.tableName?) (values : List Value) :
    s'.primaryKeyFilter values = s.primaryKeyFilter values := by
  simp only [primaryKeyFilter, keyTable, h]

theorem Source.uniqueKeyFilter_congr (h : s'.tableName? = s.tableName?)
    (key : List (String × Value)) : s'.uniqueKeyFilter key = s.uniqueKeyFilter key := by
  simp only [uniqueKeyFilter, keyTable, h]

end

theorem Query.filterBy_eq (q : Query) (condition : Lookup (Expr Alias)) :
    q.filterBy condition = { q with clauses :=
      { q.clauses with
        filter? := mergeWith (.zipWith .and) q.clauses.filter? (some condition) } } := by
  rw [filterBy]
  cases q.clauses.filter? <;> rfl

theorem Query.having_eq (q : Query) (condition : Expr Alias) :
    q.having condition = { q with clauses :=
      { q.clauses with having? := mergeWith .and q.clauses.having? (some condition) } } := by
  rw [having]
  cases q.clauses.having? <;> rfl

/-- A step changes the clauses, in a way that depends on the table at most, or brings a join. -/
theorem Derivation.changes_or_joins (d : Derivation) (s : Source) :
    (d.joinKeys = [] ∧ ∃ m, Clauses.QualifiesLate m ∧
      ∀ q : Query, q.source.tableName? = s.tableName? →
        d.apply q = pure { q with clauses := m q.clauses }) ∨
      ∃ key join, d = .withJoin key join := by
  cases d with
  | select items => exact .inl ⟨rfl, _, .select items, fun _ _ => rfl⟩
  | selectMore items => exact .inl ⟨rfl, _, .selectMore items, fun _ _ => rfl⟩
  | filterBy condition =>
    exact .inl ⟨rfl, _, .filterBy condition, fun q _ => congrArg pure (q.filterBy_eq condition)⟩
  | filterByPrimaryKey values =>
    refine .inl ⟨rfl, _, .filterBy (s.primaryKeyFilter (values.filter (!·.isNull))),
      fun q hq => congrArg pure ?_⟩
    rw [Query.filterByPrimaryKey, Source.primaryKeyFilter_congr hq, Query.filterBy_eq]
  | filterByUniqueKey key =>
    refine .inl ⟨rfl, _, .filterBy (s.uniqueKeyFilter key), fun q hq => congrArg pure ?_⟩
    rw [Query.filterByUniqueKey, Source.uniqueKeyFilter_congr hq, Query.filterBy_eq]
  | groupBy expressions => exact .inl ⟨rfl, _, .groupBy expressions, fun _ _ => rfl⟩
  | having condition =>
    exact .inl ⟨rfl, _, .having condition, fun q _ => congrArg pure (q.having_eq condition)⟩
  | order terms => exact .inl ⟨rfl, _, .order (.ofTerms terms), fun _ _ => rfl⟩
  | withJoin key join => exact .inr ⟨key, join, rfl⟩

/-! ## Late steps -/

/-- The request `late` is what steps give after qualifying where `q` is what they give before: it
reads from the same tables, passes for qualified, and where all its sources are occurrences, only
the occurrences of columns are left to be given. -/
structure Query.Trails (f g : Forest) (q late : Query) : Prop where
  unnamed : q.Everywhere IsUnnamed
  sameTables : q.SameTables late
  isQualified : late.isQualified = true
  catchesUp : late.HasOccurrences → q.CatchesUp f g late

/-- What comes of the sources of a request by steps that bring joins under `keys`: none becomes an
occurrence, and where all are occurrences in the end, the joins are under the keys there were. -/
structure Query.Extends (keys : List String) (q q' : Query) : Prop where
  keeps : keys = [] → q.HasOccurrences → q'.HasOccurrences
  hasOccurrences : q'.HasOccurrences → q.HasOccurrences
  keys_eq : q'.HasOccurrences → q'.joins.map (·.key) = q.joins.map (·.key)
  mem_keys : q'.HasOccurrences → ∀ key ∈ keys, key ∈ q.joins.map (·.key)

theorem Query.SameTables.joins {q q' : Query} (h : q.SameTables q') :
    List.Forall₂ (Join.Related Query.SameTables) q.joins q'.joins := by
  cases h with
  | mk _ hjoins => exact JoinsSameTables.iff_forall₂.1 hjoins

theorem Query.SameTables.tableName? {q q' : Query} (h : q.SameTables q') :
    q'.source.tableName? = q.source.tableName? := by
  cases h with
  | mk htable _ => exact htable

theorem Query.hasOccurrences_change (q : Query) (c : Clauses) :
    Query.HasOccurrences { q with clauses := c } ↔ q.HasOccurrences := by
  rw [hasOccurrences_iff, hasOccurrences_iff q]

section

variable {f g : Forest} {q late : Query}

theorem Query.Trails.change {m : Clauses → Clauses} (h : q.Trails f g late)
    (hm : Clauses.QualifiesLate m) :
    Query.Trails f g { q with clauses := m q.clauses } { late with clauses := m late.clauses } where
  unnamed := ⟨h.unnamed.self, h.unnamed.source, h.unnamed.joins⟩
  sameTables := .mk h.sameTables.tableName? (JoinsSameTables.iff_forall₂.2 h.sameTables.joins)
  isQualified := h.isQualified
  catchesUp hlate := by
    obtain ⟨e, hsource, hclauses, hjoins⟩ := (Query.catchesUp_iff h.unnamed.self).1
      (h.catchesUp ((late.hasOccurrences_change _).1 hlate))
    have hunnamed : Query.IsUnnamed { q with clauses := m q.clauses } := h.unnamed.self
    exact (Query.catchesUp_iff hunnamed).2 ⟨e, hsource, hm.qualified_eq hclauses, hjoins⟩

theorem Query.extends_change (late : Query) (c : Clauses) :
    Query.Extends [] late { late with clauses := c } where
  keeps _ := (late.hasOccurrences_change c).2
  hasOccurrences := (late.hasOccurrences_change c).1
  keys_eq _ := rfl
  mem_keys _ _ hkey := absurd hkey List.not_mem_nil

/-- Late joins trail joins that were brought in time. -/
theorem Query.Trails.join {j : Join} {joins late' : List Join} {e e' h h' : Forest}
    (hq : q.Trails f g late) (hj : j.query.Everywhere IsUnnamed)
    (hjoins : UnifyM.Runs (mergeJoins q.joins [j]) e joins e')
    (hlate : UnifyM.Runs (mergeJoins late.joins [j]) h late' h')
    (hrel : List.Forall₂ (Join.Related Query.SameTables) joins late') :
    Query.Trails f g { q with joins := joins } { late with joins := late' } := by
  have hmore : joinsEverywhere Query.IsUnnamed [j] := ⟨joinEverywhere_iff.2 hj, trivial⟩
  have hmine := joinsEverywhere_iff.1 hq.unnamed.joins
  have hmerged := mergeJoins_isUnnamed [j] hmine hmore hjoins
  refine ⟨⟨hq.unnamed.self, hq.unnamed.source, joinsEverywhere_iff.2 hmerged⟩,
    .mk hq.sameTables.tableName? (JoinsSameTables.iff_forall₂.2 hrel), hq.isQualified,
    fun hoccurs => ?_⟩
  obtain ⟨hown, hall⟩ := (Query.hasOccurrences_iff _).1 hoccurs
  have hbefore := mergeJoins_hasOccurrences [j] hmore hlate hall
  obtain ⟨i, hsource, hclauses, hup⟩ := (Query.catchesUp_iff hq.unnamed.self).1
    (hq.catchesUp (late.hasOccurrences_iff.2 ⟨hown, hbefore⟩))
  have hunnamed : Query.IsUnnamed { q with joins := joins } := hq.unnamed.self
  exact (Query.catchesUp_iff hunnamed).2
    ⟨i, hsource, hclauses, mergeJoins_catchUp [j] hmine hmore hup hjoins hlate hall⟩

theorem Query.extends_join {j : Join} {joins : List Join} {h h' : Forest}
    (hj : j.query.Everywhere IsUnnamed)
    (hjoins : UnifyM.Runs (mergeJoins late.joins [j]) h joins h') :
    Query.Extends [j.key] late { late with joins := joins } := by
  have hmore : joinsEverywhere Query.IsUnnamed [j] := ⟨joinEverywhere_iff.2 hj, trivial⟩
  have hkeys : (∀ k ∈ joins, k.query.HasOccurrences) →
      joins.map (·.key) = late.joins.map (·.key) ∧ j.key ∈ late.joins.map (·.key) := by
    intro hall
    rw [mergeJoins] at hjoins
    split at hjoins
    · -- The join is under a new key, and its source is no occurrence.
      rw [mergeJoins, UnifyM.runs_pure] at hjoins
      have hown := (j.query.hasOccurrences_iff.1 (hall j (by simp [hjoins.1]))).1
      rw [hj.self.2] at hown
      cases hown
    · rename_i k hk
      simp only [mergeJoins, UnifyM.runs_bind, UnifyM.runs_pure] at hjoins
      obtain ⟨m, e, -, rfl, -⟩ := hjoins
      rw [Join.map_key_replace]
      exact ⟨rfl, List.mem_map.2 ⟨k, List.mem_of_find?_eq_some hk, Join.key_of_find? hk⟩⟩
  refine ⟨fun hnil => absurd hnil (List.cons_ne_nil _ _), fun hoccurs => ?_, fun hoccurs => ?_,
    fun hoccurs key hkey => ?_⟩
  · obtain ⟨hown, hall⟩ := (hasOccurrences_iff _).1 hoccurs
    exact late.hasOccurrences_iff.2 ⟨hown, mergeJoins_hasOccurrences [j] hmore hjoins hall⟩
  · exact (hkeys ((hasOccurrences_iff _).1 hoccurs).2).1
  · obtain rfl := List.mem_singleton.1 hkey
    exact (hkeys ((hasOccurrences_iff _).1 hoccurs).2).2

/-- A join that can't be brought is under an ambiguous key. -/
theorem Query.withJoin_fails {key : String} {join : Join}
    (h : ¬ ∃ joins g, UnifyM.Runs (mergeJoins q.joins [{ join with key := key }]) f joins g) :
    (q.withJoin key join).outcome f = .error (.clashingJoins key) :=
  AliasM.outcome_bind_of_error ((UnifyM.runs_or_outcome_orError _ _ f).resolve_left h) _

/-- **A step keeps what late steps give trailing, or fails for one reason both times.** -/
theorem Derivation.apply_trails (d : Derivation) (h : q.Trails f g late) (hd : d.IsUnnamed) :
    (∃ key, (d.apply q).outcome f = .error (.clashingJoins key) ∧
      (d.apply late).outcome g = .error (.clashingJoins key)) ∨
    ∃ q' late', AliasM.Runs (d.apply q) f q' f ∧ AliasM.Runs (d.apply late) g late' g ∧
      q'.Trails f g late' ∧ Query.Extends d.joinKeys late late' := by
  rcases d.changes_or_joins q.source with ⟨hkeys, m, hm, happly⟩ | ⟨key, join, rfl⟩
  · refine .inr ⟨_, _, ?_, ?_, h.change hm, hkeys ▸ late.extends_change _⟩
    · rw [happly q rfl, AliasM.runs_pure]
      exact ⟨rfl, rfl⟩
    · rw [happly late h.sameTables.tableName?, AliasM.runs_pure]
      exact ⟨rfl, rfl⟩
  · have hj : Query.Everywhere Query.IsUnnamed { join with key := key }.query := hd
    have hmore : joinsEverywhere Query.IsUnnamed [{ join with key := key }] :=
      ⟨joinEverywhere_iff.2 hj, trivial⟩
    by_cases hruns : ∃ joins e,
        UnifyM.Runs (mergeJoins q.joins [{ join with key := key }]) f joins e
    · obtain ⟨joins, e, hjoins⟩ := hruns
      obtain ⟨rfl, late', hlate, hall⟩ := mergeJoins_unnamed _ hmore h.sameTables.joins hjoins
      exact .inr ⟨_, _, Query.runs_withJoin.2 ⟨joins, hjoins, rfl⟩,
        Query.runs_withJoin.2 ⟨late', hlate g, rfl⟩, h.join hj hjoins (hlate g) hall,
        Query.extends_join hj (hlate g)⟩
    · refine .inl ⟨key, Query.withJoin_fails hruns, Query.withJoin_fails ?_⟩
      rintro ⟨late', e, hlate⟩
      obtain ⟨-, joins, hjoins, -⟩ := mergeJoins_unnamed _ hmore h.sameTables.symm.joins hlate
      exact hruns ⟨joins, f, hjoins f⟩

/-! ## Several steps -/

theorem Query.Extends.refl (q : Query) : Query.Extends [] q q :=
  ⟨fun _ => id, id, fun _ => rfl, fun _ _ hkey => absurd hkey List.not_mem_nil⟩

theorem Query.Extends.trans {keys keys' : List String} {q q' q'' : Query}
    (h : Query.Extends keys q q') (h' : Query.Extends keys' q' q'') :
    Query.Extends (keys ++ keys') q q'' where
  keeps hnil hq := by
    obtain ⟨hkeys, hkeys'⟩ := List.append_eq_nil_iff.1 hnil
    exact h'.keeps hkeys' (h.keeps hkeys hq)
  hasOccurrences hq := h.hasOccurrences (h'.hasOccurrences hq)
  keys_eq hq := (h'.keys_eq hq).trans (h.keys_eq (h'.hasOccurrences hq))
  mem_keys hq key hkey := by
    have hbefore := h'.hasOccurrences hq
    rcases List.mem_append.1 hkey with hkey | hkey
    · exact h.mem_keys hbefore key hkey
    · exact h.keys_eq hbefore ▸ h'.mem_keys hq key hkey

/-- **Late steps trail the same steps in time, or one of them fails both times.** -/
theorem Query.derive_trails {ds : List Derivation} (hds : ∀ d ∈ ds, d.IsUnnamed)
    (h : q.Trails f g late) :
    (∃ key, (q.derive ds).outcome f = .error (.clashingJoins key) ∧
      (late.derive ds).outcome g = .error (.clashingJoins key)) ∨
    ∃ q' late', AliasM.Runs (q.derive ds) f q' f ∧ AliasM.Runs (late.derive ds) g late' g ∧
      q'.Trails f g late' ∧ Query.Extends (ds.flatMap (·.joinKeys)) late late' := by
  induction ds generalizing q late with
  | nil => exact .inr ⟨q, late, by simp [derive], by simp [derive], h, .refl late⟩
  | cons d ds ih =>
    obtain ⟨hd, hds⟩ := List.forall_mem_cons.1 hds
    have hcons : ∀ p : Query, p.derive (d :: ds) = d.apply p >>= (·.derive ds) := fun _ => rfl
    rw [hcons, hcons]
    rcases d.apply_trails h hd with ⟨key, hearly, hlate⟩ | ⟨q₁, late₁, hearly, hlate, hq₁, hextends⟩
    · exact .inl ⟨key, AliasM.outcome_bind_of_error hearly _, AliasM.outcome_bind_of_error hlate _⟩
    · rw [hearly.outcome_bind, hlate.outcome_bind]
      rcases ih hds hq₁ with hfails | ⟨q', late', hruns, hruns', hq', hextends'⟩
      · exact .inl hfails
      · refine .inr ⟨q', late', ?_, ?_, hq', hextends.trans hextends'⟩
        · exact AliasM.runs_bind.2 ⟨q₁, f, hearly, hruns⟩
        · exact AliasM.runs_bind.2 ⟨late₁, g, hlate, hruns'⟩

end

/-! ## Qualified requests -/

section

variable {same : Alias → Alias → Prop} {q q' : Query}

mutual

/-- Qualifying keeps the tables. -/
theorem Query.QualifiedUpTo.sameTables : ∀ {q q' : Query}, q.QualifiedUpTo same q' → q.SameTables q'
  | ⟨_, _, _, true⟩, _, .kept => .refl _
  | ⟨_, _, _, false⟩, ⟨_, _, _, _⟩, .made hsource hjoins =>
    .mk hsource.tableName?_eq (JoinsQualifiedUpTo.sameTables hjoins)

theorem JoinsQualifiedUpTo.sameTables : ∀ {joins joins' : List Join},
    JoinsQualifiedUpTo same joins joins' → JoinsSameTables joins joins'
  | [], _, .nil => .nil
  | ⟨_, _, _, _, _⟩ :: _, _, .cons hquery hrest =>
    .cons (Query.QualifiedUpTo.sameTables hquery) (JoinsQualifiedUpTo.sameTables hrest)

end

theorem Query.QualifiedUpTo.isQualified (h : q.QualifiedUpTo same q') : q'.isQualified = true := by
  cases h <;> rfl

/-- The sources of a qualified request are occurrences. -/
theorem Query.QualifiedUpTo.hasOccurrences (h : q.QualifiedUpTo same q')
    (hq : q.Everywhere IsUnnamed) : q'.HasOccurrences := by
  have hfalse : ∀ n, IsUnnamed n → n.isQualified = false := fun _ hn => hn.1
  intro n' hn'
  obtain ⟨n, -, hn⟩ :=
    exists_of_forall₂ ((BecomesAll.keepsShape hfalse).nodes ⟨hq, h⟩).flip hn'
  obtain ⟨owner, hmade⟩ := hn.made hfalse
  rw [hmade.source.alias?_eq]
  rfl

/-- A qualified request trails the request. -/
theorem Query.trails_of_qualify {f g : Forest} (hq : q.Everywhere IsUnnamed)
    (h : AliasM.Runs q.qualify f q' g) : q.Trails f g q' := by
  have hqualified := q.qualify_qualified h
  refine ⟨hq, hqualified.sameTables, hqualified.isQualified, fun _ => ?_⟩
  rwa [CatchesUp, hqualified.completed_eq hq]

end

end SqlTree
