import SqlTree.Proofs.Query.Completed
import SqlTree.Proofs.Query.Levels
import SqlTree.Proofs.Query.MergedLinks

/-!
# Merging into qualified requests

A request without occurrences can be merged into another one before that is qualified or after. Both
succeed or neither does, and what comes out differs by the occurrences that columns were given.

* `Query.SameTables` is what decides whether they succeed: the tables that two requests read from
  under their keys and links, at any depth (`Query.merge_unnamed`).
* `Query.CatchesUp`: qualifying the one request gives what the other one is completed to.
  `Query.catchesUp_merge` and `mergeJoins_catchUp` are that merging keeps this up, unless a join is
  left whose source is no occurrence, which it then stays (`Query.hasOccurrences_of_merge`).
-/

namespace SqlTree

/-! ## Requests on the same tables -/

mutual

/-- Two requests read from the same tables under the same joins, at any depth. -/
inductive Query.SameTables : Query → Query → Prop
  | mk {source source' : Source} {clauses clauses' : Clauses} {joins joins' : List Join}
      {isQualified isQualified' : Bool} :
      source'.tableName? = source.tableName? → JoinsSameTables joins joins' →
        Query.SameTables ⟨source, clauses, joins, isQualified⟩
          ⟨source', clauses', joins', isQualified'⟩

/-- The same joins of requests on the same tables. -/
inductive JoinsSameTables : List Join → List Join → Prop
  | nil : JoinsSameTables [] []
  | cons {key : String} {kind : JoinKind} {link : JoinLink} {mergedLinks : List JoinLink}
      {query query' : Query} {rest rest' : List Join} :
      Query.SameTables query query' → JoinsSameTables rest rest' →
        JoinsSameTables (⟨key, kind, link, mergedLinks, query⟩ :: rest)
          (⟨key, kind, link, mergedLinks, query'⟩ :: rest')

end

mutual

theorem Query.SameTables.symm : ∀ {q q' : Query}, q.SameTables q' → q'.SameTables q
  | _, _, .mk htable hjoins => .mk htable.symm hjoins.symm

theorem JoinsSameTables.symm : ∀ {joins joins' : List Join}, JoinsSameTables joins joins' →
    JoinsSameTables joins' joins
  | _, _, .nil => .nil
  | _, _, .cons hquery hrest => .cons hquery.symm hrest.symm

end

mutual

theorem Query.SameTables.refl : ∀ q : Query, q.SameTables q
  | ⟨_, _, joins, _⟩ => .mk rfl (JoinsSameTables.refl joins)

theorem JoinsSameTables.refl : ∀ joins : List Join, JoinsSameTables joins joins
  | [] => .nil
  | ⟨_, _, _, _, query⟩ :: rest => .cons (Query.SameTables.refl query) (JoinsSameTables.refl rest)

end

theorem JoinsSameTables.iff_forall₂ {joins joins' : List Join} : JoinsSameTables joins joins' ↔
    List.Forall₂ (Join.Related Query.SameTables) joins joins' := by
  constructor
  · intro h
    induction joins generalizing joins' with
    | nil =>
      cases h
      exact .nil
    | cons j rest ih =>
      cases h with
      | cons hquery hrest => exact .cons ⟨rfl, hquery⟩ (ih hrest)
  · intro h
    induction h with
    | nil => exact .nil
    | @cons j j' rest rest' hj _ ih =>
      obtain ⟨key, kind, link, mergedLinks, query⟩ := j
      rw [hj.join]
      exact .cons hj.query ih

section

variable {R : Query → Query → Prop} {joins joins' : List Join} {j j' : Join}

theorem Join.Related.key_eq (h : j.Related R j') : j'.key = j.key := by
  rw [h.join]

/-- Under one key there are related joins, or none in either list. -/
theorem Join.find?_related (h : List.Forall₂ (Join.Related R) joins joins') (key : String) :
    Option.Rel (Join.Related R) (Join.find? key joins) (Join.find? key joins') := by
  rw [find?, find?]
  induction h with
  | nil => exact .none
  | @cons k k' rest rest' hk _ ih =>
    rw [List.find?_cons, List.find?_cons, hk.key_eq]
    cases k.key == key with
    | true => exact .some hk
    | false => exact ih

theorem Join.replace_related (h : List.Forall₂ (Join.Related R) joins joins')
    (hj : j.Related R j') :
    List.Forall₂ (Join.Related R) (j.replace joins) (j'.replace joins') := by
  induction h with
  | nil => exact .nil
  | @cons k k' rest rest' hk hrest ih =>
    rw [replace, replace, hk.key_eq, hj.key_eq]
    split
    · exact .cons hj hrest
    · exact .cons hk ih

end

/-! ## Merging without occurrences -/

/-- A source that is no occurrence is merged into one that reads from the same table, which stays as
it is. -/
theorem Source.runs_merge_unnamed {s s' t : Source} {h h' : Forest} (hs' : s'.alias? = none) :
    UnifyM.Runs (s.merge s') h t h' ↔ (∃ name name', s.tableName? = some name ∧
      s'.tableName? = some name' ∧ Text.sameName name name' = true) ∧ t = s ∧ h' = h := by
  cases s with
  | nested q alias? => simp [Source.merge, Source.tableName?]
  | table name alias? =>
    cases s' with
    | nested q alias?' => simp [Source.merge, Source.tableName?]
    | table name' alias?' =>
      obtain rfl : alias?' = none := hs'
      have hown : mergeAliases alias? none = pure alias? := by cases alias? <;> rfl
      simp only [Source.merge, hown, Source.tableName?, Option.some.injEq, exists_and_left,
        exists_eq_left']
      split <;> simp_all

mutual

/-- **Whether a request without occurrences can be merged depends on tables only.** Merging it
neither looks at occurrences nor changes any. -/
theorem Query.merge_unnamed : ∀ (b : Query) {a a' m : Query} {h h' : Forest},
    b.Everywhere Query.IsUnnamed → a.SameTables a' → UnifyM.Runs (a.merge b) h m h' →
      h' = h ∧ ∃ m', (∀ e, UnifyM.Runs (a'.merge b) e m' e) ∧ m.SameTables m'
  | ⟨source, clauses, joins, isQualified⟩, a, a', m, h, h', hb, hrel, hruns => by
    obtain ⟨source', e, joins', hsource, hjoins, rfl⟩ := Query.merge_runs hruns
    cases hrel with
    | @mk own own' _ clauses' mine mine' _ _ htable hmine =>
      obtain ⟨htables, rfl, rfl⟩ := (Source.runs_merge_unnamed hb.self.2).1 hsource
      obtain ⟨rfl, merged, hmerged, hrel⟩ :=
        mergeJoins_unnamed joins hb.joins (JoinsSameTables.iff_forall₂.1 hmine) hjoins
      refine ⟨rfl, ⟨own', clauses'.merge clauses, merged, false⟩, fun e => ?_,
        .mk htable (JoinsSameTables.iff_forall₂.2 hrel)⟩
      simp only [Query.merge, UnifyM.runs_bind, UnifyM.runs_pure]
      refine ⟨own', e, ?_, merged, e, hmerged e, rfl, rfl⟩
      rw [← htable] at htables
      exact (Source.runs_merge_unnamed hb.self.2).2 ⟨htables, rfl, rfl⟩
termination_by structural b => b

theorem Join.merge_unnamed : ∀ (j : Join) {k k' m : Join} {h h' : Forest},
    joinEverywhere Query.IsUnnamed j → k.Related Query.SameTables k' →
      UnifyM.Runs (k.merge j) h m h' →
        h' = h ∧ ∃ m', (∀ e, UnifyM.Runs (k'.merge j) e m' e) ∧ m.Related Query.SameTables m'
  | ⟨key, kind, link, mergedLinks, query⟩, k, k', m, h, h', hj, hrel, hruns => by
    have htables := Join.merge_sameTables hruns
    obtain ⟨q, hq, rfl⟩ := Join.merge_runs hruns
    obtain ⟨rfl, q', hq', hquery⟩ := query.merge_unnamed hj hrel.query hq
    obtain ⟨key', kind', link', mergedLinks', query'⟩ := k
    rw [hrel.join, Join.merge, if_pos htables]
    refine ⟨rfl, ⟨key', kind'.merge kind, link', _, q'⟩, fun e => ?_, rfl, hquery⟩
    simp only [UnifyM.runs_bind, UnifyM.runs_pure]
    exact ⟨q', e, hq' e, rfl, rfl⟩
termination_by structural j => j

theorem mergeJoins_unnamed : ∀ (more : List Join) {mine mine' joins : List Join} {h h' : Forest},
    joinsEverywhere Query.IsUnnamed more →
      List.Forall₂ (Join.Related Query.SameTables) mine mine' →
        UnifyM.Runs (mergeJoins mine more) h joins h' →
          h' = h ∧ ∃ joins', (∀ e, UnifyM.Runs (mergeJoins mine' more) e joins' e) ∧
            List.Forall₂ (Join.Related Query.SameTables) joins joins'
  | [], mine, mine', joins, h, h', _, hrel, hruns => by
    rw [mergeJoins, UnifyM.runs_pure] at hruns
    obtain ⟨rfl, rfl⟩ := hruns
    exact ⟨rfl, mine', fun e => by rw [mergeJoins, UnifyM.runs_pure]; exact ⟨rfl, rfl⟩, hrel⟩
  | j :: rest, mine, mine', joins, h, h', hmore, hrel, hruns => by
    have hfind := Join.find?_related hrel j.key
    rw [mergeJoins] at hruns ⊢
    revert hfind hruns
    generalize Join.find? j.key mine = k?
    generalize Join.find? j.key mine' = k?'
    intro hruns hfind
    cases hfind with
    | none =>
      have hj : j.Related Query.SameTables j := ⟨by cases j; rfl, .refl j.query⟩
      exact mergeJoins_unnamed rest hmore.2 (List.rel_append hrel (.cons hj .nil)) hruns
    | some hk =>
      simp only [UnifyM.runs_bind] at hruns ⊢
      obtain ⟨m, e, hm, hruns⟩ := hruns
      obtain ⟨rfl, m', hm', hmerged⟩ := j.merge_unnamed hmore.1 hk hm
      obtain ⟨rfl, joins', hjoins', hall⟩ :=
        mergeJoins_unnamed rest hmore.2 (Join.replace_related hrel hmerged) hruns
      exact ⟨rfl, joins', fun e => ⟨m', e, hm' e, hjoins' e⟩, hall⟩
termination_by structural more => more

end

/-! ## Clauses -/

theorem map_mergeWith {α β : Type} {combine : α → α → α} {combine' : β → β → β} {m : α → β}
    (h : ∀ a b, m (combine a b) = combine' (m a) (m b)) (a? b? : Option α) :
    (mergeWith combine a? b?).map m = mergeWith combine' (a?.map m) (b?.map m) := by
  cases a? with
  | none => rfl
  | some a =>
    cases b? with
    | none => rfl
    | some b => exact congrArg some (h a b)

/-- Clauses can be given an occurrence before they are merged or after. -/
theorem Clauses.qualified_merge (owner : Alias) (a b : Clauses) :
    (a.merge b).qualified owner = (a.qualified owner).merge (b.qualified owner) := by
  have hselection : (a.merge b).selection.map (·.qualified owner) =
      ((a.qualified owner).merge (b.qualified owner)).selection := by
    simp only [merge, qualified, List.isEmpty_map]
    split <;> rfl
  have hfilter : (a.merge b).filter?.map (Lookup.map (Expr.qualified owner)) =
      ((a.qualified owner).merge (b.qualified owner)).filter? :=
    map_mergeWith (Lookup.map_zipWith (Expr.qualified_and owner)) a.filter? b.filter?
  have hgroup : (a.merge b).group?.map (Lookup.map (List.map (Expr.qualified owner))) =
      ((a.qualified owner).merge (b.qualified owner)).group? := by
    simp only [merge, qualified]
    cases b.group? <;> rfl
  have hhaving : (a.merge b).having?.map (Expr.qualified owner) =
      ((a.qualified owner).merge (b.qualified owner)).having? :=
    map_mergeWith (Expr.qualified_and owner) a.having? b.having?
  rw [qualified, hselection, hfilter, hgroup, hhaving]
  simp only [merge, qualified, SortOrder.qualified_followedBy]

/-! ## What stays without occurrences -/

theorem Query.hasOccurrences_iff (q : Query) : q.HasOccurrences ↔
    q.source.alias?.isSome ∧ ∀ j ∈ q.joins, j.query.HasOccurrences := by
  simp only [HasOccurrences, q.nodes_eq, joinsNodes_eq_flatMap, List.forall_mem_cons,
    List.forall_mem_flatMap]

/-- What holds of all joins after one was replaced by `m` held before if it held of the replaced
one. -/
theorem Join.forall_of_replace {P : Join → Prop} {m k : Join} {joins : List Join}
    (hfind : find? m.key joins = some k) (hk : P m → P k) (h : ∀ j ∈ m.replace joins, P j) :
    ∀ j ∈ joins, P j := by
  induction joins with
  | nil => simp
  | cons j rest ih =>
    rw [find?, List.find?_cons] at hfind
    rw [replace] at h
    by_cases hkey : j.key = m.key
    · rw [if_pos hkey, List.forall_mem_cons] at h
      simp only [hkey, beq_self_eq_true, Option.some.injEq] at hfind
      rw [hfind]
      exact List.forall_mem_cons.2 ⟨hk h.1, h.2⟩
    · rw [if_neg hkey, List.forall_mem_cons] at h
      simp only [beq_eq_false_iff_ne.2 hkey] at hfind
      exact List.forall_mem_cons.2 ⟨h.1, ih hfind h.2⟩

theorem Join.mem_replace {m k : Join} {joins : List Join} (hfind : find? m.key joins = some k) :
    m ∈ m.replace joins := by
  induction joins with
  | nil => cases hfind
  | cons j rest ih =>
    rw [find?, List.find?_cons] at hfind
    rw [replace]
    by_cases hkey : j.key = m.key
    · rw [if_pos hkey]
      exact List.mem_cons_self
    · rw [if_neg hkey]
      simp only [beq_eq_false_iff_ne.2 hkey] at hfind
      exact List.mem_cons_of_mem j (ih hfind)

theorem Join.key_of_merge {k j m : Join} {h h' : Forest} (hm : UnifyM.Runs (k.merge j) h m h') :
    m.key = k.key := by
  obtain ⟨q, -, rfl⟩ := Join.merge_runs hm
  rfl

mutual

/-- Merging a request without occurrences gives none to what had none. -/
theorem Query.hasOccurrences_of_merge : ∀ (b : Query) {a m : Query} {h h' : Forest},
    b.Everywhere Query.IsUnnamed → UnifyM.Runs (a.merge b) h m h' → m.HasOccurrences →
      a.HasOccurrences
  | ⟨source, clauses, joins, isQualified⟩, a, m, h, h', hb, hruns, hm => by
    obtain ⟨source', e, joins', hsource, hjoins, rfl⟩ := Query.merge_runs hruns
    obtain ⟨-, rfl, rfl⟩ := (Source.runs_merge_unnamed hb.self.2).1 hsource
    obtain ⟨hown, hrest⟩ := (Query.hasOccurrences_iff _).1 hm
    exact a.hasOccurrences_iff.2
      ⟨hown, mergeJoins_hasOccurrences joins hb.joins hjoins hrest⟩
termination_by structural b => b

theorem Join.hasOccurrences_of_merge : ∀ (j : Join) {k m : Join} {h h' : Forest},
    joinEverywhere Query.IsUnnamed j → UnifyM.Runs (k.merge j) h m h' → m.query.HasOccurrences →
      k.query.HasOccurrences
  | ⟨key, kind, link, mergedLinks, query⟩, k, m, h, h', hj, hruns, hm => by
    obtain ⟨q, hq, rfl⟩ := Join.merge_runs hruns
    exact query.hasOccurrences_of_merge hj hq hm
termination_by structural j => j

theorem mergeJoins_hasOccurrences : ∀ (more : List Join) {mine joins : List Join}
    {h h' : Forest}, joinsEverywhere Query.IsUnnamed more →
      UnifyM.Runs (mergeJoins mine more) h joins h' → (∀ j ∈ joins, j.query.HasOccurrences) →
        ∀ j ∈ mine, j.query.HasOccurrences
  | [], mine, joins, h, h', _, hruns, hall => by
    rw [mergeJoins, UnifyM.runs_pure] at hruns
    rwa [← hruns.1]
  | j :: rest, mine, joins, h, h', hmore, hruns, hall => by
    rw [mergeJoins] at hruns
    split at hruns
    · have hrest := mergeJoins_hasOccurrences rest hmore.2 hruns hall
      exact (List.forall_mem_append.1 hrest).1
    · rename_i k hfind
      simp only [UnifyM.runs_bind] at hruns
      obtain ⟨m, e, hm, hruns⟩ := hruns
      rw [← Join.key_of_find? hfind, ← Join.key_of_merge hm] at hfind
      exact Join.forall_of_replace hfind (j.hasOccurrences_of_merge hmore.1 hm)
        (mergeJoins_hasOccurrences rest hmore.2 hruns hall)
termination_by structural more => more

end

mutual

/-- Requests without occurrences merge into one without occurrences. -/
theorem Query.merge_isUnnamed : ∀ (b : Query) {a m : Query} {h h' : Forest},
    a.Everywhere Query.IsUnnamed → b.Everywhere Query.IsUnnamed →
      UnifyM.Runs (a.merge b) h m h' → m.Everywhere Query.IsUnnamed
  | ⟨source, clauses, joins, isQualified⟩, a, m, h, h', ha, hb, hruns => by
    obtain ⟨source', e, joins', hsource, hjoins, rfl⟩ := Query.merge_runs hruns
    obtain ⟨-, rfl, rfl⟩ := (Source.runs_merge_unnamed hb.self.2).1 hsource
    refine ⟨⟨rfl, ha.self.2⟩, ha.source, joinsEverywhere_iff.2 ?_⟩
    exact mergeJoins_isUnnamed joins (joinsEverywhere_iff.1 ha.joins) hb.joins hjoins
termination_by structural b => b

theorem Join.merge_isUnnamed : ∀ (j : Join) {k m : Join} {h h' : Forest},
    k.query.Everywhere Query.IsUnnamed → joinEverywhere Query.IsUnnamed j →
      UnifyM.Runs (k.merge j) h m h' → m.query.Everywhere Query.IsUnnamed
  | ⟨key, kind, link, mergedLinks, query⟩, k, m, h, h', hk, hj, hruns => by
    obtain ⟨q, hq, rfl⟩ := Join.merge_runs hruns
    exact query.merge_isUnnamed hk hj hq
termination_by structural j => j

theorem mergeJoins_isUnnamed : ∀ (more : List Join) {mine joins : List Join} {h h' : Forest},
    (∀ j ∈ mine, j.query.Everywhere Query.IsUnnamed) → joinsEverywhere Query.IsUnnamed more →
      UnifyM.Runs (mergeJoins mine more) h joins h' →
        ∀ j ∈ joins, j.query.Everywhere Query.IsUnnamed
  | [], mine, joins, h, h', hmine, _, hruns => by
    rw [mergeJoins, UnifyM.runs_pure] at hruns
    rwa [hruns.1]
  | j :: rest, mine, joins, h, h', hmine, hmore, hruns => by
    rw [mergeJoins] at hruns
    split at hruns
    · have hj : j.query.Everywhere Query.IsUnnamed := joinEverywhere_iff.1 hmore.1
      exact mergeJoins_isUnnamed rest (List.forall_mem_append.2 ⟨hmine, by simpa using hj⟩)
        hmore.2 hruns
    · rename_i k hfind
      simp only [UnifyM.runs_bind] at hruns
      obtain ⟨m, e, hm, hruns⟩ := hruns
      have hmerged := j.merge_isUnnamed (hmine k (List.mem_of_find?_eq_some hfind)) hmore.1 hm
      exact mergeJoins_isUnnamed rest (Join.forall_replace hmine hmerged) hmore.2 hruns
termination_by structural more => more

end

/-! ## Qualifying before and after -/

/-- Qualifying `q` gives what `q'` is completed to. -/
def Query.CatchesUp (f g : Forest) (q q' : Query) : Prop := AliasM.Runs q.qualify f q'.completed g

/-- Qualifying `joins` gives what `joins'` are completed to. -/
def JoinsCatchUp (f g : Forest) (joins joins' : List Join) : Prop :=
  AliasM.Runs (qualifyJoins joins) f (joinsCompleted joins') g

section

variable {f g e : Forest}

theorem joinsCatchUp_nil_left {joins' : List Join} :
    JoinsCatchUp f g [] joins' ↔ joins' = [] ∧ g = f := by
  rw [JoinsCatchUp, qualifyJoins, AliasM.runs_pure]
  cases joins' <;> simp [joinsCompleted]

/-- Joins catch up one by one, each with all but its request unchanged. -/
theorem joinsCatchUp_cons_left {k : Join} {rest joins' : List Join} :
    JoinsCatchUp f g (k :: rest) joins' ↔ ∃ q' rest' e, joins' = { k with query := q' } :: rest' ∧
      k.query.CatchesUp f e q' ∧ JoinsCatchUp e g rest rest' := by
  obtain ⟨key, kind, link, mergedLinks, query⟩ := k
  simp only [JoinsCatchUp, Query.CatchesUp, qualifyJoins, Join.qualify, AliasM.runs_bind,
    AliasM.runs_pure]
  constructor
  · rintro ⟨_, e, ⟨query', _, hquery, rfl, rfl⟩, behind, _, hrest, hjoins, rfl⟩
    cases joins' with
    | nil => cases hjoins
    | cons k' rest' =>
      obtain ⟨key', kind', link', mergedLinks', q'⟩ := k'
      simp only [joinsCompleted, joinCompleted, List.cons.injEq, Join.mk.injEq] at hjoins
      obtain ⟨⟨rfl, rfl, rfl, rfl, rfl⟩, rfl⟩ := hjoins
      exact ⟨q', rest', e, rfl, hquery, hrest⟩
  · rintro ⟨q', rest', e, rfl, hquery, hrest⟩
    exact ⟨_, e, ⟨q'.completed, e, hquery, rfl, rfl⟩, joinsCompleted rest', g, hrest, rfl, rfl⟩

theorem JoinsCatchUp.related {joins joins' : List Join} (h : JoinsCatchUp f g joins joins') :
    List.Forall₂ (Join.Related fun q q' => ∃ e e', q.CatchesUp e e' q') joins joins' := by
  induction joins generalizing joins' f with
  | nil =>
    obtain ⟨rfl, -⟩ := joinsCatchUp_nil_left.1 h
    exact .nil
  | cons k rest ih =>
    obtain ⟨q', rest', e, rfl, hquery, hrest⟩ := joinsCatchUp_cons_left.1 h
    exact .cons ⟨rfl, f, e, hquery⟩ (ih hrest)

/-- Replacing joins under one key by joins that catch up where those do. -/
theorem JoinsCatchUp.replace {joins joins' : List Join} {m m' k k' : Join}
    (h : JoinsCatchUp f g joins joins') (hk : Join.find? m.key joins = some k)
    (hk' : Join.find? m.key joins' = some k') (hm : m' = { m with query := m'.query })
    (hstep : ∀ f g, k.query.CatchesUp f g k'.query → m.query.CatchesUp f g m'.query) :
    JoinsCatchUp f g (m.replace joins) (m'.replace joins') := by
  have hkey : m'.key = m.key := by rw [hm]
  induction joins generalizing joins' f with
  | nil => cases hk
  | cons j rest ih =>
    obtain ⟨q', rest', e, rfl, hquery, hrest⟩ := joinsCatchUp_cons_left.1 h
    rw [Join.find?, List.find?_cons] at hk hk'
    rw [Join.replace, Join.replace, hkey]
    by_cases hj : j.key = m.key
    · simp only [hj, beq_self_eq_true, Option.some.injEq] at hk hk'
      subst hk hk'
      rw [if_pos hj, if_pos hj]
      exact joinsCatchUp_cons_left.2 ⟨m'.query, rest', e, by rw [← hm], hstep _ _ hquery, hrest⟩
    · simp only [beq_eq_false_iff_ne.2 hj] at hk hk'
      rw [if_neg hj, if_neg hj]
      exact joinsCatchUp_cons_left.2 ⟨q', _, e, rfl, hquery, ih hrest hk hk'⟩

theorem JoinsCatchUp.find?_eq_none {joins joins' : List Join} {key : String}
    (h : JoinsCatchUp f g joins joins') (hk : Join.find? key joins = none) :
    Join.find? key joins' = none := by
  have hrel := Join.find?_related h.related key
  rw [hk] at hrel
  generalize Join.find? key joins' = k?' at hrel ⊢
  cases hrel
  rfl

theorem JoinsCatchUp.find?_eq_some {joins joins' : List Join} {key : String} {k : Join}
    (h : JoinsCatchUp f g joins joins') (hk : Join.find? key joins = some k) :
    ∃ q', Join.find? key joins' = some { k with query := q' } := by
  have hrel := Join.find?_related h.related key
  rw [hk] at hrel
  generalize Join.find? key joins' = k?' at hrel ⊢
  cases hrel with
  | some hrel => exact ⟨_, congrArg some hrel.join⟩

/-- Merging a join into those under its key, which catch up when the requests merged do. -/
theorem JoinsCatchUp.merge {joins joins' : List Join} {j k m m' : Join} {q' : Query}
    {h h₁ h' h₁' : Forest} (hup : JoinsCatchUp f g joins joins')
    (hk : Join.find? j.key joins = some k)
    (hk' : Join.find? j.key joins' = some { k with query := q' })
    (hm : UnifyM.Runs (k.merge j) h m h₁)
    (hm' : UnifyM.Runs (Join.merge { k with query := q' } j) h' m' h₁')
    (hstep : ∀ f g, k.query.CatchesUp f g q' → m.query.CatchesUp f g m'.query) :
    JoinsCatchUp f g (m.replace joins) (m'.replace joins') := by
  have hkey : m.key = j.key := (Join.key_of_merge hm).trans (Join.key_of_find? hk)
  refine hup.replace (hkey ▸ hk) (hkey ▸ hk') ?_ hstep
  obtain ⟨merged, -, rfl⟩ := Join.merge_runs hm
  obtain ⟨merged', -, rfl⟩ := Join.merge_runs hm'
  rfl

/-- A source that is no occurrence is qualified as the given one. -/
theorem Source.alias?_of_qualify {s s' : Source} {owner : Alias} (hs : s.alias? = none)
    (h : AliasM.Runs (s.qualify owner) f s' g) : s'.alias? = some owner := by
  cases s with
  | table name alias? =>
    obtain rfl : alias? = none := hs
    simp only [Source.qualify, AliasM.runs_bind, AliasM.runs_pure] at h
    obtain ⟨_, _, -, rfl, -⟩ := h
    rfl
  | nested q alias? =>
    obtain rfl : alias? = none := hs
    simp only [Source.qualify, AliasM.runs_bind, AliasM.runs_pure] at h
    obtain ⟨_, _, -, rfl, -⟩ := h
    rfl

theorem Query.catchesUp_iff {q q' : Query} (hq : q.IsUnnamed) : q.CatchesUp f g q' ↔
    ∃ e, AliasM.Runs (q.source.qualify (f.fresh none).1) (f.fresh none).2 q'.source e ∧
      q'.clauses.qualified (f.fresh none).1 = q.clauses.qualified (f.fresh none).1 ∧
      JoinsCatchUp e g q.joins q'.joins := by
  obtain ⟨source, clauses, joins, isQualified⟩ := q
  obtain ⟨source', clauses', joins', isQualified'⟩ := q'
  obtain ⟨rfl, hsource⟩ := hq
  simp only [CatchesUp, JoinsCatchUp, Query.qualify, AliasM.runs_bind, AliasM.runs_pure,
    AliasM.runs_fresh, completed, Query.mk.injEq]
  constructor
  · rintro ⟨owner, _, hfresh, s, e, hs, behind, _, hjoins, ⟨rfl, hclauses, rfl, -⟩, rfl⟩
    obtain ⟨rfl, rfl⟩ := Prod.mk.inj hfresh
    rw [Source.alias?_of_qualify hsource hs] at hclauses
    exact ⟨e, hs, hclauses, hjoins⟩
  · rintro ⟨e, hs, hclauses, hjoins⟩
    refine ⟨_, _, rfl, source', e, hs, _, g, hjoins, ⟨rfl, ?_, rfl, trivial⟩, rfl⟩
    rw [Source.alias?_of_qualify hsource hs]
    exact hclauses

mutual

/-- **A request can be merged into one before it is qualified or after.** Where every source is an
occurrence in the end, only columns are left without one. -/
theorem Query.catchesUp_merge : ∀ (b : Query) {a a' m m' : Query} {f g h h₁ h' h₁' : Forest},
    a.Everywhere Query.IsUnnamed → b.Everywhere Query.IsUnnamed → a.CatchesUp f g a' →
      UnifyM.Runs (a.merge b) h m h₁ → UnifyM.Runs (a'.merge b) h' m' h₁' → m'.HasOccurrences →
        m.CatchesUp f g m'
  | ⟨source, clauses, joins, isQualified⟩, a, a', m, m', f, g, h, h₁, h', h₁', ha, hb, hup, hruns,
      hruns', hm => by
    obtain ⟨e, hown, hclauses, hjoinsUp⟩ := (Query.catchesUp_iff ha.self).1 hup
    obtain ⟨_, _, merged, hsource, hjoins, rfl⟩ := Query.merge_runs hruns
    obtain ⟨_, _, merged', hsource', hjoins', rfl⟩ := Query.merge_runs hruns'
    obtain ⟨-, rfl, -⟩ := (Source.runs_merge_unnamed hb.self.2).1 hsource
    obtain ⟨-, rfl, -⟩ := (Source.runs_merge_unnamed hb.self.2).1 hsource'
    have hmerged := ((Query.hasOccurrences_iff _).1 hm).2
    have hunnamed : Query.IsUnnamed ⟨a.source, a.clauses.merge clauses, merged, false⟩ :=
      ⟨rfl, ha.self.2⟩
    refine (Query.catchesUp_iff hunnamed).2 ⟨e, hown, ?_, ?_⟩
    · rw [Clauses.qualified_merge, Clauses.qualified_merge, hclauses]
    · exact mergeJoins_catchUp joins (joinsEverywhere_iff.1 ha.joins) hb.joins hjoinsUp hjoins
        hjoins' hmerged
termination_by structural b => b

theorem Join.catchesUp_merge : ∀ (j : Join) {k k' m m' : Join} {f g h h₁ h' h₁' : Forest},
    k.query.Everywhere Query.IsUnnamed → joinEverywhere Query.IsUnnamed j →
      k.query.CatchesUp f g k'.query → UnifyM.Runs (k.merge j) h m h₁ →
        UnifyM.Runs (k'.merge j) h' m' h₁' → m'.query.HasOccurrences →
          m.query.CatchesUp f g m'.query
  | ⟨key, kind, link, mergedLinks, query⟩, k, k', m, m', f, g, h, h₁, h', h₁', hk, hj, hup, hruns,
      hruns', hm => by
    obtain ⟨q, hq, rfl⟩ := Join.merge_runs hruns
    obtain ⟨q', hq', rfl⟩ := Join.merge_runs hruns'
    exact query.catchesUp_merge hk hj hup hq hq' hm
termination_by structural j => j

theorem mergeJoins_catchUp : ∀ (more : List Join) {mine mine' joins joins' : List Join}
    {f g h h₁ h' h₁' : Forest}, (∀ j ∈ mine, j.query.Everywhere Query.IsUnnamed) →
      joinsEverywhere Query.IsUnnamed more → JoinsCatchUp f g mine mine' →
        UnifyM.Runs (mergeJoins mine more) h joins h₁ →
          UnifyM.Runs (mergeJoins mine' more) h' joins' h₁' →
            (∀ j ∈ joins', j.query.HasOccurrences) → JoinsCatchUp f g joins joins'
  | [], mine, mine', joins, joins', f, g, h, h₁, h', h₁', _, _, hup, hruns, hruns', _ => by
    rw [mergeJoins, UnifyM.runs_pure] at hruns hruns'
    rwa [hruns.1, hruns'.1]
  | j :: rest, mine, mine', joins, joins', f, g, h, h₁, h', h₁', hmine, hmore, hup, hruns, hruns',
      hall => by
    have hj := joinEverywhere_iff.1 hmore.1
    rw [mergeJoins] at hruns hruns'
    cases hk : Join.find? j.key mine with
    | none =>
      -- The join goes to the end of the joins, where it never becomes an occurrence.
      rw [hup.find?_eq_none hk] at hruns'
      have hlast := mergeJoins_hasOccurrences rest hmore.2 hruns' hall j (by simp)
      have hsome := (j.query.hasOccurrences_iff.1 hlast).1
      rw [hj.self.2] at hsome
      cases hsome
    | some k =>
      obtain ⟨q', hk'⟩ := hup.find?_eq_some hk
      rw [hk] at hruns
      rw [hk'] at hruns'
      simp only [UnifyM.runs_bind] at hruns hruns'
      obtain ⟨m, e, hm, hruns⟩ := hruns
      obtain ⟨m', e', hm', hruns'⟩ := hruns'
      have hkey : m'.key = j.key := (Join.key_of_merge hm').trans (Join.key_of_find? hk')
      have hoccurs : m'.query.HasOccurrences :=
        mergeJoins_hasOccurrences rest hmore.2 hruns' hall m' (Join.mem_replace (hkey ▸ hk'))
      have hmem := List.mem_of_find?_eq_some hk
      have hmerged := hup.merge hk hk' hm hm' fun _ _ hk₁ =>
        j.catchesUp_merge (hmine k hmem) hmore.1 hk₁ hm hm' hoccurs
      have hunnamed := Join.forall_replace (P := (·.query.Everywhere Query.IsUnnamed)) hmine
        (j.merge_isUnnamed (hmine k hmem) hmore.1 hm)
      exact mergeJoins_catchUp rest hunnamed hmore.2 hmerged hruns hruns' hall
termination_by structural more => more

end

end

end SqlTree
