import SqlTree.Proofs.Statement.Level
import SqlTree.Query.Association

/-!
# Joins gathered by key

Joins that are appended to a request one by one end up gathered: one join for each key, in the order
in which the keys came first, and beneath it the joins of all joins under the key, gathered again.

* `Join.Gathers` says what one join has of the joins that were merged into it, and
  `Gathered appended joins` says it of all keys and all depths.
* `mergeJoins_gathered` is that merging gathers, and `Appends.gathered` that appending does.
* `Query.withJoin_keysDiffer` is that appending keeps the keys of a parent apart, which is what all
  this relies on.
-/

namespace SqlTree

/-! ## Keys -/

/-- The joins under a key. -/
def Join.underKey (key : String) (joins : List Join) : List Join := joins.filter (·.key = key)

/-- The joins under other keys. -/
def Join.offKey (key : String) (joins : List Join) : List Join := joins.filter (·.key ≠ key)

/-- No two joins of one parent have the same key, at any depth. Joins come to a request by appending
only, and `Query.withJoin_keysDiffer` is that this keeps their keys apart. -/
def Query.KeysDiffer (q : Query) : Prop := ∀ p ∈ q.nodes, (p.joins.map (·.key)).Nodup

theorem Query.keysDiffer_iff (q : Query) :
    q.KeysDiffer ↔ (q.joins.map (·.key)).Nodup ∧ ∀ j ∈ q.joins, j.query.KeysDiffer := by
  simp only [KeysDiffer, q.nodes_eq, joinsNodes_eq_flatMap, List.forall_mem_cons,
    List.forall_mem_flatMap]

theorem Query.keysDiffer_of_joins_eq_nil {q : Query} (hq : q.joins = []) : q.KeysDiffer := by
  rw [keysDiffer_iff, hq]
  simp

/-! ## One join for several -/

/-- What joins under one key select: what the last of them selects that selects anything. -/
def lastSelection (joins : List Join) : List (SelectItem Alias) :=
  ((joins.map (·.query.clauses.selection)).filter (!·.isEmpty)).getLastD []

/-- The terms of the filters of joins, one join behind the other. -/
def joinsTerms (db : Schema) (joins : List Join) : Except CompileError (List (Expr Alias)) :=
  List.flatten <$> joins.mapM fun j => filterTerms db j.query.clauses.filter?

/-- What a join has of the joins that it stands for, `first` and the `others` behind it. -/
structure Join.Gathers (m first : Join) (others : List Join) : Prop where
  key : m.key = first.key
  kind : m.kind = .optional ↔ ∀ j ∈ first :: others, j.kind = .optional
  link : m.link = first.link
  links : ∀ j ∈ first :: others, ∀ l ∈ j.link :: j.mergedLinks, l = m.link ∨ l ∈ m.mergedLinks
  table : m.query.source.tableName? = first.query.source.tableName?
  selection : m.query.clauses.selection = lastSelection (first :: others)
  filter : ∀ db, filterTerms db m.query.clauses.filter? = joinsTerms db (first :: others)
  isQualified : m.query.isQualified = (others.isEmpty && first.query.isQualified)

theorem lastSelection_singleton (j : Join) : lastSelection [j] = j.query.clauses.selection := by
  rw [lastSelection, List.map_singleton]
  cases hj : j.query.clauses.selection <;> rfl

theorem lastSelection_concat (joins : List Join) (j : Join) :
    lastSelection (joins ++ [j]) = if j.query.clauses.selection.isEmpty then lastSelection joins
      else j.query.clauses.selection := by
  rw [lastSelection, List.map_append, List.filter_append, List.map_singleton]
  cases hj : j.query.clauses.selection with
  | nil => simp [lastSelection]
  | cons i items => simp

/-- The terms of two conditions together are the terms of both. -/
theorem filterTerms_mergeWith (db : Schema) (a? b? : Option (Lookup (Expr Alias))) :
    filterTerms db (mergeWith (.zipWith .and) a? b?) = do
      let ts ← filterTerms db a?
      let us ← filterTerms db b?
      return ts ++ us := by
  cases a? with
  | none =>
    change filterTerms db b? = _
    cases filterTerms db b? <;> rfl
  | some a =>
    cases b? with
    | none =>
      change filterTerms db (some a) = _
      cases filterTerms db (some a) with
      | error e => rfl
      | ok ts => simp [filterTerms, pure, Except.pure]
    | some b =>
      simp only [mergeWith, filterTerms, Lookup.resolve_zipWith]
      cases a.resolve db with
      | error e => rfl
      | ok x => cases b.resolve db <;> rfl

theorem joinsTerms_singleton (db : Schema) (j : Join) :
    joinsTerms db [j] = filterTerms db j.query.clauses.filter? := by
  rw [joinsTerms, List.mapM_cons]
  cases filterTerms db j.query.clauses.filter? with
  | error e => rfl
  | ok ts => simp [Functor.map, Except.map, pure, Except.pure]

theorem joinsTerms_concat (db : Schema) (joins : List Join) (j : Join) :
    joinsTerms db (joins ++ [j]) = do
      let ts ← joinsTerms db joins
      let us ← filterTerms db j.query.clauses.filter?
      return ts ++ us := by
  have hone := joinsTerms_singleton db j
  rw [joinsTerms] at hone
  rw [joinsTerms, joinsTerms, List.mapM_append, ← hone]
  cases joins.mapM fun j => filterTerms db j.query.clauses.filter? with
  | error e => rfl
  | ok tss =>
    cases [j].mapM fun j => filterTerms db j.query.clauses.filter? with
    | error e => rfl
    | ok uss => simp [Functor.map, Except.map, pure, Except.pure]

theorem Join.gathers_self (j : Join) : j.Gathers j [] := by
  refine ⟨rfl, by simp, rfl, ?_, rfl, (lastSelection_singleton j).symm, fun db => ?_, rfl⟩
  · intro j' hj' l hl
    obtain rfl := List.mem_singleton.1 hj'
    exact List.mem_cons.1 hl
  · exact (joinsTerms_singleton db j).symm

/-! ## Merging -/

theorem JoinKind.merge_eq_optional {a b : JoinKind} :
    a.merge b = .optional ↔ a = .optional ∧ b = .optional := by
  cases a <;> cases b <;> decide

/-- The links to agree with hold on to those there are, and leave out none that differs. -/
theorem Join.mem_linksWith (a : Join) (more : List JoinLink) (l : JoinLink) :
    (l ∈ a.mergedLinks → l ∈ a.linksWith more) ∧
      (l ∈ more → l = a.link ∨ l ∈ a.linksWith more) := by
  rw [linksWith]
  generalize a.mergedLinks = links
  induction more generalizing links with
  | nil => simp
  | cons l' more ih =>
    rw [List.foldl_cons]
    obtain ⟨hkept, hadded⟩ := ih (if l' = a.link ∨ l' ∈ links then links else links ++ [l'])
    constructor
    · intro hl
      apply hkept
      split
      · exact hl
      · exact List.mem_append_left _ hl
    · intro hl
      rcases List.mem_cons.1 hl with rfl | hl
      · by_cases hlink : l = a.link
        · exact .inl hlink
        · refine .inr (hkept ?_)
          split
          · rename_i hknown
            exact hknown.resolve_left hlink
          · exact List.mem_append_right _ (List.mem_singleton_self l)
      · exact hadded hl

section

variable {f g : Forest}

theorem Source.merge_tableName {s s' t : Source} (h : UnifyM.Runs (s.merge s') f t g) :
    t.tableName? = s.tableName? := by
  cases s with
  | nested query alias? => exact absurd h UnifyM.not_runs_failure
  | table name alias? =>
    cases s' with
    | nested query alias? => exact absurd h UnifyM.not_runs_failure
    | table name' alias?' =>
      rw [merge] at h
      split at h
      · simp only [UnifyM.runs_bind, UnifyM.runs_pure] at h
        obtain ⟨merged?, _, -, rfl, -⟩ := h
        rfl
      · exact absurd h UnifyM.not_runs_failure

theorem Query.merge_runs {a b c : Query} (h : UnifyM.Runs (a.merge b) f c g) :
    ∃ source e joins, UnifyM.Runs (a.source.merge b.source) f source e ∧
      UnifyM.Runs (mergeJoins a.joins b.joins) e joins g ∧
      c = ⟨source, a.clauses.merge b.clauses, joins, false⟩ := by
  cases b
  simp only [merge, UnifyM.runs_bind, UnifyM.runs_pure] at h
  obtain ⟨source, e, hsource, joins, e', hjoins, rfl, rfl⟩ := h
  exact ⟨source, e, joins, hsource, hjoins, rfl⟩

theorem Join.merge_runs {k j m : Join} (h : UnifyM.Runs (k.merge j) f m g) :
    ∃ q, UnifyM.Runs (k.query.merge j.query) f q g ∧
      m = ⟨k.key, k.kind.merge j.kind, k.link, k.linksWith (j.link :: j.mergedLinks), q⟩ := by
  cases j
  rw [merge] at h
  split at h
  · simp only [UnifyM.runs_bind, UnifyM.runs_pure] at h
    obtain ⟨q, e, hq, rfl, rfl⟩ := h
    exact ⟨q, hq, rfl⟩
  · exact absurd h UnifyM.not_runs_failure

/-- **A join with one more join merged into it stands for one more join.** -/
theorem Join.Gathers.merge {m m' first j : Join} {others : List Join} (h : m.Gathers first others)
    (hruns : UnifyM.Runs (m.merge j) f m' g) : m'.Gathers first (others ++ [j]) := by
  obtain ⟨q, hquery, rfl⟩ := Join.merge_runs hruns
  obtain ⟨source, e, joins, hsource, -, rfl⟩ := Query.merge_runs hquery
  refine ⟨h.key, ?_, h.link, ?_, ?_, ?_, fun db => ?_, by simp⟩
  · rw [JoinKind.merge_eq_optional, h.kind, ← List.cons_append, List.forall_mem_append]
    simp
  · intro j' hj' l hl
    rw [← List.cons_append] at hj'
    rcases List.mem_append.1 hj' with hj' | hj'
    · exact (h.links j' hj' l hl).imp_right (m.mem_linksWith _ l).1
    · obtain rfl := List.mem_singleton.1 hj'
      exact (m.mem_linksWith _ l).2 hl
  · rw [← h.table]
    exact Source.merge_tableName hsource
  · rw [← List.cons_append, lastSelection_concat, ← h.selection]
    rfl
  · rw [← List.cons_append, joinsTerms_concat, ← h.filter db]
    exact filterTerms_mergeWith db m.query.clauses.filter? j.query.clauses.filter?

end

/-! ## All keys at all depths -/

/-- The second joins are the first ones gathered: a join for each key, which has what the joins
under the key have, and beneath it what is beneath any of these. -/
inductive Gathered : List Join → List Join → Prop
  | nil : Gathered [] []
  | cons {first m : Join} {rest behind : List Join} :
      m.Gathers first (Join.underKey first.key rest) →
        Gathered ((first :: Join.underKey first.key rest).flatMap (·.query.joins)) m.query.joins →
        Gathered (Join.offKey first.key rest) behind → Gathered (first :: rest) (m :: behind)

theorem Join.underKey_concat (key : String) (joins : List Join) (j : Join) :
    underKey key (joins ++ [j]) = if j.key = key then underKey key joins ++ [j]
      else underKey key joins := by
  rw [underKey, List.filter_append]
  split
  · rename_i hkey
    simp [underKey, hkey]
  · rename_i hkey
    simp [underKey, hkey]

theorem Join.offKey_concat (key : String) (joins : List Join) (j : Join) :
    offKey key (joins ++ [j]) = if j.key = key then offKey key joins
      else offKey key joins ++ [j] := by
  rw [offKey, List.filter_append]
  split
  · rename_i hkey
    simp [offKey, hkey]
  · rename_i hkey
    simp [offKey, hkey]

mutual

/-- Joins under different keys are gathered as they are. -/
theorem Query.gathered_self : ∀ q : Query, q.KeysDiffer → Gathered q.joins q.joins
  | ⟨source, clauses, joins, isQualified⟩, hq => by
    obtain ⟨hkeys, hbelow⟩ := (Query.keysDiffer_iff _).1 hq
    exact joinsGathered_self joins hkeys hbelow

theorem joinsGathered_self : ∀ joins : List Join, (joins.map (·.key)).Nodup →
    (∀ j ∈ joins, j.query.KeysDiffer) → Gathered joins joins
  | [], _, _ => .nil
  | j :: rest, hkeys, hbelow => by
    obtain ⟨hj, hrest⟩ := List.nodup_cons.1 hkeys
    have hne : ∀ k ∈ rest, k.key ≠ j.key :=
      fun k hk hkey => hj (List.mem_map.2 ⟨k, hk, hkey⟩)
    have hunder : Join.underKey j.key rest = [] :=
      List.filter_eq_nil_iff.2 fun k hk => by simpa using hne k hk
    have hoff : Join.offKey j.key rest = rest :=
      List.filter_eq_self.2 fun k hk => by simpa using hne k hk
    refine .cons ?_ ?_ ?_
    · rw [hunder]
      exact j.gathers_self
    · rw [hunder, List.flatMap_singleton]
      exact joinGathered_self j (hbelow j List.mem_cons_self)
    · rw [hoff]
      exact joinsGathered_self rest hrest fun k hk => hbelow k (List.mem_cons_of_mem j hk)

theorem joinGathered_self : ∀ j : Join, j.query.KeysDiffer → Gathered j.query.joins j.query.joins
  | ⟨_, _, _, _, query⟩, hj => query.gathered_self hj

end

section

variable {f g : Forest} {appended mine : List Join} {j k m : Join}

/-- A join under a new key goes to the end. -/
theorem Gathered.append_new (h : Gathered appended mine) (hj : j.query.KeysDiffer)
    (hnew : Join.find? j.key mine = none) : Gathered (appended ++ [j]) (mine ++ [j]) := by
  induction h with
  | nil =>
    refine .cons j.gathers_self ?_ .nil
    rw [Join.underKey, List.filter_nil, List.flatMap_singleton]
    exact j.query.gathered_self hj
  | @cons first m rest behind hm hbelow _ _ ih =>
    rw [Join.find?, List.find?_cons] at hnew
    split at hnew
    · cases hnew
    · rename_i hkey
      have hne : j.key ≠ first.key := by
        rw [← hm.key]
        exact fun h => by simp [h] at hkey
      rw [List.cons_append, List.cons_append]
      refine .cons ?_ ?_ ?_
      · rwa [Join.underKey_concat, if_neg hne]
      · rwa [Join.underKey_concat, if_neg hne]
      · rw [Join.offKey_concat, if_neg hne]
        exact ih hnew

/-- A join under a key that is there is merged into the join under it. -/
theorem Gathered.append_merged (h : Gathered appended mine) (hfind : Join.find? j.key mine = some k)
    (hruns : UnifyM.Runs (k.merge j) f m g)
    (hbelow : ∀ as, Gathered as k.query.joins → Gathered (as ++ j.query.joins) m.query.joins) :
    Gathered (appended ++ [j]) (m.replace mine) := by
  have hm : m.key = k.key := by
    obtain ⟨q, -, rfl⟩ := Join.merge_runs hruns
    rfl
  induction h with
  | nil => cases hfind
  | @cons first own rest behind hown hunder hbehind _ ih =>
    rw [Join.find?, List.find?_cons] at hfind
    split at hfind
    · rename_i hkey
      obtain rfl := Option.some.inj hfind
      have hsame : j.key = first.key := by
        rw [← hown.key]
        exact (beq_iff_eq.1 hkey).symm
      rw [Join.replace, if_pos hm.symm, List.cons_append]
      refine .cons ?_ ?_ ?_
      · rw [Join.underKey_concat, if_pos hsame]
        exact hown.merge hruns
      · rw [Join.underKey_concat, if_pos hsame, ← List.cons_append, List.flatMap_append,
          List.flatMap_singleton]
        exact hbelow _ hunder
      · rwa [Join.offKey_concat, if_pos hsame]
    · rename_i hkey
      have hother : j.key ≠ own.key := fun h => by simp [h] at hkey
      have hk : k.key = j.key := by
        have hbeq := List.find?_some hfind
        simpa using hbeq
      have hne : j.key ≠ first.key := hown.key ▸ hother
      have hkept : ¬ own.key = m.key := by
        rw [hm, hk]
        exact hother.symm
      rw [Join.replace, if_neg hkept, List.cons_append]
      refine .cons ?_ ?_ ?_
      · rwa [Join.underKey_concat, if_neg hne]
      · rwa [Join.underKey_concat, if_neg hne]
      · rw [Join.offKey_concat, if_neg hne]
        exact ih hfind

end

mutual

/-- Merging requests gathers their joins. -/
theorem Query.merge_gathered : ∀ (b : Query) {a c : Query} {f g : Forest} {as : List Join},
    b.KeysDiffer → UnifyM.Runs (a.merge b) f c g → Gathered as a.joins →
      Gathered (as ++ b.joins) c.joins
  | ⟨source, clauses, joins, isQualified⟩, a, c, f, g, as, hb, hruns, has => by
    obtain ⟨_, _, joins', -, hjoins, rfl⟩ := Query.merge_runs hruns
    exact mergeJoins_gathered joins ((Query.keysDiffer_iff _).1 hb).2 hjoins has
termination_by structural b => b

theorem Join.merge_gathered : ∀ (j : Join) {k m : Join} {f g : Forest} {as : List Join},
    j.query.KeysDiffer → UnifyM.Runs (k.merge j) f m g → Gathered as k.query.joins →
      Gathered (as ++ j.query.joins) m.query.joins
  | ⟨key, kind, link, mergedLinks, query⟩, k, m, f, g, as, hj, hruns, has => by
    obtain ⟨q, hq, rfl⟩ := Join.merge_runs hruns
    exact query.merge_gathered hj hq has
termination_by structural j => j

/-- **Merging joins gathers them.** -/
theorem mergeJoins_gathered : ∀ (more : List Join) {mine joins : List Join} {f g : Forest}
    {as : List Join}, (∀ j ∈ more, j.query.KeysDiffer) →
      UnifyM.Runs (mergeJoins mine more) f joins g → Gathered as mine → Gathered (as ++ more) joins
  | [], mine, joins, f, g, as, _, hruns, has => by
    rw [mergeJoins, UnifyM.runs_pure] at hruns
    obtain ⟨rfl, -⟩ := hruns
    rwa [List.append_nil]
  | j :: rest, mine, joins, f, g, as, hkeys, hruns, has => by
    obtain ⟨hj, hrest⟩ := List.forall_mem_cons.1 hkeys
    rw [List.append_cons]
    rw [mergeJoins] at hruns
    split at hruns
    · rename_i hnew
      exact mergeJoins_gathered rest hrest hruns (has.append_new hj hnew)
    · rename_i k hfind
      simp only [UnifyM.runs_bind] at hruns
      obtain ⟨m, e, hm, hruns⟩ := hruns
      have hbelow :
          ∀ bs, Gathered bs k.query.joins → Gathered (bs ++ j.query.joins) m.query.joins :=
        fun bs hbs => Join.merge_gathered j hj hm hbs
      exact mergeJoins_gathered rest hrest hruns (has.append_merged hfind hm hbelow)
termination_by structural more => more

end

/-! ## Keys stay apart -/

theorem Gathered.exists_key {appended joins : List Join} (h : Gathered appended joins) :
    ∀ m ∈ joins, ∃ j ∈ appended, j.key = m.key := by
  induction h with
  | nil => simp
  | @cons first m rest behind hm _ _ _ ih =>
    intro m' hm'
    rcases List.mem_cons.1 hm' with rfl | hm'
    · exact ⟨first, List.mem_cons_self, hm.key.symm⟩
    · obtain ⟨j, hj, hkey⟩ := ih m' hm'
      exact ⟨j, List.mem_cons_of_mem _ (List.mem_of_mem_filter hj), hkey⟩

theorem Gathered.keysDiffer {appended joins : List Join} (h : Gathered appended joins) :
    (joins.map (·.key)).Nodup ∧ ∀ m ∈ joins, m.query.KeysDiffer := by
  induction h with
  | nil => simp
  | @cons first m rest behind hm _ hbehind ihBelow ihBehind =>
    constructor
    · refine List.nodup_cons.2 ⟨fun hmem => ?_, ihBehind.1⟩
      obtain ⟨m', hm', hkey⟩ := List.mem_map.1 hmem
      obtain ⟨j, hj, hkey'⟩ := hbehind.exists_key m' hm'
      have hoff : j.key ≠ first.key := by simpa using (List.mem_filter.1 hj).2
      exact hoff (hkey'.trans (hkey.trans hm.key))
    · intro m' hm'
      rcases List.mem_cons.1 hm' with rfl | hm'
      · exact (Query.keysDiffer_iff _).2 ihBelow
      · exact ihBehind.2 m' hm'

/-- Appending a join merges it into the joins there are. -/
theorem Query.runs_withJoin {q q' : Query} {key : String} {j : Join} {f g : Forest} :
    AliasM.Runs (q.withJoin key j) f q' g ↔
      ∃ joins, UnifyM.Runs (mergeJoins q.joins [{ j with key := key }]) f joins g ∧
        q' = { q with joins := joins } := by
  simp only [withJoin, AliasM.runs_bind, UnifyM.runs_orError, AliasM.runs_pure]
  constructor
  · rintro ⟨joins, _, hjoins, rfl, rfl⟩
    exact ⟨joins, hjoins, rfl⟩
  · rintro ⟨joins, hjoins, rfl⟩
    exact ⟨joins, g, hjoins, rfl, rfl⟩

/-- **Appending keeps the keys of every parent apart.** -/
theorem Query.withJoin_keysDiffer {q q' : Query} {key : String} {j : Join} {f g : Forest}
    (hq : q.KeysDiffer) (hj : j.query.KeysDiffer) (h : AliasM.Runs (q.withJoin key j) f q' g) :
    q'.KeysDiffer := by
  obtain ⟨joins, hjoins, rfl⟩ := runs_withJoin.1 h
  have hmore : ∀ k ∈ [{ j with key := key }], k.query.KeysDiffer := by
    simpa using hj
  exact (keysDiffer_iff _).2 (mergeJoins_gathered _ hmore hjoins (q.gathered_self hq)).keysDiffer

/-! ## Appending -/

/-- Joins are appended to a request one by one, each under its key. What is done to the occurrences
in between is left open. -/
inductive Appends (parent : Query) : List Join → Query → Prop
  | nil : Appends parent [] parent
  | step {q q' : Query} {appended : List Join} {key : String} {join : Join} {f g : Forest} :
      Appends parent appended q → AliasM.Runs (q.withJoin key join) f q' g →
        Appends parent (appended ++ [{ join with key := key }]) q'

namespace Appends

variable {parent q q' : Query} {appended : List Join} {f g : Forest}

theorem including {a : Association} {kind : JoinKind} (h : Appends parent appended q)
    (hruns : AliasM.Runs (q.including a kind) f q' g) :
    Appends parent (appended ++ [a.toJoin kind true]) q' :=
  .step h hruns

theorem joining {a : Association} {kind : JoinKind} (h : Appends parent appended q)
    (hruns : AliasM.Runs (q.joining a kind) f q' g) :
    Appends parent (appended ++ [a.toJoin kind false]) q' :=
  .step h hruns

/-- **Joins appended to a request without joins are gathered**, and the rest of the request stays as
it is. -/
theorem gathered (h : Appends parent appended q) (hparent : parent.joins = [])
    (hkeys : ∀ j ∈ appended, j.query.KeysDiffer) :
    Gathered appended q.joins ∧ q = { parent with joins := q.joins } := by
  induction h with
  | nil =>
    rw [hparent]
    exact ⟨.nil, by cases parent; cases hparent; rfl⟩
  | @step q q' appended key join f g _ hruns ih =>
    obtain ⟨hrest, hj⟩ := List.forall_mem_append.1 hkeys
    obtain ⟨hgathered, hq⟩ := ih hrest
    obtain ⟨joins, hjoins, rfl⟩ := Query.runs_withJoin.1 hruns
    refine ⟨mergeJoins_gathered _ hj hjoins hgathered, ?_⟩
    rw [hq]

end Appends

end SqlTree
