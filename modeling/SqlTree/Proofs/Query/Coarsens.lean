import SqlTree.Proofs.Alias.Root
import SqlTree.Query.Derive
import SqlTree.Query.Qualify

/-!
# Work on requests only makes forests coarser

Naming a source, appending a join and qualifying make identities, bind them and link them. None of
this takes two identities of one occurrence apart, and after each of them all chains of proxies end
(`Forest.Coarsens`).

* `Query.aliased_coarsens`, `Query.withJoin_coarsens` and `Query.qualify_coarsens` say so of the
  three.
-/

namespace SqlTree

variable {f g : Forest}

theorem Query.aliased_coarsens {q q' : Query} {a : Alias} (hf : f.IsGrounded)
    (h : AliasM.Runs (q.aliased a) f q' g) : Forest.Coarsens f g := by
  rw [aliased] at h
  cases hown : q.source.alias? with
  | none =>
    simp only [hown, AliasM.runs_pure] at h
    obtain ⟨-, rfl⟩ := h
    exact hf.coarsens_self
  | some own =>
    simp only [hown, AliasM.link, AliasM.runs_bind, AliasM.runs_change, AliasM.runs_pure] at h
    obtain ⟨_, f', hlink, -, rfl⟩ := h
    exact (Forest.link_root_eq hf hlink).1

/-! ## Merging -/

theorem mergeAliases_coarsens {a? b? c? : Option Alias} (hf : f.IsGrounded)
    (h : UnifyM.Runs (mergeAliases a? b?) f c? g) : Forest.Coarsens f g := by
  cases a? with
  | none =>
    obtain ⟨-, rfl⟩ := UnifyM.runs_pure.1 h
    exact hf.coarsens_self
  | some a =>
    cases b? with
    | none =>
      obtain ⟨-, rfl⟩ := UnifyM.runs_pure.1 h
      exact hf.coarsens_self
    | some b =>
      simp only [mergeAliases, UnifyM.runs_bind, UnifyM.runs_unify, UnifyM.runs_pure] at h
      obtain ⟨_, f', hunify, -, rfl⟩ := h
      exact Forest.unify_coarsens hf hunify

theorem Source.merge_coarsens {s s' t : Source} (hf : f.IsGrounded)
    (h : UnifyM.Runs (s.merge s') f t g) : Forest.Coarsens f g := by
  cases s with
  | nested query alias? => exact absurd h UnifyM.not_runs_failure
  | table name alias? =>
    cases s' with
    | nested query alias? => exact absurd h UnifyM.not_runs_failure
    | table name' alias?' =>
      rw [merge] at h
      split at h
      · simp only [UnifyM.runs_bind, UnifyM.runs_pure] at h
        obtain ⟨merged?, f', hmerge, -, rfl⟩ := h
        exact mergeAliases_coarsens hf hmerge
      · exact absurd h UnifyM.not_runs_failure

mutual

theorem Query.merge_coarsens : ∀ (b : Query) {a c : Query} {f g : Forest}, f.IsGrounded →
    UnifyM.Runs (a.merge b) f c g → Forest.Coarsens f g
  | ⟨source, clauses, joins, isQualified⟩, a, c, f, g, hf, h => by
    simp only [Query.merge, UnifyM.runs_bind, UnifyM.runs_pure] at h
    obtain ⟨source', f₁, hsource, joins', f₂, hjoins, -, rfl⟩ := h
    have hfirst := Source.merge_coarsens hf hsource
    exact hfirst.trans (mergeJoins_coarsens joins hfirst.grounded hjoins)
termination_by structural b => b

theorem Join.merge_coarsens : ∀ (j : Join) {k m : Join} {f g : Forest}, f.IsGrounded →
    UnifyM.Runs (k.merge j) f m g → Forest.Coarsens f g
  | ⟨key, kind, link, mergedLinks, query⟩, k, m, f, g, hf, h => by
    rw [Join.merge] at h
    split at h
    · simp only [UnifyM.runs_bind, UnifyM.runs_pure] at h
      obtain ⟨query', f', hquery, -, rfl⟩ := h
      exact query.merge_coarsens hf hquery
    · exact absurd h UnifyM.not_runs_failure
termination_by structural j => j

theorem mergeJoins_coarsens : ∀ (more : List Join) {mine joins : List Join} {f g : Forest},
    f.IsGrounded → UnifyM.Runs (mergeJoins mine more) f joins g → Forest.Coarsens f g
  | [], mine, joins, f, g, hf, h => by
    rw [mergeJoins, UnifyM.runs_pure] at h
    obtain ⟨-, rfl⟩ := h
    exact hf.coarsens_self
  | j :: rest, mine, joins, f, g, hf, h => by
    rw [mergeJoins] at h
    split at h
    · exact mergeJoins_coarsens rest hf h
    · simp only [UnifyM.runs_bind] at h
      obtain ⟨m, f', hm, hrest⟩ := h
      have hfirst := Join.merge_coarsens j hf hm
      exact hfirst.trans (mergeJoins_coarsens rest hfirst.grounded hrest)
termination_by structural more => more

end

/-- **Appending a join takes no two identities of one occurrence apart.** -/
theorem Query.withJoin_coarsens {q q' : Query} {key : String} {j : Join} (hf : f.IsGrounded)
    (h : AliasM.Runs (q.withJoin key j) f q' g) : Forest.Coarsens f g := by
  simp only [withJoin, AliasM.runs_bind, UnifyM.runs_orError, AliasM.runs_pure] at h
  obtain ⟨joins, f', hjoins, -, rfl⟩ := h
  exact mergeJoins_coarsens _ hf hjoins

/-! ## Qualifying -/

mutual

/-- **Qualifying takes no two identities of one occurrence apart.** -/
theorem Query.qualify_coarsens : ∀ (q : Query) {f g : Forest} {q' : Query}, f.IsGrounded →
    AliasM.Runs q.qualify f q' g → Forest.Coarsens f g
  | ⟨source, clauses, joins, true⟩, f, g, q', hf, h => by
    rw [Query.qualify, AliasM.runs_pure] at h
    obtain ⟨-, rfl⟩ := h
    exact hf.coarsens_self
  | ⟨source, clauses, joins, false⟩, f, g, q', hf, h => by
    simp only [Query.qualify, AliasM.runs_bind, AliasM.runs_pure, AliasM.runs_fresh] at h
    obtain ⟨owner, f₁, ⟨rfl, rfl⟩, source', f₂, hsource, joins', f₃, hjoins, -, rfl⟩ := h
    have hfresh := Forest.fresh_coarsens hf none
    have hsources := source.qualify_coarsens hfresh.grounded hsource
    exact hfresh.trans (hsources.trans (qualifyJoins_coarsens joins hsources.grounded hjoins))
termination_by structural q => q

theorem Source.qualify_coarsens {owner : Alias} : ∀ (s : Source) {f g : Forest} {s' : Source},
    f.IsGrounded → AliasM.Runs (s.qualify owner) f s' g → Forest.Coarsens f g
  | .table name none, f, g, s', hf, h => by
    simp only [Source.qualify, AliasM.bind, AliasM.runs_bind, AliasM.runs_pure,
      AliasM.runs_change] at h
    obtain ⟨_, f₁, hbind, -, rfl⟩ := h
    exact Forest.bind_coarsens hf hbind
  | .table name (some own), f, g, s', hf, h => by
    simp only [Source.qualify, AliasM.bind, AliasM.link, AliasM.runs_bind, AliasM.runs_pure,
      AliasM.runs_change] at h
    obtain ⟨_, f₁, hbind, _, f₂, hlink, -, rfl⟩ := h
    have hbound := Forest.bind_coarsens hf hbind
    exact hbound.trans (Forest.link_root_eq hbound.grounded hlink).1
  | .nested query none, f, g, s', hf, h => by
    simp only [Source.qualify, AliasM.runs_bind, AliasM.runs_pure] at h
    obtain ⟨query', f₁, hquery, -, rfl⟩ := h
    exact query.qualify_coarsens hf hquery
  | .nested query (some own), f, g, s', hf, h => by
    simp only [Source.qualify, AliasM.link, AliasM.runs_bind, AliasM.runs_pure,
      AliasM.runs_change] at h
    obtain ⟨_, f₁, hlink, query', f₂, hquery, -, rfl⟩ := h
    have hlinked := (Forest.link_root_eq hf hlink).1
    exact hlinked.trans (query.qualify_coarsens hlinked.grounded hquery)
termination_by structural s => s

theorem qualifyJoins_coarsens : ∀ (joins : List Join) {f g : Forest} {joins' : List Join},
    f.IsGrounded → AliasM.Runs (qualifyJoins joins) f joins' g → Forest.Coarsens f g
  | [], f, g, joins', hf, h => by
    rw [qualifyJoins, AliasM.runs_pure] at h
    obtain ⟨-, rfl⟩ := h
    exact hf.coarsens_self
  | j :: rest, f, g, joins', hf, h => by
    simp only [qualifyJoins, AliasM.runs_bind, AliasM.runs_pure] at h
    obtain ⟨j', f₁, hj, rest', f₂, hrest, -, rfl⟩ := h
    have hfirst := Join.qualify_coarsens j hf hj
    exact hfirst.trans (qualifyJoins_coarsens rest hfirst.grounded hrest)
termination_by structural joins => joins

theorem Join.qualify_coarsens : ∀ (j : Join) {f g : Forest} {j' : Join}, f.IsGrounded →
    AliasM.Runs j.qualify f j' g → Forest.Coarsens f g
  | ⟨key, kind, link, mergedLinks, query⟩, f, g, j', hf, h => by
    simp only [Join.qualify, AliasM.runs_bind, AliasM.runs_pure] at h
    obtain ⟨q', f₁, hq, -, rfl⟩ := h
    exact query.qualify_coarsens hf hq
termination_by structural j => j

end

end SqlTree
