import SqlTree.Proofs.Query.Qualified

/-!
# Levels of a request

A request nested in a source is a level of its own in a statement, and so are the requests nested in
its sources. At one level the joins of a request make a tree.

* `Query.HasLevel` reaches the levels, `JoinPath` the joins of one level, each with the joins above
  it.
* `Query.KeepsShape` is a relation of requests that goes down to their joins and to the requests
  nested in their sources. It then goes down to all levels, and along all paths (`KeepsShape.level`,
  `KeepsShape.path` and the lemmas beside them).
* `Query.BecomesUpTo` says of a request in a tree what qualifying the tree makes of it: it is
  qualified, or left as it is where the request around it was qualified before. It keeps the shape,
  and so does what becomes of trees in which nothing was qualified (`Query.BecomesAll`).
-/

namespace SqlTree

/-! ## Levels and joins -/

/-- The levels of a request: the request, and those nested in the sources of a level. -/
inductive Query.HasLevel : Query → Query → Prop
  | top {q : Query} : Query.HasLevel q q
  | nested {q p n inner : Query} {alias? : Option Alias} :
      Query.HasLevel q p → n ∈ p.nodes → n.source = .nested inner alias? → Query.HasLevel q inner

/-- The joins at a level whose request has the given joins, each with the joins that it is beneath,
from the outermost one. -/
inductive JoinPath : List Join → List Join → Join → Prop
  | here {joins : List Join} {j : Join} : j ∈ joins → JoinPath joins [] j
  | beneath {joins above : List Join} {k j : Join} :
      k ∈ joins → JoinPath k.query.joins above j → JoinPath joins (k :: above) j

/-- More joins have more paths. -/
theorem JoinPath.mono {joins joins' above : List Join} {j : Join} (h : JoinPath joins above j)
    (hsub : joins ⊆ joins') : JoinPath joins' above j := by
  cases h with
  | here hj => exact .here (hsub hj)
  | beneath hk hj => exact .beneath (hsub hk) hj

/-- The levels of a nested request are levels of the request around it. -/
theorem Query.HasLevel.of_nested {q n inner p : Query} {alias? : Option Alias} (hn : n ∈ q.nodes)
    (hsource : n.source = .nested inner alias?) (h : inner.HasLevel p) : q.HasLevel p := by
  induction h with
  | top => exact .nested .top hn hsource
  | nested _ hm hinner ih => exact .nested ih hm hinner

/-- A level of a request is the request, or a level of one nested in a source of it. -/
theorem Query.HasLevel.top_or_nested {q p : Query} (h : q.HasLevel p) :
    p = q ∨ ∃ n ∈ q.nodes, ∃ inner alias?, n.source = .nested inner alias? ∧ inner.HasLevel p := by
  induction h with
  | top => exact .inl rfl
  | @nested p m lower b? _ hm hlower ih =>
    rcases ih with rfl | ⟨n, hn, inner, alias?, hsource, hp⟩
    · exact .inr ⟨m, hm, lower, b?, hlower, .top⟩
    · exact .inr ⟨n, hn, inner, alias?, hsource, .nested hp hm hlower⟩

mutual

/-- Every request of joins is reached by a path. -/
theorem joinsNodes_path : ∀ (joins : List Join), ∀ n ∈ joinsNodes joins,
    ∃ above j, JoinPath joins above j ∧ j.query = n
  | [], n, hn => by
    rw [joinsNodes] at hn
    cases hn
  | j :: rest, n, hn => by
    rw [joinsNodes] at hn
    rcases List.mem_append.1 hn with hn | hn
    · rcases joinNodes_path j n hn with rfl | ⟨above, k, hk, rfl⟩
      · exact ⟨[], j, .here List.mem_cons_self, rfl⟩
      · exact ⟨j :: above, k, .beneath List.mem_cons_self hk, rfl⟩
    · obtain ⟨above, k, hk, rfl⟩ := joinsNodes_path rest n hn
      exact ⟨above, k, hk.mono (List.subset_cons_self j rest), rfl⟩

theorem joinNodes_path : ∀ (j : Join), ∀ n ∈ joinNodes j,
    n = j.query ∨ ∃ above k, JoinPath j.query.joins above k ∧ k.query = n
  | ⟨key, kind, link, mergedLinks, ⟨source, clauses, joins, isQualified⟩⟩, n, hn => by
    rw [joinNodes, Query.nodes] at hn
    rcases List.mem_cons.1 hn with rfl | hn
    · exact .inl rfl
    · exact .inr (joinsNodes_path joins n hn)

end

/-- The join at the end of a path is a join of a request of the level, and its request is one. -/
theorem JoinPath.mem_nodes {joins above : List Join} {j : Join} (h : JoinPath joins above j) :
    ∀ {q : Query}, q.joins = joins → j.query ∈ q.nodes ∧ ∃ n ∈ q.nodes, j ∈ n.joins := by
  have hself : ∀ q : Query, q ∈ q.nodes := fun q => q.nodes_eq ▸ List.mem_cons_self
  induction h with
  | @here joins j hj =>
    rintro q rfl
    exact ⟨q.nodes_subset_of_mem hj (hself _), q, hself q, hj⟩
  | @beneath joins above k j hk _ ih =>
    rintro q rfl
    obtain ⟨hquery, n, hn, hj⟩ := ih rfl
    exact ⟨q.nodes_subset_of_mem hk hquery, n, q.nodes_subset_of_mem hk hn, hj⟩

/-- A join beneath a join at the end of a path. -/
theorem JoinPath.concat {joins above : List Join} {k j : Join} (h : JoinPath joins above k)
    (hj : j ∈ k.query.joins) : JoinPath joins (above ++ [k]) j := by
  induction h with
  | here hk => exact .beneath hk (.here hj)
  | beneath hk _ ih => exact .beneath hk (ih hj)

/-- The request of a join of a request of a level is a request of the level. -/
theorem Query.query_mem_nodes {q n : Query} {j : Join} (hn : n ∈ q.nodes) (hj : j ∈ n.joins) :
    j.query ∈ q.nodes := by
  rw [q.nodes_eq] at hn
  rcases List.mem_cons.1 hn with rfl | hn
  · exact ((JoinPath.here hj).mem_nodes rfl).1
  · obtain ⟨above, k, hk, rfl⟩ := joinsNodes_path q.joins n hn
    exact ((hk.concat hj).mem_nodes rfl).1

theorem Query.Everywhere.of_hasLevel {P : Query → Prop} {q p : Query} (hq : q.Everywhere P)
    (h : q.HasLevel p) : p.Everywhere P := by
  induction h with
  | top => exact hq
  | @nested p n inner alias? _ hn hsource ih =>
    have hinner := (Query.Everywhere.of_mem_nodes p ih n hn).source
    rw [hsource] at hinner
    exact hinner

/-- The occurrences of a level are among those of the statement. -/
theorem Query.HasLevel.statementAliases_sublist {q p : Query} (h : q.HasLevel p) :
    p.statementAliases.Sublist q.statementAliases := by
  induction h with
  | top => exact List.Sublist.refl _
  | nested _ hn hsource ih => exact (Query.nested_sublist hn hsource).trans ih

/-! ## Relations that keep the shape -/

/-- The joins are the same but for their requests, which are related. -/
structure Join.Related (R : Query → Query → Prop) (j j' : Join) : Prop where
  join : j' = { j with query := j'.query }
  query : R j.query j'.query

/-- The sources are the same table, or related requests. -/
inductive Source.Related (R : Query → Query → Prop) : Source → Source → Prop
  | table {name : String} {alias? alias?' : Option Alias} :
      Source.Related R (.table name alias?) (.table name alias?')
  | nested {q q' : Query} {alias? alias?' : Option Alias} :
      R q q' → Source.Related R (.nested q alias?) (.nested q' alias?')

/-- Related requests have related joins and related sources. -/
structure Query.KeepsShape (R : Query → Query → Prop) : Prop where
  joins : ∀ {q q' : Query}, R q q' → List.Forall₂ (Join.Related R) q.joins q'.joins
  source : ∀ {q q' : Query}, R q q' → Source.Related R q.source q'.source

namespace Query.KeepsShape

variable {R : Query → Query → Prop}

mutual

/-- Related requests have related nodes. -/
theorem nodes (hR : KeepsShape R) : ∀ {q q' : Query}, R q q' → List.Forall₂ R q.nodes q'.nodes
  | ⟨source, clauses, joins, isQualified⟩, q', h => by
    rw [Query.nodes_eq, Query.nodes_eq]
    exact .cons h (joinsNodes hR (hR.joins h))

theorem joinsNodes (hR : KeepsShape R) : ∀ {joins joins' : List Join},
    List.Forall₂ (Join.Related R) joins joins' →
      List.Forall₂ R (SqlTree.joinsNodes joins) (SqlTree.joinsNodes joins')
  | [], _, h => by
    cases h
    exact .nil
  | j :: rest, _, h => by
    cases h with
    | cons hj hrest =>
      rw [SqlTree.joinsNodes, SqlTree.joinsNodes]
      exact List.rel_append (joinNodes hR hj) (joinsNodes hR hrest)

theorem joinNodes (hR : KeepsShape R) : ∀ {j j' : Join}, Join.Related R j j' →
    List.Forall₂ R (SqlTree.joinNodes j) (SqlTree.joinNodes j')
  | ⟨key, kind, link, mergedLinks, query⟩, ⟨_, _, _, _, query'⟩, h => by
    rw [SqlTree.joinNodes, SqlTree.joinNodes]
    exact nodes hR h.query

end

variable {q q' p p' : Query} {joins joins' above above' : List Join} {j j' : Join}
  (hR : KeepsShape R)

include hR

/-- Related requests have related levels. -/
theorem level (hq : R q q') (h : q.HasLevel p) : ∃ p', q'.HasLevel p' ∧ R p p' := by
  induction h with
  | top => exact ⟨q', .top, hq⟩
  | @nested p n inner alias? _ hn hsource ih =>
    obtain ⟨p', hp', hrel⟩ := ih
    obtain ⟨n', hn', hnode⟩ := exists_of_forall₂ (hR.nodes hrel) hn
    have hinner := hR.source hnode
    rw [hsource] at hinner
    generalize hs : n'.source = s' at hinner
    cases hinner with
    | nested hinner => exact ⟨_, .nested hp' hn' hs, hinner⟩

theorem of_level (hq : R q q') (h : q'.HasLevel p') : ∃ p, q.HasLevel p ∧ R p p' := by
  induction h with
  | top => exact ⟨q, .top, hq⟩
  | @nested p' n' inner' alias? _ hn' hsource ih =>
    obtain ⟨p, hp, hrel⟩ := ih
    obtain ⟨n, hn, hnode⟩ := exists_of_forall₂ (hR.nodes hrel).flip hn'
    have hinner := hR.source hnode
    rw [hsource] at hinner
    generalize hs : n.source = s at hinner
    cases hinner with
    | nested hinner => exact ⟨_, .nested hp hn hs, hinner⟩

/-- Related joins have related joins beneath them. -/
theorem path (h : JoinPath joins above j) :
    ∀ {joins'}, List.Forall₂ (Join.Related R) joins joins' →
      ∃ above' j', JoinPath joins' above' j' ∧ List.Forall₂ (Join.Related R) above above' ∧
        Join.Related R j j' := by
  induction h with
  | here hj =>
    intro joins' hjoins
    obtain ⟨j', hj', hrel⟩ := exists_of_forall₂ hjoins hj
    exact ⟨[], j', .here hj', .nil, hrel⟩
  | beneath hk _ ih =>
    intro joins' hjoins
    obtain ⟨k', hk', hrel⟩ := exists_of_forall₂ hjoins hk
    obtain ⟨above', j', hpath, habove, hj⟩ := ih (hR.joins hrel.query)
    exact ⟨k' :: above', j', .beneath hk' hpath, .cons hrel habove, hj⟩

theorem of_path (h : JoinPath joins' above' j') :
    ∀ {joins}, List.Forall₂ (Join.Related R) joins joins' →
      ∃ above j, JoinPath joins above j ∧ List.Forall₂ (Join.Related R) above above' ∧
        Join.Related R j j' := by
  induction h with
  | here hj' =>
    intro joins hjoins
    obtain ⟨j, hj, hrel⟩ := exists_of_forall₂ hjoins.flip hj'
    exact ⟨[], j, .here hj, .nil, hrel⟩
  | beneath hk' _ ih =>
    intro joins hjoins
    obtain ⟨k, hk, hrel⟩ := exists_of_forall₂ hjoins.flip hk'
    obtain ⟨above, j, hpath, habove, hj⟩ := ih (hR.joins hrel.query)
    exact ⟨k :: above, j, .beneath hk hpath, .cons hrel habove, hj⟩

end Query.KeepsShape

/-! ## What becomes of a request -/

/-- What a request becomes when the tree around it is qualified. -/
inductive Query.BecomesUpTo (same : Alias → Alias → Prop) : Query → Query → Prop
  | kept (q : Query) : Query.BecomesUpTo same q q
  | qualified {q q' : Query} : q.QualifiedUpTo same q' → Query.BecomesUpTo same q q'

/-- What a request becomes, whatever its columns are given. -/
abbrev Query.Becomes : Query → Query → Prop := Query.BecomesUpTo fun _ _ => True

/-- What a request becomes in whose tree `P` holds everywhere. -/
structure Query.BecomesAll (P : Query → Prop) (same : Alias → Alias → Prop) (q q' : Query) :
    Prop where
  everywhere : q.Everywhere P
  qualified : q.QualifiedUpTo same q'

section

variable {R : Query → Query → Prop} {P : Query → Prop} {same : Alias → Alias → Prop}

/-- A request is left as it is, or its columns are given the occurrence of its source. -/
theorem Query.BecomesUpTo.cases {q q' : Query} (h : q.BecomesUpTo same q') :
    q' = q ∨ ∃ owner, q.QualifiedByUpTo same owner q' := by
  cases h with
  | kept => exact .inl rfl
  | qualified hq =>
    cases hflag : q.isQualified with
    | true => exact .inl (hq.kept_eq hflag)
    | false => exact .inr (hq.made_by hflag)

/-- The columns of a request that was not qualified are given the occurrence of its source. -/
theorem Query.BecomesAll.made (hP : ∀ n, P n → n.isQualified = false) {q q' : Query}
    (h : q.BecomesAll P same q') : ∃ owner, q.QualifiedByUpTo same owner q' :=
  h.qualified.made_by (hP q h.everywhere.self)

/-- Qualified joins are the joins, with what is qualified in them. -/
theorem JoinsQualifiedUpTo.related : ∀ {joins joins' : List Join},
    (∀ j ∈ joins, ∀ q', j.query.QualifiedUpTo same q' → R j.query q') →
      JoinsQualifiedUpTo same joins joins' → List.Forall₂ (Join.Related R) joins joins'
  | [], _, _, h => by
    cases h
    exact .nil
  | j :: rest, _, hR, h => by
    obtain ⟨hj, hrest⟩ := List.forall_mem_cons.1 hR
    cases h with
    | cons hq hqualified =>
      exact .cons ⟨rfl, hj _ hq⟩ (JoinsQualifiedUpTo.related hrest hqualified)

theorem Source.QualifiedUpTo.related {owner : Alias} {s s' : Source}
    (hR : ∀ inner alias?, s = .nested inner alias? → ∀ q', inner.QualifiedUpTo same q' → R inner q')
    (h : s.QualifiedUpTo same owner s') : s.Related R s' := by
  cases h with
  | table => exact .table
  | nested _ hq => exact .nested (hR _ _ rfl _ hq)

theorem Query.BecomesUpTo.keepsShape : Query.KeepsShape (Query.BecomesUpTo same) where
  joins {q q'} h := by
    rcases h.cases with rfl | ⟨owner, hmade⟩
    · exact List.forall₂_same.2 fun j _ => ⟨by cases j; rfl, .kept j.query⟩
    · exact hmade.joins.related fun _ _ _ => .qualified
  source {q q'} h := by
    rcases h.cases with rfl | ⟨owner, hmade⟩
    · cases q'.source with
      | table name alias? => exact .table
      | nested inner alias? => exact .nested (.kept inner)
    · exact hmade.source.related fun _ _ _ _ => .qualified

theorem Query.BecomesAll.keepsShape (hP : ∀ n, P n → n.isQualified = false) :
    Query.KeepsShape (Query.BecomesAll P same) where
  joins h := by
    obtain ⟨owner, hmade⟩ := h.made hP
    have hjoins := joinsEverywhere_iff.1 h.everywhere.joins
    exact hmade.joins.related fun j hj _ hq => ⟨hjoins j hj, hq⟩
  source h := by
    obtain ⟨owner, hmade⟩ := h.made hP
    refine hmade.source.related fun inner alias? hs q' hq => ⟨?_, hq⟩
    have hsource := h.everywhere.source
    rw [hs] at hsource
    exact hsource

end

end SqlTree
