import SqlTree.Proofs.Alias.Fresh
import SqlTree.Proofs.Query.Coarsens
import SqlTree.Proofs.Runs
import SqlTree.Proofs.Statement.Level
import SqlTree.Query.Qualify
import SqlTree.Statement.Compile

/-!
# Qualified requests

What qualifying makes of a request.

* `Query.QualifiedUpTo` is the shape: the request stays the same tree, every source has an
  occurrence, and the columns of a request are given that of its source, or one that is the same in
  a given sense. `Query.qualify_qualified` is that qualifying gives this shape, and
  `Query.qualify_sameRoot` that the same means of one root in the forest that comes out.
* `Query.Everywhere` says something of all requests of a tree, those nested in sources too.
* `Query.qualify_grows`: the occurrences given to sources that had none are new.
-/

namespace SqlTree

/-! ## The shape -/

mutual

/-- The second request is the first one qualified. What its columns are given is the occurrence of
its source up to `same`. -/
inductive Query.QualifiedUpTo (same : Alias → Alias → Prop) : Query → Query → Prop
  | kept {source : Source} {clauses : Clauses} {joins : List Join} :
      Query.QualifiedUpTo same ⟨source, clauses, joins, true⟩ ⟨source, clauses, joins, true⟩
  | made {owner : Alias} {source source' : Source} {clauses : Clauses} {joins joins' : List Join} :
      Source.QualifiedUpTo same owner source source' → JoinsQualifiedUpTo same joins joins' →
        Query.QualifiedUpTo same ⟨source, clauses, joins, false⟩
          ⟨source', clauses.qualified owner, joins', true⟩

/-- The second source is the first one qualified as the occurrence `owner`. -/
inductive Source.QualifiedUpTo (same : Alias → Alias → Prop) : Alias → Source → Source → Prop
  | table {owner : Alias} {name : String} {alias? : Option Alias} :
      same owner (alias?.getD owner) →
        Source.QualifiedUpTo same owner (.table name alias?) (.table name (alias?.getD owner))
  | nested {owner : Alias} {q q' : Query} {alias? : Option Alias} :
      same owner (alias?.getD owner) → Query.QualifiedUpTo same q q' →
        Source.QualifiedUpTo same owner (.nested q alias?) (.nested q' (alias?.getD owner))

/-- The second joins are the first ones qualified. -/
inductive JoinsQualifiedUpTo (same : Alias → Alias → Prop) : List Join → List Join → Prop
  | nil : JoinsQualifiedUpTo same [] []
  | cons {j : Join} {q' : Query} {rest rest' : List Join} :
      Query.QualifiedUpTo same j.query q' → JoinsQualifiedUpTo same rest rest' →
        JoinsQualifiedUpTo same (j :: rest) ({ j with query := q' } :: rest')

end

/-- The second request is the first one qualified. -/
abbrev Query.Qualified : Query → Query → Prop := Query.QualifiedUpTo fun _ _ => True

/-- The second source is the first one qualified as an occurrence. -/
abbrev Source.Qualified : Alias → Source → Source → Prop := Source.QualifiedUpTo fun _ _ => True

/-- The second joins are the first ones qualified. -/
abbrev JoinsQualified : List Join → List Join → Prop := JoinsQualifiedUpTo fun _ _ => True

/-- What qualifying makes of a request that was not qualified, whose columns it gives to `owner`. -/
structure Query.QualifiedByUpTo (same : Alias → Alias → Prop) (owner : Alias) (q q' : Query) :
    Prop where
  source : q.source.QualifiedUpTo same owner q'.source
  clauses : q'.clauses = q.clauses.qualified owner
  joins : JoinsQualifiedUpTo same q.joins q'.joins

/-- What qualifying makes of a request that was not qualified. -/
abbrev Query.QualifiedBy : Alias → Query → Query → Prop := Query.QualifiedByUpTo fun _ _ => True

section

variable {same : Alias → Alias → Prop}

theorem Query.QualifiedUpTo.made_by {q q' : Query} (h : q.QualifiedUpTo same q')
    (hq : q.isQualified = false) : ∃ owner, q.QualifiedByUpTo same owner q' := by
  cases h with
  | kept => cases hq
  | made hsource hjoins => exact ⟨_, hsource, rfl, hjoins⟩

theorem Query.QualifiedUpTo.kept_eq {q q' : Query} (h : q.QualifiedUpTo same q')
    (hq : q.isQualified = true) : q' = q := by
  cases h with
  | kept => rfl
  | made => cases hq

theorem JoinsQualifiedUpTo.eq_nil_iff {joins joins' : List Join}
    (h : JoinsQualifiedUpTo same joins joins') : joins = [] ↔ joins' = [] := by
  cases h <;> simp

theorem Source.QualifiedUpTo.alias?_eq {owner : Alias} {s s' : Source}
    (h : s.QualifiedUpTo same owner s') : s'.alias? = some (s.alias?.getD owner) := by
  cases h <;> rfl

theorem Source.QualifiedUpTo.tableName?_eq {owner : Alias} {s s' : Source}
    (h : s.QualifiedUpTo same owner s') : s'.tableName? = s.tableName? := by
  cases h <;> rfl

theorem Source.QualifiedUpTo.same_getD {owner : Alias} {s s' : Source}
    (h : s.QualifiedUpTo same owner s') : same owner (s.alias?.getD owner) := by
  cases h <;> assumption

/-- Qualifying what was qualified leaves it as it is. -/
theorem Query.QualifiedUpTo.qualify_eq {q q' : Query} (h : q.QualifiedUpTo same q') :
    q'.qualify = pure q' := by
  cases h <;> rfl

end

/-- The terms of a qualified filter are those of the filter, qualified. -/
theorem Clauses.filterTerms_qualified (db : Schema) (owner : Alias) (c : Clauses) :
    filterTerms db (c.qualified owner).filter? =
      (·.map (·.qualified owner)) <$> filterTerms db c.filter? := by
  rw [qualified]
  cases c.filter? with
  | none => rfl
  | some l =>
    simp only [Option.map_some, filterTerms, Lookup.resolve_map]
    cases l.resolve db with
    | error e => rfl
    | ok e => simp only [Except.map, Functor.map, e.conjuncts_qualified]

/-! ## Occurrences of a run -/

section

variable {G : Prop} {h : Forest}

mutual

/-- Qualifying gives the qualified request. In forests whose chains end, which is what `G` is for,
its columns are given the occurrence of its source, also in every coarser forest `h`. -/
theorem Query.qualify_upTo : ∀ (q : Query) {f g : Forest} {q' : Query},
    (G → f.IsGrounded ∧ Forest.Coarsens g h) → AliasM.Runs q.qualify f q' g →
      q.QualifiedUpTo (fun a b => G → h.root a = h.root b) q'
  | ⟨source, clauses, joins, true⟩, f, g, q', _, hruns => by
    rw [Query.qualify, AliasM.runs_pure] at hruns
    obtain ⟨rfl, -⟩ := hruns
    exact .kept
  | ⟨source, clauses, joins, false⟩, f, g, q', hG, hruns => by
    simp only [Query.qualify, AliasM.runs_bind, AliasM.runs_pure, AliasM.runs_fresh] at hruns
    obtain ⟨owner, f₁, ⟨rfl, rfl⟩, source', f₂, hsource, joins', f₃, hjoins, rfl, rfl⟩ := hruns
    have hfresh : G → (f.fresh none).2.IsGrounded :=
      fun hg => (Forest.fresh_coarsens (hG hg).1 none).grounded
    have hsources : G → Forest.Coarsens (f.fresh none).2 f₂ :=
      fun hg => source.qualify_coarsens (hfresh hg) hsource
    refine .made (source.qualify_upTo (fun hg => ⟨hfresh hg, ?_⟩) ?_ hsource)
      (qualifyJoins_upTo joins (fun hg => ⟨(hsources hg).grounded, (hG hg).2⟩) hjoins)
    · exact (qualifyJoins_coarsens joins (hsources hg).grounded hjoins).trans (hG hg).2
    · exact f.made_fresh none
termination_by structural q => q

theorem Source.qualify_upTo {owner : Alias} : ∀ (s : Source) {f g : Forest} {s' : Source},
    (G → f.IsGrounded ∧ Forest.Coarsens g h) → f.Made owner →
      AliasM.Runs (s.qualify owner) f s' g →
        s.QualifiedUpTo (fun a b => G → h.root a = h.root b) owner s'
  | .table name none, f, g, s', _, _, hruns => by
    simp only [Source.qualify, AliasM.runs_bind, AliasM.runs_pure] at hruns
    obtain ⟨_, _, -, rfl, -⟩ := hruns
    exact .table fun _ => rfl
  | .table name (some own), f, g, s', hG, howner, hruns => by
    simp only [Source.qualify, AliasM.bind, AliasM.link, AliasM.runs_bind, AliasM.runs_pure,
      AliasM.runs_change] at hruns
    obtain ⟨_, f₁, hbind, _, f₂, hlink, rfl, rfl⟩ := hruns
    refine .table fun hg => (hG hg).2.same _ _ ?_
    have hkept := Forest.sameProxies_bind (hG hg).1 hbind
    exact (howner.sameProxies hkept).link_eq (hkept.root_eq (hG hg).1).1.grounded hlink
  | .nested query none, f, g, s', hG, _, hruns => by
    simp only [Source.qualify, AliasM.runs_bind, AliasM.runs_pure] at hruns
    obtain ⟨query', _, hquery, rfl, rfl⟩ := hruns
    exact .nested (fun _ => rfl) (query.qualify_upTo hG hquery)
  | .nested query (some own), f, g, s', hG, howner, hruns => by
    simp only [Source.qualify, AliasM.link, AliasM.runs_bind, AliasM.runs_pure,
      AliasM.runs_change] at hruns
    obtain ⟨_, f₁, hlink, query', _, hquery, rfl, rfl⟩ := hruns
    have hlinked : G → f₁.IsGrounded :=
      fun hg => (Forest.link_root_eq (hG hg).1 hlink).1.grounded
    refine .nested (fun hg => ?_)
      (query.qualify_upTo (fun hg => ⟨hlinked hg, (hG hg).2⟩) hquery)
    have hlater := (query.qualify_coarsens (hlinked hg) hquery).trans (hG hg).2
    exact hlater.same _ _ (howner.link_eq (hG hg).1 hlink)
termination_by structural s => s

theorem qualifyJoins_upTo : ∀ (joins : List Join) {f g : Forest} {joins' : List Join},
    (G → f.IsGrounded ∧ Forest.Coarsens g h) → AliasM.Runs (qualifyJoins joins) f joins' g →
      JoinsQualifiedUpTo (fun a b => G → h.root a = h.root b) joins joins'
  | [], f, g, joins', _, hruns => by
    rw [qualifyJoins, AliasM.runs_pure] at hruns
    obtain ⟨rfl, -⟩ := hruns
    exact .nil
  | j :: rest, f, g, joins', hG, hruns => by
    simp only [qualifyJoins, AliasM.runs_bind, AliasM.runs_pure] at hruns
    obtain ⟨j', f₁, hj, rest', f₂, hrest, rfl, rfl⟩ := hruns
    have hfirst : G → Forest.Coarsens f f₁ := fun hg => Join.qualify_coarsens j (hG hg).1 hj
    have hlater : G → Forest.Coarsens f₁ h := fun hg =>
      (qualifyJoins_coarsens rest (hfirst hg).grounded hrest).trans (hG hg).2
    obtain ⟨q', rfl, hq⟩ := Join.qualify_upTo j (fun hg => ⟨(hG hg).1, hlater hg⟩) hj
    exact .cons hq (qualifyJoins_upTo rest (fun hg => ⟨(hfirst hg).grounded, (hG hg).2⟩) hrest)
termination_by structural joins => joins

theorem Join.qualify_upTo : ∀ (j : Join) {f g : Forest} {j' : Join},
    (G → f.IsGrounded ∧ Forest.Coarsens g h) → AliasM.Runs j.qualify f j' g →
      ∃ q', j' = { j with query := q' } ∧
        j.query.QualifiedUpTo (fun a b => G → h.root a = h.root b) q'
  | ⟨key, kind, link, mergedLinks, query⟩, f, g, j', hG, hruns => by
    simp only [Join.qualify, AliasM.runs_bind, AliasM.runs_pure] at hruns
    obtain ⟨q', _, hq, rfl, rfl⟩ := hruns
    exact ⟨q', rfl, query.qualify_upTo hG hq⟩
termination_by structural j => j

end

end

/-- **Qualifying a request gives the qualified request.** -/
theorem Query.qualify_qualified (q : Query) {f g : Forest} {q' : Query}
    (h : AliasM.Runs q.qualify f q' g) : q.Qualified q' := by
  have hupTo := q.qualify_upTo (G := False) (h := g) False.elim h
  simpa only [false_implies] using hupTo

/-- **The columns of a qualified request are given the occurrence of its source.** -/
theorem Query.qualify_sameRoot (q : Query) {f g : Forest} {q' : Query} (hf : f.IsGrounded)
    (h : AliasM.Runs q.qualify f q' g) :
    q.QualifiedUpTo (fun a b => g.root a = g.root b) q' := by
  have hg := (q.qualify_coarsens hf h).grounded.coarsens_self
  have hupTo := q.qualify_upTo (G := True) (h := g) (fun _ => ⟨hf, hg⟩) h
  simpa only [true_implies] using hupTo

/-! ## Everywhere in a tree -/

mutual

/-- What holds of a request, the requests of its joins and those nested in sources. -/
def Query.Everywhere (P : Query → Prop) : Query → Prop
  | ⟨source, clauses, joins, isQualified⟩ =>
    P ⟨source, clauses, joins, isQualified⟩ ∧ source.Everywhere P ∧ joinsEverywhere P joins

/-- What holds everywhere in a request nested in a source. -/
def Source.Everywhere (P : Query → Prop) : Source → Prop
  | .table _ _ => True
  | .nested query _ => query.Everywhere P

/-- What holds everywhere in joins. -/
def joinsEverywhere (P : Query → Prop) : List Join → Prop
  | [] => True
  | j :: rest => joinEverywhere P j ∧ joinsEverywhere P rest

/-- What holds everywhere in the request of a join. -/
def joinEverywhere (P : Query → Prop) : Join → Prop
  | ⟨_, _, _, _, query⟩ => query.Everywhere P

end

mutual

theorem Query.Everywhere.mono {P Q : Query → Prop} (h : ∀ q, P q → Q q) : ∀ q : Query,
    q.Everywhere P → q.Everywhere Q
  | ⟨_, _, joins, _⟩, hq =>
    ⟨h _ hq.1, Source.everywhere_mono h _ hq.2.1, joinsEverywhere_mono h joins hq.2.2⟩

theorem Source.everywhere_mono {P Q : Query → Prop} (h : ∀ q, P q → Q q) : ∀ s : Source,
    s.Everywhere P → s.Everywhere Q
  | .table _ _, _ => trivial
  | .nested query _, hs => Query.Everywhere.mono h query hs

theorem joinsEverywhere_mono {P Q : Query → Prop} (h : ∀ q, P q → Q q) : ∀ joins : List Join,
    joinsEverywhere P joins → joinsEverywhere Q joins
  | [], _ => trivial
  | j :: rest, hj => ⟨joinEverywhere_mono h j hj.1, joinsEverywhere_mono h rest hj.2⟩

theorem joinEverywhere_mono {P Q : Query → Prop} (h : ∀ q, P q → Q q) : ∀ j : Join,
    joinEverywhere P j → joinEverywhere Q j
  | ⟨_, _, _, _, query⟩, hj => Query.Everywhere.mono h query hj

end

mutual

/-- What holds everywhere holds everywhere together. -/
theorem Query.Everywhere.and {P Q : Query → Prop} : ∀ q : Query, q.Everywhere P → q.Everywhere Q →
    q.Everywhere fun p => P p ∧ Q p
  | ⟨_, _, joins, _⟩, hP, hQ =>
    ⟨⟨hP.1, hQ.1⟩, Source.everywhere_and _ hP.2.1 hQ.2.1, joinsEverywhere_and joins hP.2.2 hQ.2.2⟩

theorem Source.everywhere_and {P Q : Query → Prop} : ∀ s : Source, s.Everywhere P →
    s.Everywhere Q → s.Everywhere fun p => P p ∧ Q p
  | .table _ _, _, _ => trivial
  | .nested query _, hP, hQ => Query.Everywhere.and query hP hQ

theorem joinsEverywhere_and {P Q : Query → Prop} : ∀ joins : List Join, joinsEverywhere P joins →
    joinsEverywhere Q joins → joinsEverywhere (fun p => P p ∧ Q p) joins
  | [], _, _ => trivial
  | j :: rest, hP, hQ => ⟨joinEverywhere_and j hP.1 hQ.1, joinsEverywhere_and rest hP.2 hQ.2⟩

theorem joinEverywhere_and {P Q : Query → Prop} : ∀ j : Join, joinEverywhere P j →
    joinEverywhere Q j → joinEverywhere (fun p => P p ∧ Q p) j
  | ⟨_, _, _, _, query⟩, hP, hQ => Query.Everywhere.and query hP hQ

end

mutual

/-- All that holds everywhere holds everywhere together. -/
theorem Query.Everywhere.forall {ι : Sort*} {P : ι → Query → Prop} : ∀ q : Query,
    (∀ i, q.Everywhere (P i)) → q.Everywhere fun p => ∀ i, P i p
  | ⟨_, _, joins, _⟩, h =>
    ⟨fun i => (h i).1, Source.everywhere_forall _ fun i => (h i).2.1,
      joinsEverywhere_forall joins fun i => (h i).2.2⟩

theorem Source.everywhere_forall {ι : Sort*} {P : ι → Query → Prop} : ∀ s : Source,
    (∀ i, s.Everywhere (P i)) → s.Everywhere fun p => ∀ i, P i p
  | .table _ _, _ => trivial
  | .nested query _, h => Query.Everywhere.forall query h

theorem joinsEverywhere_forall {ι : Sort*} {P : ι → Query → Prop} : ∀ joins : List Join,
    (∀ i, joinsEverywhere (P i) joins) → joinsEverywhere (fun p => ∀ i, P i p) joins
  | [], _ => trivial
  | j :: rest, h =>
    ⟨joinEverywhere_forall j fun i => (h i).1, joinsEverywhere_forall rest fun i => (h i).2⟩

theorem joinEverywhere_forall {ι : Sort*} {P : ι → Query → Prop} : ∀ j : Join,
    (∀ i, joinEverywhere (P i) j) → joinEverywhere (fun p => ∀ i, P i p) j
  | ⟨_, _, _, _, query⟩, h => Query.Everywhere.forall query h

end

theorem Query.Everywhere.self {P : Query → Prop} {q : Query} (h : q.Everywhere P) : P q := by
  cases q
  exact h.1

theorem Query.Everywhere.source {P : Query → Prop} {q : Query} (h : q.Everywhere P) :
    q.source.Everywhere P := by
  cases q
  exact h.2.1

theorem Query.Everywhere.joins {P : Query → Prop} {q : Query} (h : q.Everywhere P) :
    joinsEverywhere P q.joins := by
  cases q
  exact h.2.2

theorem joinEverywhere_iff {P : Query → Prop} {j : Join} :
    joinEverywhere P j ↔ j.query.Everywhere P := by
  cases j
  rfl

theorem joinsEverywhere_iff {P : Query → Prop} {joins : List Join} :
    joinsEverywhere P joins ↔ ∀ j ∈ joins, j.query.Everywhere P := by
  induction joins with
  | nil => simp [joinsEverywhere]
  | cons j rest ih => rw [joinsEverywhere, joinEverywhere_iff, ih, List.forall_mem_cons]

mutual

/-- What holds everywhere in a request holds everywhere in its nodes. -/
theorem Query.Everywhere.of_mem_nodes {P : Query → Prop} : ∀ q : Query, q.Everywhere P →
    ∀ p ∈ q.nodes, p.Everywhere P
  | ⟨source, clauses, joins, isQualified⟩, hq, p, hp => by
    rw [Query.nodes] at hp
    rcases List.mem_cons.1 hp with rfl | hp
    · exact hq
    · exact joinsEverywhere_of_mem_nodes joins hq.2.2 p hp

theorem joinsEverywhere_of_mem_nodes {P : Query → Prop} : ∀ joins : List Join,
    joinsEverywhere P joins → ∀ p ∈ joinsNodes joins, p.Everywhere P
  | [], _, p, hp => by
    rw [joinsNodes] at hp
    cases hp
  | j :: rest, hj, p, hp => by
    rw [joinsNodes] at hp
    rcases List.mem_append.1 hp with hp | hp
    · exact joinEverywhere_of_mem_nodes j hj.1 p hp
    · exact joinsEverywhere_of_mem_nodes rest hj.2 p hp

theorem joinEverywhere_of_mem_nodes {P : Query → Prop} : ∀ j : Join, joinEverywhere P j →
    ∀ p ∈ joinNodes j, p.Everywhere P
  | ⟨_, _, _, _, query⟩, hj, p, hp => Query.Everywhere.of_mem_nodes query hj p hp

end

/-! ## New occurrences -/

/-- A request that was not qualified, on a source that is no occurrence yet. -/
def Query.IsUnnamed (q : Query) : Prop := q.isQualified = false ∧ q.source.alias? = none

mutual

/-- **The occurrences of a tree without occurrences are new.** -/
theorem Query.qualify_grows : ∀ (q : Query) {f g : Forest} {q' : Query},
    q.Everywhere Query.IsUnnamed → AliasM.Runs q.qualify f q' g →
      Forest.Grows f g q'.statementAliases
  | ⟨source, clauses, joins, true⟩, f, g, q', hq, h => by
    have hfalse : true = false := hq.self.1
    cases hfalse
  | ⟨source, clauses, joins, false⟩, f, g, q', hq, h => by
    simp only [Query.qualify, AliasM.runs_bind, AliasM.runs_pure, AliasM.runs_fresh] at h
    obtain ⟨owner, f₁, ⟨rfl, rfl⟩, source', f₂, hsource, joins', f₃, hjoins, rfl, rfl⟩ := h
    have hgrows := source.qualify_grows hq.self.2 hq.source (f.grows_fresh none) hsource
    exact hgrows.append (qualifyJoins_grows joins hq.joins hjoins)
termination_by structural q => q

theorem Source.qualify_grows {e f : Forest} {owner : Alias} : ∀ (s : Source) {g : Forest}
    {s' : Source}, s.alias? = none → s.Everywhere Query.IsUnnamed → Forest.Grows e f [owner] →
      AliasM.Runs (s.qualify owner) f s' g → Forest.Grows e g s'.statementAliases
  | .table name (some _), g, s', hs, _, _, h => by cases hs
  | .nested query (some _), g, s', hs, _, _, h => by cases hs
  | .table name none, g, s', _, _, howner, h => by
    simp only [Source.qualify, AliasM.bind, AliasM.runs_bind, AliasM.runs_pure,
      AliasM.runs_change] at h
    obtain ⟨_, f', hbind, rfl, rfl⟩ := h
    exact howner.bind hbind
  | .nested query none, g, s', _, hs, howner, h => by
    simp only [Source.qualify, AliasM.runs_bind, AliasM.runs_pure] at h
    obtain ⟨query', f', hquery, rfl, rfl⟩ := h
    exact howner.append (query.qualify_grows hs hquery)
termination_by structural s => s

theorem qualifyJoins_grows : ∀ (joins : List Join) {f g : Forest} {joins' : List Join},
    joinsEverywhere Query.IsUnnamed joins → AliasM.Runs (qualifyJoins joins) f joins' g →
      Forest.Grows f g (joinsStatementAliases joins')
  | [], f, g, joins', _, h => by
    rw [qualifyJoins, AliasM.runs_pure] at h
    obtain ⟨rfl, rfl⟩ := h
    exact .nil _
  | j :: rest, f, g, joins', hj, h => by
    simp only [qualifyJoins, AliasM.runs_bind, AliasM.runs_pure] at h
    obtain ⟨j', f', hfirst, rest', g', hrest, rfl, rfl⟩ := h
    exact (joinQualify_grows j hj.1 hfirst).append (qualifyJoins_grows rest hj.2 hrest)
termination_by structural joins => joins

theorem joinQualify_grows : ∀ (j : Join) {f g : Forest} {j' : Join},
    joinEverywhere Query.IsUnnamed j → AliasM.Runs j.qualify f j' g →
      Forest.Grows f g (joinStatementAliases j')
  | ⟨key, kind, link, mergedLinks, query⟩, f, g, j', hj, h => by
    simp only [Join.qualify, AliasM.runs_bind, AliasM.runs_pure] at h
    obtain ⟨query', f', hquery, rfl, rfl⟩ := h
    exact query.qualify_grows hj hquery
termination_by structural j => j

end

/-! ## Statements of qualified requests -/

section

variable {db : Schema} {q q' : Query} {f g : Forest}

/-- A request that was qualified is selected as what it was qualified to. -/
theorem Query.outcome_selectStatement (h : AliasM.Runs q.qualify f q' g) :
    (q.selectStatement db).outcome f = (·.fragment.statement) <$> q'.selectIn g db := by
  rw [selectStatement, h.outcome_bind, AliasM.outcome_read]

/-- A request that was qualified is deleted as what it was qualified to. -/
theorem Query.outcome_deleteStatement (h : AliasM.Runs q.qualify f q' g) :
    (q.deleteStatement db).outcome f = (·.fragment.statement) <$> q'.deleteIn g db := by
  rw [deleteStatement, h.outcome_bind, AliasM.outcome_read]

end

/-! ## Sites -/

/-- The second site is the first one qualified. -/
structure Site.Qualified (site site' : Site Alias) : Prop where
  left : site'.left = site.left
  right : site'.right = site.right
  join : site'.join = { site.join with query := site'.query }
  query : site.query.Qualified site'.query

/-- The sites of qualified joins are those of the joins. -/
theorem JoinsQualified.sites {left : Alias} {joins' : List Join} {sites' : List (Site Alias)}
    (h : JoinSites left joins' sites') : ∀ {joins : List Join}, JoinsQualified joins joins' →
      joinsEverywhere Query.IsUnnamed joins →
        ∃ sites, JoinSites left joins sites ∧ List.Forall₂ Site.Qualified sites sites' := by
  induction h with
  | nil =>
    intro joins hjoins _
    cases hjoins
    exact ⟨[], .nil, .nil⟩
  | @cons left right j' rest' below' behind' _ _ ihBelow ihBehind =>
    intro joins hjoins hunnamed
    cases hjoins with
    | @cons j q' rest _ hq hrest =>
      have hquery := joinEverywhere_iff.1 hunnamed.1
      obtain ⟨owner, hmade⟩ := hq.made_by hquery.self.1
      obtain ⟨below, hbelow, hbelow'⟩ := ihBelow hmade.joins hquery.joins
      obtain ⟨behind, hbehind, hbehind'⟩ := ihBehind hrest hunnamed.2
      refine ⟨_, .cons hbelow hbehind, .cons ⟨rfl, rfl, rfl, hq⟩ ?_⟩
      exact List.rel_append hbelow' hbehind'

end SqlTree
