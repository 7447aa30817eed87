import SqlTree.Proofs.Alias.Skip
import SqlTree.Proofs.Query.Relabel
import SqlTree.Proofs.Query.Within

/-!
# Qualifying behind one identity more

Qualifying a request makes identities, so what it gives depends on how many there are. With one
identity more in the forest it gives the same request, with other identities.

* `Query.IsWithin.relabel_eq_self`: a request within a forest stays as it is when later identities
  are numbered in another way.
* `Query.qualify_skips`: what is qualified in a forest can be qualified in one that passes over an
  identity, with the same result up to `Alias.skip`.
-/

namespace SqlTree

/-! ## Identities that stay -/

section

variable {f : Forest} {m : Alias → Alias}

theorem map_eq_self {α : Type} {k : α → α} {as : List α} (h : ∀ a ∈ as, k a = a) :
    as.map k = as :=
  (List.map_congr_left h).trans (List.map_id as)

theorem optionMap_eq_self {α : Type} {k : α → α} {a? : Option α} (h : ∀ a ∈ a?, k a = a) :
    a?.map k = a? := by
  cases a? with
  | none => rfl
  | some a => rw [Option.map_some, h a rfl]

theorem Expr.IsWithin.relabel_eq_self (hm : ∀ a, f.Holds a → m a = a) {e : Expr Alias}
    (he : e.IsWithin f) : e.relabel m = e :=
  Expr.relabel_eq_self e fun c hc => optionMap_eq_self fun a ha => hm a (he c hc a ha)

theorem SelectItem.IsWithin.relabel_eq_self (hm : ∀ a, f.Holds a → m a = a)
    {i : SelectItem Alias} (hi : i.IsWithin f) : i.relabel m = i := by
  cases i with
  | star owner? =>
    exact congrArg star (optionMap_eq_self fun a ha => hm a (hi a ha))
  | expr e name? =>
    rw [relabel, Expr.IsWithin.relabel_eq_self hm hi]

theorem Query.IsNodeWithin.clauses_relabel_eq_self (hm : ∀ a, f.Holds a → m a = a) {q : Query}
    (hq : q.IsNodeWithin f) : q.clauses.relabel m = q.clauses := by
  have hselection : q.clauses.selection.map (·.relabel m) = q.clauses.selection :=
    map_eq_self fun i hi => (hq.selection i hi).relabel_eq_self hm
  have hfilter : q.clauses.filter?.map (·.map (·.relabel m)) = q.clauses.filter? :=
    optionMap_eq_self fun l hl => Lookup.map_eq_self fun db e he =>
      (hq.filter l hl db e he).relabel_eq_self hm
  have hgroup : q.clauses.group?.map (·.map (·.map (·.relabel m))) = q.clauses.group? :=
    optionMap_eq_self fun l hl => Lookup.map_eq_self fun db es hes =>
      map_eq_self fun e he => (hq.group l hl db es hes e he).relabel_eq_self hm
  have hhaving : q.clauses.having?.map (·.relabel m) = q.clauses.having? :=
    optionMap_eq_self fun e he => (hq.having e he).relabel_eq_self hm
  have horder : q.clauses.order.relabel m = q.clauses.order :=
    SortOrder.relabel_eq_self _ fun e he => (hq.order e he).relabel_eq_self hm
  rw [Clauses.relabel, hselection, hfilter, hgroup, hhaving, horder]

mutual

/-- **Identities of a forest that stay leave a request within it as it is.** -/
theorem Query.IsWithin.relabel_eq_self (hm : ∀ a, f.Holds a → m a = a) : ∀ q : Query,
    q.IsWithin f → q.relabel m = q
  | ⟨source, clauses, joins, isQualified⟩, hq => by
    have hclauses : clauses.relabel m = clauses := hq.self.clauses_relabel_eq_self hm
    rw [Query.relabel, Source.relabel_eq_self hm source hq.self.source hq.source, hclauses,
      relabelJoins_eq_self hm joins hq.joins]

theorem Source.relabel_eq_self (hm : ∀ a, f.Holds a → m a = a) : ∀ s : Source,
    (∀ a ∈ s.alias?, f.Holds a) → s.Everywhere (Query.IsNodeWithin f) → s.relabel m = s
  | .table name alias?, ha, _ => by
    have howner : alias?.map m = alias? := optionMap_eq_self fun a h => hm a (ha a h)
    rw [Source.relabel, howner]
  | .nested query alias?, ha, hs => by
    have howner : alias?.map m = alias? := optionMap_eq_self fun a h => hm a (ha a h)
    rw [Source.relabel, howner, Query.IsWithin.relabel_eq_self hm query hs]

theorem relabelJoins_eq_self (hm : ∀ a, f.Holds a → m a = a) : ∀ joins : List Join,
    joinsEverywhere (Query.IsNodeWithin f) joins → relabelJoins m joins = joins
  | [], _ => rfl
  | j :: rest, hj => by
    rw [relabelJoins, Join.relabel_eq_self hm j hj.1, relabelJoins_eq_self hm rest hj.2]

theorem Join.relabel_eq_self (hm : ∀ a, f.Holds a → m a = a) : ∀ j : Join,
    joinEverywhere (Query.IsNodeWithin f) j → j.relabel m = j
  | ⟨_, _, _, _, query⟩, hj => by
    rw [Join.relabel, Query.IsWithin.relabel_eq_self hm query hj]

end

end

/-! ## Qualifying -/

section

variable {n : Nat}

mutual

/-- **What is qualified in a forest is qualified behind one identity more**, with later identities
numbered one higher. -/
theorem Query.qualify_skips : ∀ (q : Query) {f g f' : Forest} {q' : Query},
    f.IsGrounded → Forest.Skips n f f' → AliasM.Runs q.qualify f q' g →
      ∃ g', AliasM.Runs (q.relabel (·.skip n)).qualify f' (q'.relabel (·.skip n)) g' ∧
        Forest.Skips n g g'
  | ⟨source, clauses, joins, true⟩, f, g, f', q', _, hs, h => by
    rw [Query.qualify, AliasM.runs_pure] at h
    obtain ⟨rfl, rfl⟩ := h
    exact ⟨f', AliasM.runs_pure.2 ⟨rfl, rfl⟩, hs⟩
  | ⟨source, clauses, joins, false⟩, f, g, f', q', hf, hs, h => by
    simp only [Query.qualify, AliasM.runs_bind, AliasM.runs_pure, AliasM.runs_fresh] at h
    obtain ⟨owner, f₁, ⟨rfl, rfl⟩, source', f₂, hsource, joins', f₃, hjoins, rfl, rfl⟩ := h
    obtain ⟨howner, hs₁⟩ := hs.fresh none
    have hfresh := (Forest.fresh_coarsens hf none).grounded
    obtain ⟨g₂, hsource', hs₂⟩ := source.qualify_skips hfresh hs₁ hsource
    have hsources := (source.qualify_coarsens hfresh hsource).grounded
    obtain ⟨g₃, hjoins', hs₃⟩ := qualifyJoins_skips joins hsources hs₂ hjoins
    refine ⟨g₃, ?_, hs₃⟩
    simp only [Query.relabel, Query.qualify, AliasM.runs_bind, AliasM.runs_pure,
      AliasM.runs_fresh]
    refine ⟨(f.fresh none).1.skip n, _, Prod.ext howner.symm rfl, _, _, hsource', _, _, hjoins',
      ?_, rfl⟩
    rw [Clauses.qualified_relabel]
    rfl
termination_by structural q => q

theorem Source.qualify_skips {owner : Alias} : ∀ (s : Source) {f g f' : Forest} {s' : Source},
    f.IsGrounded → Forest.Skips n f f' → AliasM.Runs (s.qualify owner) f s' g →
      ∃ g', AliasM.Runs ((s.relabel (·.skip n)).qualify (owner.skip n)) f'
        (s'.relabel (·.skip n)) g' ∧ Forest.Skips n g g'
  | .table name none, f, g, f', s', hf, hs, h => by
    simp only [Source.qualify, AliasM.bind, AliasM.runs_bind, AliasM.runs_pure,
      AliasM.runs_change] at h
    obtain ⟨_, f₁, hbind, rfl, rfl⟩ := h
    obtain ⟨g₁, hbind', hs₁⟩ := hs.bind hf hbind
    refine ⟨g₁, ?_, hs₁⟩
    simp only [Source.relabel, Source.qualify, Option.map_none, AliasM.bind, AliasM.runs_bind,
      AliasM.runs_pure, AliasM.runs_change]
    exact ⟨(), g₁, hbind', rfl, rfl⟩
  | .table name (some own), f, g, f', s', hf, hs, h => by
    simp only [Source.qualify, AliasM.bind, AliasM.link, AliasM.runs_bind, AliasM.runs_pure,
      AliasM.runs_change] at h
    obtain ⟨_, f₁, hbind, _, f₂, hlink, rfl, rfl⟩ := h
    obtain ⟨g₁, hbind', hs₁⟩ := hs.bind hf hbind
    obtain ⟨g₂, hlink', hs₂⟩ := hs₁.link (Forest.bind_coarsens hf hbind).grounded hlink
    refine ⟨g₂, ?_, hs₂⟩
    simp only [Source.relabel, Source.qualify, Option.map_some, AliasM.bind, AliasM.link,
      AliasM.runs_bind, AliasM.runs_pure, AliasM.runs_change]
    exact ⟨(), g₁, hbind', (), g₂, hlink', trivial, rfl⟩
  | .nested query none, f, g, f', s', hf, hs, h => by
    simp only [Source.qualify, AliasM.runs_bind, AliasM.runs_pure] at h
    obtain ⟨query', f₁, hquery, rfl, rfl⟩ := h
    obtain ⟨g₁, hquery', hs₁⟩ := query.qualify_skips hf hs hquery
    refine ⟨g₁, ?_, hs₁⟩
    simp only [Source.relabel, Source.qualify, Option.map_none, AliasM.runs_bind,
      AliasM.runs_pure]
    exact ⟨_, g₁, hquery', rfl, rfl⟩
  | .nested query (some own), f, g, f', s', hf, hs, h => by
    simp only [Source.qualify, AliasM.link, AliasM.runs_bind, AliasM.runs_pure,
      AliasM.runs_change] at h
    obtain ⟨_, f₁, hlink, query', f₂, hquery, rfl, rfl⟩ := h
    obtain ⟨g₁, hlink', hs₁⟩ := hs.link hf hlink
    have hlinked := (Forest.link_root_eq hf hlink).1.grounded
    obtain ⟨g₂, hquery', hs₂⟩ := query.qualify_skips hlinked hs₁ hquery
    refine ⟨g₂, ?_, hs₂⟩
    simp only [Source.relabel, Source.qualify, Option.map_some, AliasM.link, AliasM.runs_bind,
      AliasM.runs_pure, AliasM.runs_change]
    exact ⟨(), g₁, hlink', _, g₂, hquery', rfl, rfl⟩
termination_by structural s => s

theorem qualifyJoins_skips : ∀ (joins : List Join) {f g f' : Forest} {joins' : List Join},
    f.IsGrounded → Forest.Skips n f f' → AliasM.Runs (qualifyJoins joins) f joins' g →
      ∃ g', AliasM.Runs (qualifyJoins (relabelJoins (·.skip n) joins)) f'
        (relabelJoins (·.skip n) joins') g' ∧ Forest.Skips n g g'
  | [], f, g, f', joins', _, hs, h => by
    rw [qualifyJoins, AliasM.runs_pure] at h
    obtain ⟨rfl, rfl⟩ := h
    exact ⟨f', AliasM.runs_pure.2 ⟨rfl, rfl⟩, hs⟩
  | j :: rest, f, g, f', joins', hf, hs, h => by
    simp only [qualifyJoins, AliasM.runs_bind, AliasM.runs_pure] at h
    obtain ⟨j', f₁, hj, rest', f₂, hrest, rfl, rfl⟩ := h
    obtain ⟨g₁, hj', hs₁⟩ := Join.qualify_skips j hf hs hj
    have hfirst := (Join.qualify_coarsens j hf hj).grounded
    obtain ⟨g₂, hrest', hs₂⟩ := qualifyJoins_skips rest hfirst hs₁ hrest
    refine ⟨g₂, ?_, hs₂⟩
    simp only [relabelJoins, qualifyJoins, AliasM.runs_bind, AliasM.runs_pure]
    exact ⟨_, g₁, hj', _, g₂, hrest', rfl, rfl⟩
termination_by structural joins => joins

theorem Join.qualify_skips : ∀ (j : Join) {f g f' : Forest} {j' : Join}, f.IsGrounded →
    Forest.Skips n f f' → AliasM.Runs j.qualify f j' g →
      ∃ g', AliasM.Runs (j.relabel (·.skip n)).qualify f' (j'.relabel (·.skip n)) g' ∧
        Forest.Skips n g g'
  | ⟨key, kind, link, mergedLinks, query⟩, f, g, f', j', hf, hs, h => by
    simp only [Join.qualify, AliasM.runs_bind, AliasM.runs_pure] at h
    obtain ⟨q', f₁, hq, rfl, rfl⟩ := h
    obtain ⟨g₁, hq', hs₁⟩ := query.qualify_skips hf hs hq
    refine ⟨g₁, ?_, hs₁⟩
    simp only [Join.relabel, Join.qualify, AliasM.runs_bind, AliasM.runs_pure]
    exact ⟨_, g₁, hq', rfl, rfl⟩
termination_by structural j => j

end

end

end SqlTree
