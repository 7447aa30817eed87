import SqlTree.Proofs.Alias.Closed
import SqlTree.Proofs.Query.Coarsens
import SqlTree.Proofs.Query.Qualified

/-!
# Requests within a forest

`Query.IsWithin f q` says that all identities in a request are identities of the forest `f`, as they
are where requests are built: what a request is built with was made before. It goes on to hold in
forests with more identities (`Query.IsWithin.mono`), and of what is qualified in the forest that
comes out (`Query.qualify_within`), which is closed if the first one was.
-/

namespace SqlTree

/-- The identities in an expression were made in the forest. -/
def Expr.IsWithin (f : Forest) (e : Expr Alias) : Prop :=
  ∀ c ∈ e.columns, ∀ a ∈ c.2, f.Holds a

/-- The identities in an item were made in the forest. -/
def SelectItem.IsWithin (f : Forest) : SelectItem Alias → Prop
  | star owner? => ∀ a ∈ owner?, f.Holds a
  | expr e _ => e.IsWithin f

/-- The identities of a source and in its clauses were made in the forest. -/
structure Query.IsNodeWithin (f : Forest) (q : Query) : Prop where
  source : ∀ a ∈ q.source.alias?, f.Holds a
  selection : ∀ i ∈ q.clauses.selection, i.IsWithin f
  filter : ∀ l ∈ q.clauses.filter?, ∀ db e, l.resolve db = .ok e → e.IsWithin f
  group : ∀ l ∈ q.clauses.group?, ∀ db es, l.resolve db = .ok es → ∀ e ∈ es, e.IsWithin f
  having : ∀ e ∈ q.clauses.having?, e.IsWithin f
  order : ∀ e ∈ q.clauses.order.exprs, e.IsWithin f

/-- The identities in a request, in its joins and in nested requests were made in the forest. -/
def Query.IsWithin (f : Forest) (q : Query) : Prop := q.Everywhere (Query.IsNodeWithin f)

variable {f g : Forest} {owner : Alias}

/-! ## More identities -/

theorem Expr.IsWithin.mono (hg : Forest.Widens f g) {e : Expr Alias} (he : e.IsWithin f) :
    e.IsWithin g :=
  fun c hc a ha => hg.holds (he c hc a ha)

theorem SelectItem.IsWithin.mono (hg : Forest.Widens f g) {i : SelectItem Alias}
    (hi : i.IsWithin f) : i.IsWithin g := by
  cases i with
  | star owner? => exact fun a ha => hg.holds (hi a ha)
  | expr e name? => exact Expr.IsWithin.mono hg hi

theorem Query.IsNodeWithin.mono (hg : Forest.Widens f g) (q : Query) (hq : q.IsNodeWithin f) :
    q.IsNodeWithin g where
  source a ha := hg.holds (hq.source a ha)
  selection i hi := (hq.selection i hi).mono hg
  filter l hl db e he := (hq.filter l hl db e he).mono hg
  group l hl db es hes e he := (hq.group l hl db es hes e he).mono hg
  having e he := (hq.having e he).mono hg
  order e he := (hq.order e he).mono hg

theorem Query.IsWithin.mono (hg : Forest.Widens f g) {q : Query} (hq : q.IsWithin f) :
    q.IsWithin g :=
  Query.Everywhere.mono (Query.IsNodeWithin.mono hg) q hq

/-! ## Qualifying -/

theorem Expr.IsWithin.qualified (howner : f.Holds owner) {e : Expr Alias} (he : e.IsWithin f) :
    (e.qualified owner).IsWithin f := by
  intro c hc a ha
  rw [columns_qualified] at hc
  obtain ⟨⟨name, owner?⟩, hmem, rfl⟩ := List.mem_map.1 hc
  cases owner? with
  | none =>
    obtain rfl := Option.some.inj ha
    exact howner
  | some own => exact he _ hmem a ha

theorem SelectItem.IsWithin.qualified (howner : f.Holds owner) {i : SelectItem Alias}
    (hi : i.IsWithin f) : (i.qualified owner).IsWithin f := by
  match i with
  | star none =>
    intro a ha
    obtain rfl := Option.some.inj ha
    exact howner
  | star (some own) => exact hi
  | expr e name? => exact Expr.IsWithin.qualified howner hi

/-- Clauses are qualified with an identity that was made. -/
theorem Query.IsNodeWithin.qualified (howner : f.Holds owner) {q q' : Query}
    (hq : q.IsNodeWithin f) (hsource : ∀ a ∈ q'.source.alias?, f.Holds a)
    (hclauses : q'.clauses = q.clauses.qualified owner) : q'.IsNodeWithin f := by
  refine ⟨hsource, ?_, ?_, ?_, ?_, ?_⟩ <;> rw [hclauses, Clauses.qualified]
  · intro i hi
    obtain ⟨i, hmem, rfl⟩ := List.mem_map.1 hi
    exact (hq.selection i hmem).qualified howner
  · intro l hl db e' he'
    obtain ⟨l, hmem, rfl⟩ := Option.map_eq_some_iff.1 hl
    rw [Lookup.resolve_map] at he'
    obtain ⟨e, he, rfl⟩ := map_eq_ok.1 he'
    exact (hq.filter l hmem db e he).qualified howner
  · intro l hl db es' hes' e' he'
    obtain ⟨l, hmem, rfl⟩ := Option.map_eq_some_iff.1 hl
    rw [Lookup.resolve_map] at hes'
    obtain ⟨es, hes, rfl⟩ := map_eq_ok.1 hes'
    obtain ⟨e, hmem', rfl⟩ := List.mem_map.1 he'
    exact (hq.group l hmem db es hes e hmem').qualified howner
  · intro e he
    obtain ⟨e, hmem, rfl⟩ := Option.map_eq_some_iff.1 he
    exact (hq.having e hmem).qualified howner
  · intro e he
    rw [SortOrder.exprs_qualified] at he
    obtain ⟨e, hmem, rfl⟩ := List.mem_map.1 he
    exact (hq.order e hmem).qualified howner

mutual

/-- **What is qualified is within its forest**, which is closed and has all identities made before.
-/
theorem Query.qualify_within : ∀ (q : Query) {f g : Forest} {q' : Query}, f.IsGrounded →
    f.IsClosed → q.IsWithin f → AliasM.Runs q.qualify f q' g →
      Forest.Widens f g ∧ q'.IsWithin g
  | ⟨source, clauses, joins, true⟩, f, g, q', _, hclosed, hq, h => by
    rw [Query.qualify, AliasM.runs_pure] at h
    obtain ⟨rfl, rfl⟩ := h
    exact ⟨hclosed.widens_self, hq⟩
  | ⟨source, clauses, joins, false⟩, f, g, q', hf, hclosed, hq, h => by
    simp only [Query.qualify, AliasM.runs_bind, AliasM.runs_pure, AliasM.runs_fresh] at h
    obtain ⟨owner, f₁, ⟨rfl, rfl⟩, source', f₂, hsource, joins', f₃, hjoins, rfl, rfl⟩ := h
    have hfresh := (Forest.fresh_coarsens hf none).grounded
    have hsources := (source.qualify_coarsens hfresh hsource).grounded
    have hw₁ := Forest.fresh_widens hclosed none
    obtain ⟨hw₂, hown, hnested⟩ := source.qualify_within hfresh hw₁.closed
      (f.made_fresh none).2 (fun a ha => hw₁.holds (hq.self.source a ha))
      (Source.everywhere_mono (Query.IsNodeWithin.mono hw₁) source hq.source) hsource
    obtain ⟨hw₃, hbelow⟩ := qualifyJoins_within joins hsources hw₂.closed
      (joinsEverywhere_mono (Query.IsNodeWithin.mono (hw₁.trans hw₂)) joins hq.joins) hjoins
    have hw := hw₁.trans (hw₂.trans hw₃)
    refine ⟨hw, ?_, Source.everywhere_mono (Query.IsNodeWithin.mono hw₃) source' hnested, hbelow⟩
    exact (hq.self.mono hw).qualified ((hw₂.trans hw₃).holds (f.made_fresh none).2)
      (fun a ha => hw₃.holds (hown a ha)) rfl
termination_by structural q => q

theorem Source.qualify_within : ∀ (s : Source) {f g : Forest} {owner : Alias} {s' : Source},
    f.IsGrounded → f.IsClosed → f.Holds owner → (∀ a ∈ s.alias?, f.Holds a) →
      s.Everywhere (Query.IsNodeWithin f) → AliasM.Runs (s.qualify owner) f s' g →
        Forest.Widens f g ∧ (∀ a ∈ s'.alias?, g.Holds a) ∧ s'.Everywhere (Query.IsNodeWithin g)
  | .table name none, f, g, owner, s', hf, hclosed, howner, _, _, h => by
    simp only [Source.qualify, AliasM.bind, AliasM.runs_bind, AliasM.runs_pure,
      AliasM.runs_change] at h
    obtain ⟨_, f₁, hbind, rfl, rfl⟩ := h
    have hw := Forest.bind_widens hf hclosed hbind
    refine ⟨hw, fun a ha => ?_, trivial⟩
    obtain rfl := Option.some.inj ha
    exact hw.holds howner
  | .table name (some own), f, g, owner, s', hf, hclosed, _, hown, _, h => by
    simp only [Source.qualify, AliasM.bind, AliasM.link, AliasM.runs_bind, AliasM.runs_pure,
      AliasM.runs_change] at h
    obtain ⟨_, f₁, hbind, _, f₂, hlink, rfl, rfl⟩ := h
    have hw₁ := Forest.bind_widens hf hclosed hbind
    have hw := hw₁.trans (Forest.link_widens (Forest.bind_coarsens hf hbind).grounded hw₁.closed
      (hw₁.holds (hown own rfl)) hlink)
    exact ⟨hw, fun a ha => hw.holds (hown a ha), trivial⟩
  | .nested query none, f, g, owner, s', hf, hclosed, howner, _, hs, h => by
    simp only [Source.qualify, AliasM.runs_bind, AliasM.runs_pure] at h
    obtain ⟨query', f₁, hquery, rfl, rfl⟩ := h
    obtain ⟨hw, hquery'⟩ := query.qualify_within hf hclosed hs hquery
    refine ⟨hw, fun a ha => ?_, hquery'⟩
    obtain rfl := Option.some.inj ha
    exact hw.holds howner
  | .nested query (some own), f, g, owner, s', hf, hclosed, _, hown, hs, h => by
    simp only [Source.qualify, AliasM.link, AliasM.runs_bind, AliasM.runs_pure,
      AliasM.runs_change] at h
    obtain ⟨_, f₁, hlink, query', f₂, hquery, rfl, rfl⟩ := h
    have hw₁ := Forest.link_widens hf hclosed (hown own rfl) hlink
    obtain ⟨hw₂, hquery'⟩ := query.qualify_within (Forest.link_root_eq hf hlink).1.grounded
      hw₁.closed (Query.Everywhere.mono (Query.IsNodeWithin.mono hw₁) query hs) hquery
    exact ⟨hw₁.trans hw₂, fun a ha => (hw₁.trans hw₂).holds (hown a ha), hquery'⟩
termination_by structural s => s

theorem qualifyJoins_within : ∀ (joins : List Join) {f g : Forest} {joins' : List Join},
    f.IsGrounded → f.IsClosed → joinsEverywhere (Query.IsNodeWithin f) joins →
      AliasM.Runs (qualifyJoins joins) f joins' g →
        Forest.Widens f g ∧ joinsEverywhere (Query.IsNodeWithin g) joins'
  | [], f, g, joins', _, hclosed, _, h => by
    rw [qualifyJoins, AliasM.runs_pure] at h
    obtain ⟨rfl, rfl⟩ := h
    exact ⟨hclosed.widens_self, trivial⟩
  | j :: rest, f, g, joins', hf, hclosed, hj, h => by
    simp only [qualifyJoins, AliasM.runs_bind, AliasM.runs_pure] at h
    obtain ⟨j', f₁, hfirst, rest', f₂, hrest, rfl, rfl⟩ := h
    obtain ⟨hw₁, hj'⟩ := Join.qualify_within j hf hclosed hj.1 hfirst
    obtain ⟨hw₂, hrest'⟩ := qualifyJoins_within rest (Join.qualify_coarsens j hf hfirst).grounded
      hw₁.closed (joinsEverywhere_mono (Query.IsNodeWithin.mono hw₁) rest hj.2) hrest
    exact ⟨hw₁.trans hw₂, joinEverywhere_mono (Query.IsNodeWithin.mono hw₂) j' hj', hrest'⟩
termination_by structural joins => joins

theorem Join.qualify_within : ∀ (j : Join) {f g : Forest} {j' : Join}, f.IsGrounded →
    f.IsClosed → joinEverywhere (Query.IsNodeWithin f) j → AliasM.Runs j.qualify f j' g →
      Forest.Widens f g ∧ joinEverywhere (Query.IsNodeWithin g) j'
  | ⟨key, kind, link, mergedLinks, query⟩, f, g, j', hf, hclosed, hj, h => by
    simp only [Join.qualify, AliasM.runs_bind, AliasM.runs_pure] at h
    obtain ⟨query', f₁, hquery, rfl, rfl⟩ := h
    exact query.qualify_within hf hclosed hj hquery
termination_by structural j => j

end

end SqlTree
