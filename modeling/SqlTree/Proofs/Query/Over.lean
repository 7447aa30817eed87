import SqlTree.Proofs.Alias.Agree
import SqlTree.Proofs.Query.Bindings
import SqlTree.Proofs.Query.Relabel

/-!
# Requests over known identities

`Query.IsOver known q` says that all identities in a request are among the `known` ones, those of
sources and those in front of columns. What forests that agree on these make of the request is one
and the same.

* `Query.qualify_agrees`: qualified in forests that agree, up to the bindings that this does, a
  request and the one with the identities of the second forest fail for one reason or give the same,
  and the forests left agree.
-/

namespace SqlTree

/-- The identities in an expression are known. -/
def Expr.IsOver (known : Alias → Prop) (e : Expr Alias) : Prop :=
  ∀ c ∈ e.columns, ∀ a ∈ c.2, known a

/-- The identities in an item are known. -/
def SelectItem.IsOver (known : Alias → Prop) : SelectItem Alias → Prop
  | star owner? => ∀ a ∈ owner?, known a
  | expr e _ => e.IsOver known

/-- The identities of a source and in its clauses are known. -/
structure Query.IsNodeOver (known : Alias → Prop) (q : Query) : Prop where
  source : ∀ a ∈ q.source.alias?, known a
  selection : ∀ i ∈ q.clauses.selection, i.IsOver known
  filter : ∀ l ∈ q.clauses.filter?, ∀ db e, l.resolve db = .ok e → e.IsOver known
  group : ∀ l ∈ q.clauses.group?, ∀ db es, l.resolve db = .ok es → ∀ e ∈ es, e.IsOver known
  having : ∀ e ∈ q.clauses.having?, e.IsOver known
  order : ∀ e ∈ q.clauses.order.exprs, e.IsOver known

/-- The identities in a request, in its joins and in nested requests are known. -/
def Query.IsOver (known : Alias → Prop) (q : Query) : Prop := q.Everywhere (Query.IsNodeOver known)

variable {known known' : Alias → Prop} {owner : Alias}

theorem Expr.IsOver.mono (h : ∀ a, known a → known' a) {e : Expr Alias} (he : e.IsOver known) :
    e.IsOver known' := fun c hc a ha => h a (he c hc a ha)

theorem SelectItem.IsOver.mono (h : ∀ a, known a → known' a) {i : SelectItem Alias}
    (hi : i.IsOver known) : i.IsOver known' := by
  cases i with
  | star owner? => exact fun a ha => h a (hi a ha)
  | expr e name? => exact Expr.IsOver.mono h hi

theorem Query.IsNodeOver.mono (h : ∀ a, known a → known' a) {q : Query} (hq : q.IsNodeOver known) :
    q.IsNodeOver known' :=
  ⟨fun a ha => h a (hq.source a ha), fun i hi => (hq.selection i hi).mono h,
    fun l hl db e he => (hq.filter l hl db e he).mono h,
    fun l hl db es hes e he => (hq.group l hl db es hes e he).mono h,
    fun e he => (hq.having e he).mono h, fun e he => (hq.order e he).mono h⟩

theorem Query.IsOver.mono (h : ∀ a, known a → known' a) {q : Query} (hq : q.IsOver known) :
    q.IsOver known' := Query.Everywhere.mono (fun _ hp => hp.mono h) q hq

/-- A request is within a forest when it is over the identities that the forest holds. -/
theorem Query.isOver_holds_iff {f : Forest} {q : Query} : q.IsOver f.Holds ↔ q.IsWithin f := by
  have hitem : ∀ i : SelectItem Alias, i.IsOver f.Holds ↔ i.IsWithin f := by
    intro i
    cases i <;> exact Iff.rfl
  constructor
  · refine Query.Everywhere.mono (fun p hp => ?_) q
    exact ⟨hp.source, fun i hi => (hitem i).1 (hp.selection i hi), hp.filter, hp.group, hp.having,
      hp.order⟩
  · refine Query.Everywhere.mono (fun p hp => ?_) q
    exact ⟨hp.source, fun i hi => (hitem i).2 (hp.selection i hi), hp.filter, hp.group, hp.having,
      hp.order⟩

/-- A request that only selects from a source. -/
theorem Query.isNodeOver_select {source : Source} {items : List (SelectItem Alias)}
    (hsource : ∀ a ∈ source.alias?, known a) (hitems : ∀ i ∈ items, i.IsOver known) :
    ((Query.ofSource source).select items).IsNodeOver known :=
  ⟨hsource, hitems, nofun, nofun, nofun, nofun⟩

/-- The request for a table under an identity is over this one. -/
theorem Query.isOver_ofTable {own : Alias} (h : known own) (name : String) :
    (Query.ofSource (.table name (some own))).IsOver known := by
  refine ⟨Query.isNodeOver_select (fun a ha => ?_) fun i hi => ?_, trivial, trivial⟩
  · obtain rfl := Option.some.inj ha
    exact h
  · obtain rfl := List.mem_singleton.1 hi
    exact nofun

/-! ## The identities in a request -/

/-- The identity is one of those in the request: all identities that the request is over have it
among them. -/
def Query.HasIdentity (q : Query) (a : Alias) : Prop := ∀ known, q.IsOver known → known a

theorem Query.IsNodeOver.forall {ι : Sort*} {known : ι → Alias → Prop} {q : Query}
    (h : ∀ i, q.IsNodeOver (known i)) : q.IsNodeOver fun a => ∀ i, known i a := by
  refine ⟨fun a ha i => (h i).source a ha, fun item hitem => ?_,
    fun l hl db e he c hc a ha i => (h i).filter l hl db e he c hc a ha,
    fun l hl db es hes e he c hc a ha i => (h i).group l hl db es hes e he c hc a ha,
    fun e he c hc a ha i => (h i).having e he c hc a ha,
    fun e he c hc a ha i => (h i).order e he c hc a ha⟩
  cases item with
  | star owner? => exact fun a ha i => (h i).selection _ hitem a ha
  | expr e name? => exact fun c hc a ha i => (h i).selection _ hitem c hc a ha

theorem Query.isOver_hasIdentity (q : Query) : q.IsOver q.HasIdentity := by
  have hall : q.Everywhere fun p => ∀ known : { known // q.IsOver known }, p.IsNodeOver known.1 :=
    Query.Everywhere.forall q fun known => known.2
  refine Query.Everywhere.mono (fun p hp => ?_) q hall
  exact (Query.IsNodeOver.forall hp).mono fun a ha known hknown => ha ⟨known, hknown⟩

theorem Query.HasIdentity.holds {f : Forest} {q : Query} {a : Alias} (ha : q.HasIdentity a)
    (hq : q.IsWithin f) : f.Holds a := ha f.Holds (Query.isOver_holds_iff.2 hq)

/-! ## Qualified parts -/

theorem Expr.IsOver.qualified (howner : known owner) {e : Expr Alias} (he : e.IsOver known) :
    (e.qualified owner).IsOver known := by
  intro c hc a ha
  rw [columns_qualified] at hc
  obtain ⟨⟨name, owner?⟩, hmem, rfl⟩ := List.mem_map.1 hc
  cases owner? with
  | none =>
    obtain rfl := Option.some.inj ha
    exact howner
  | some own => exact he _ hmem a ha

theorem SelectItem.IsOver.qualified (howner : known owner) {i : SelectItem Alias}
    (hi : i.IsOver known) : (i.qualified owner).IsOver known := by
  match i with
  | star none =>
    intro a ha
    obtain rfl := Option.some.inj ha
    exact howner
  | star (some own) => exact hi
  | expr e name? => exact Expr.IsOver.qualified howner hi

/-- Clauses are qualified with a known identity. -/
theorem Query.IsNodeOver.qualified (howner : known owner) {q q' : Query} (hq : q.IsNodeOver known)
    (hsource : ∀ a ∈ q'.source.alias?, known a)
    (hclauses : q'.clauses = q.clauses.qualified owner) : q'.IsNodeOver known := by
  refine ⟨hsource, ?_, ?_, ?_, ?_, ?_⟩ <;> rw [hclauses]
  · intro i hi
    obtain ⟨i, hmem, rfl⟩ := List.mem_map.1 hi
    exact (hq.selection i hmem).qualified howner
  · intro l hl db e' he'
    obtain ⟨l, hmem, rfl⟩ := Option.map_eq_some_iff.1 hl
    rw [Lookup.resolve_map] at he'
    obtain ⟨e, he, rfl⟩ := map_eq_ok.1 he'
    exact (hq.filter l hmem db e he).qualified howner
  · intro l hl db es' hes' e' he'
    obtain ⟨l, hmem, rfl⟩ := Option.map_eq_some_iff.1 hl
    rw [Lookup.resolve_map] at hes'
    obtain ⟨es, hes, rfl⟩ := map_eq_ok.1 hes'
    obtain ⟨e, hmem', rfl⟩ := List.mem_map.1 he'
    exact (hq.group l hmem db es hes e hmem').qualified howner
  · intro e he
    obtain ⟨e, hmem, rfl⟩ := Option.map_eq_some_iff.1 he
    exact (hq.having e hmem).qualified howner
  · intro e he
    change e ∈ (q.clauses.order.qualified owner).exprs at he
    rw [SortOrder.exprs_qualified] at he
    obtain ⟨e, hmem, rfl⟩ := List.mem_map.1 he
    exact (hq.order e hmem).qualified howner

/-! ## Qualifying in forests that agree -/

section

variable {m : Alias → Alias} {pending : List (Alias × String)} {f g : Forest} {own : Alias}
  {name : String}

theorem Forest.Agree.fresh_agrees (h : Forest.Agree m known pending f g) :
    (AliasM.fresh none).Agrees (AliasM.fresh none) (fun owner owner' f' g' => owner' = m owner ∧
      Forest.Agree m known pending f' g' ∧ Forest.Widens f f' ∧ owner.id = f.cells.length ∧
      f'.IsBlank owner ∧ g'.IsBlank (m owner) ∧ f'.Holds owner ∧ known owner) f g := by
  obtain ⟨hagree, hnew⟩ := h.fresh
  have hblank := Forest.isBlank_fresh h.grounded' h.closed'
  rw [hnew] at hblank
  have hruns : AliasM.Runs (AliasM.fresh none) f (f.fresh none).1 (f.fresh none).2 :=
    AliasM.runs_fresh.2 rfl
  have hruns' : AliasM.Runs (AliasM.fresh none) g (g.fresh none).1 (g.fresh none).2 :=
    AliasM.runs_fresh.2 rfl
  exact .results hruns hruns' ⟨hnew, hagree, Forest.fresh_widens h.closed none, rfl,
    Forest.isBlank_fresh h.grounded h.closed, hblank, (f.made_fresh none).2,
    h.later _ (Nat.le_refl _)⟩

theorem Forest.Agree.bind_agrees (h : Forest.Agree m known ((own, name) :: pending) f g)
    (hown : known own) : (AliasM.bind own name).Agrees (AliasM.bind (m own) name)
      (fun _ _ f' g' => Forest.Agree m known pending f' g' ∧ Forest.Widens f f' ∧
        ∀ owner, own ≠ owner → m own ≠ m owner → f.IsBlank owner → g.IsBlank (m owner) →
          f'.IsBlank owner ∧ g'.IsBlank (m owner)) f g := by
  have hheld := h.held (own, name) List.mem_cons_self
  refine (AliasM.Agrees.change (h.bind hown)).imp fun _ _ f' g' hf hg hagree => ?_
  have hbind := AliasM.runs_change.1 hf
  have hbind' := AliasM.runs_change.1 hg
  refine ⟨hagree, Forest.bind_widens h.grounded h.closed hbind,
    fun owner hne hne' hblank hblank' => ?_⟩
  exact ⟨hblank.bind h.grounded h.closed hheld hne hbind,
    hblank'.bind h.grounded' h.closed' (h.holds hown hheld) hne' hbind'⟩

theorem Forest.Agree.link_agrees {owner : Alias} (h : Forest.Agree m known pending f g)
    (hblank : f.IsBlank owner) (hblank' : g.IsBlank (m owner)) (howner : f.Holds owner)
    (hknown : known owner) (hownKnown : known own) (hown : f.Holds own)
    (hpending : ∀ p ∈ pending, p.1 ≠ owner) :
    (AliasM.link owner own).Agrees (AliasM.link (m owner) (m own)) (fun _ _ f' g' =>
      Forest.Agree m known pending f' g' ∧ Forest.Widens f f') f g := by
  refine (AliasM.Agrees.change
    (h.link hblank hblank' howner hknown hownKnown hown hpending)).imp
    fun _ _ f' g' hf _ hagree => ⟨hagree, ?_⟩
  exact Forest.link_widens h.grounded h.closed hown (AliasM.runs_change.1 hf)

/-- Blank identities are told apart from known ones in both forests. -/
theorem Forest.Agree.ne_blank {owner : Alias} (h : Forest.Agree m known pending f g)
    (hblank : f.IsBlank owner) (hknown : known owner) (hown : known own) (hne : own ≠ owner) :
    m own ≠ m owner := fun heq =>
  hblank.root_ne hne ((h.same hknown hown).1 (congrArg g.root heq.symm))

mutual

/-- **A request over known identities is qualified alike in forests that agree.** -/
theorem Query.qualify_agrees : ∀ (q : Query) {f g : Forest} {pending : List (Alias × String)},
    q.IsOver known → q.IsWithin f → Forest.Agree m known (q.openTables ++ pending) f g →
      q.qualify.Agrees (q.relabel m).qualify (fun q' q'' f' g' => q'' = q'.relabel m ∧
        q'.IsOver known ∧ Forest.Agree m known pending f' g' ∧ Forest.Widens f f') f g
  | ⟨source, clauses, joins, true⟩, f, g, pending, hq, _, h => by
    rw [Query.relabel, Query.qualify, Query.qualify]
    exact .pure ⟨rfl, hq, h, h.closed.widens_self⟩
  | ⟨source, clauses, joins, false⟩, f, g, pending, hq, hw, h => by
    have hpending : ∀ p ∈ source.openTables ++ (joinsOpenTables joins ++ pending),
        f.Holds p.1 := by
      rw [← List.append_assoc]
      exact h.held
    rw [Query.openTables, List.append_assoc] at h
    rw [Query.relabel, Query.qualify, Query.qualify]
    refine h.fresh_agrees.bind ?_
    rintro owner _ f₁ g₁ ⟨rfl, h₁, hw₁, hid, hblank, hblank', hheld, hknown⟩
    have hne : ∀ p ∈ source.openTables ++ (joinsOpenTables joins ++ pending), p.1 ≠ owner := by
      rintro p hp rfl
      exact Nat.ne_of_lt (hpending p hp) hid
    refine (source.qualify_agrees hq.self.source hq.source
      (fun a ha => hw₁.holds (hw.self.source a ha))
      (Source.everywhere_mono (Query.IsNodeWithin.mono hw₁) source hw.source) hblank hblank' hheld
      hknown hne h₁).bind ?_
    rintro source' _ f₂ g₂ ⟨rfl, hown, hsource, h₂, hw₂⟩
    refine (qualifyJoins_agrees joins hq.joins
      (joinsEverywhere_mono (Query.IsNodeWithin.mono (hw₁.trans hw₂)) joins hw.joins) h₂).bind ?_
    rintro joins' _ f₃ g₃ ⟨rfl, hjoins, h₃, hw₃⟩
    refine .pure ⟨?_, ⟨?_, hsource, hjoins⟩, h₃, hw₁.trans (hw₂.trans hw₃)⟩
    · rw [Query.relabel, Clauses.qualified_relabel]
    · exact hq.self.qualified hknown hown rfl
termination_by structural q => q

theorem Source.qualify_agrees : ∀ (s : Source) {f g : Forest} {owner : Alias}
    {pending : List (Alias × String)}, (∀ a ∈ s.alias?, known a) →
      s.Everywhere (Query.IsNodeOver known) → (∀ a ∈ s.alias?, f.Holds a) →
      s.Everywhere (Query.IsNodeWithin f) → f.IsBlank owner → g.IsBlank (m owner) →
      f.Holds owner → known owner → (∀ p ∈ s.openTables ++ pending, p.1 ≠ owner) →
      Forest.Agree m known (s.openTables ++ pending) f g →
        (s.qualify owner).Agrees ((s.relabel m).qualify (m owner)) (fun s' s'' f' g' =>
          s'' = s'.relabel m ∧ (∀ a ∈ s'.alias?, known a) ∧
          s'.Everywhere (Query.IsNodeOver known) ∧ Forest.Agree m known pending f' g' ∧
          Forest.Widens f f') f g
  | .table name none, f, g, owner, pending, _, _, _, _, hblank, hblank', hheld, hknown, _, h => by
    have htable : g.tableName? (m owner) = f.tableName? owner :=
      (congrArg Entry.tableName? hblank'.entry).trans (congrArg Entry.tableName? hblank.entry).symm
    rw [Source.relabel, Option.map_none, Source.qualify, Source.qualify]
    refine ((h.pending_cons hknown hheld htable name).bind_agrees hknown).bind ?_
    rintro _ _ f₁ g₁ ⟨h₁, hw₁, -⟩
    refine .pure ⟨rfl, fun a ha => ?_, trivial, h₁, hw₁⟩
    obtain rfl := Option.some.inj ha
    exact hknown
  | .table name (some own), f, g, owner, pending, hown, _, hw, _, hblank, hblank', hheld, hknown,
      hne, h => by
    have hown' := hown own rfl
    have hdiffer : own ≠ owner := hne (own, name) List.mem_cons_self
    rw [Source.relabel, Option.map_some, Source.qualify, Source.qualify]
    refine (Forest.Agree.bind_agrees h hown').bind ?_
    rintro _ _ f₁ g₁ ⟨h₁, hw₁, hstay⟩
    obtain ⟨hblank₁, hblank₁'⟩ := hstay owner hdiffer
      (Forest.Agree.ne_blank h hblank hknown hown' hdiffer) hblank hblank'
    refine (h₁.link_agrees hblank₁ hblank₁' (hw₁.holds hheld) hknown hown'
      (hw₁.holds (hw own rfl)) fun p hp => hne p (List.mem_cons_of_mem _ hp)).bind ?_
    rintro _ _ f₂ g₂ ⟨h₂, hw₂⟩
    exact .pure ⟨rfl, hown, trivial, h₂, hw₁.trans hw₂⟩
  | .nested query none, f, g, owner, pending, _, hs, _, hw, _, _, _, hknown, _, h => by
    rw [Source.relabel, Option.map_none, Source.qualify, Source.qualify]
    refine (query.qualify_agrees hs hw h).bind ?_
    rintro query' _ f₁ g₁ ⟨rfl, hq, h₁, hw₁⟩
    refine .pure ⟨rfl, fun a ha => ?_, hq, h₁, hw₁⟩
    obtain rfl := Option.some.inj ha
    exact hknown
  | .nested query (some own), f, g, owner, pending, hown, hs, hheld, hw, hblank, hblank', howner,
      hknown, hne, h => by
    rw [Source.relabel, Option.map_some, Source.qualify, Source.qualify]
    refine (h.link_agrees hblank hblank' howner hknown (hown own rfl) (hheld own rfl) hne).bind ?_
    rintro _ _ f₁ g₁ ⟨h₁, hw₁⟩
    refine (query.qualify_agrees hs
      (Query.Everywhere.mono (Query.IsNodeWithin.mono hw₁) query hw) h₁).bind ?_
    rintro query' _ f₂ g₂ ⟨rfl, hq, h₂, hw₂⟩
    exact .pure ⟨rfl, hown, hq, h₂, hw₁.trans hw₂⟩
termination_by structural s => s

theorem qualifyJoins_agrees : ∀ (joins : List Join) {f g : Forest}
    {pending : List (Alias × String)}, joinsEverywhere (Query.IsNodeOver known) joins →
      joinsEverywhere (Query.IsNodeWithin f) joins →
      Forest.Agree m known (joinsOpenTables joins ++ pending) f g →
        (qualifyJoins joins).Agrees (qualifyJoins (relabelJoins m joins))
          (fun joins' joins'' f' g' => joins'' = relabelJoins m joins' ∧
            joinsEverywhere (Query.IsNodeOver known) joins' ∧ Forest.Agree m known pending f' g' ∧
            Forest.Widens f f') f g
  | [], f, g, pending, _, _, h => by
    rw [relabelJoins, qualifyJoins]
    exact .pure ⟨rfl, trivial, h, h.closed.widens_self⟩
  | j :: rest, f, g, pending, hj, hw, h => by
    rw [joinsOpenTables, List.append_assoc] at h
    rw [relabelJoins, qualifyJoins, qualifyJoins]
    refine (Join.qualify_agrees j hj.1 hw.1 h).bind ?_
    rintro j' _ f₁ g₁ ⟨rfl, hj', h₁, hw₁⟩
    refine (qualifyJoins_agrees rest hj.2
      (joinsEverywhere_mono (Query.IsNodeWithin.mono hw₁) rest hw.2) h₁).bind ?_
    rintro rest' _ f₂ g₂ ⟨rfl, hrest', h₂, hw₂⟩
    exact .pure ⟨rfl, ⟨hj', hrest'⟩, h₂, hw₁.trans hw₂⟩
termination_by structural joins => joins

theorem Join.qualify_agrees : ∀ (j : Join) {f g : Forest} {pending : List (Alias × String)},
    joinEverywhere (Query.IsNodeOver known) j → joinEverywhere (Query.IsNodeWithin f) j →
      Forest.Agree m known (joinOpenTables j ++ pending) f g →
        j.qualify.Agrees (j.relabel m).qualify (fun j' j'' f' g' => j'' = j'.relabel m ∧
          joinEverywhere (Query.IsNodeOver known) j' ∧ Forest.Agree m known pending f' g' ∧
          Forest.Widens f f') f g
  | ⟨key, kind, link, mergedLinks, query⟩, f, g, pending, hj, hw, h => by
    rw [Join.relabel, Join.qualify, Join.qualify]
    refine (query.qualify_agrees hj hw h).bind ?_
    rintro query' _ f₁ g₁ ⟨rfl, hq, h₁, hw₁⟩
    exact .pure ⟨rfl, hq, h₁, hw₁⟩
termination_by structural j => j

end

end

end SqlTree
