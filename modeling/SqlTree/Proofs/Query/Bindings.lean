import SqlTree.Proofs.Alias.Bindings
import SqlTree.Proofs.Query.Within

/-!
# Bindings of a request

Qualifying a request binds the identities of its tables, in the order of the tree, and makes new
identities for all of its sources. The identities that were there before show the bindings only.

* `Query.openTables` are the bindings that qualifying a request does to identities it has.
* `Query.qualify_binds`: what these leave is what qualifying leaves. Where it fails, some of the
  first of them were done.
-/

namespace SqlTree

/-! ## Bindings to be done -/

mutual

/-- The identities of tables that qualifying a request binds, each with its table. -/
def Query.openTables : Query → List (Alias × String)
  | ⟨_, _, _, true⟩ => []
  | ⟨source, _, joins, false⟩ => source.openTables ++ joinsOpenTables joins

/-- The identities of tables that qualifying a source binds. -/
def Source.openTables : Source → List (Alias × String)
  | .table _ none => []
  | .table name (some own) => [(own, name)]
  | .nested query _ => query.openTables

/-- The identities of tables that qualifying joins binds. -/
def joinsOpenTables : List Join → List (Alias × String)
  | [] => []
  | j :: rest => joinOpenTables j ++ joinsOpenTables rest

/-- The identities of tables that qualifying a join binds. -/
def joinOpenTables : Join → List (Alias × String)
  | ⟨_, _, _, _, query⟩ => query.openTables

end

section

variable {known : Alias → Prop}

mutual

theorem Query.openTables_known : ∀ q : Query,
    (q.Everywhere fun p => ∀ a ∈ p.source.alias?, known a) → ∀ t ∈ q.openTables, known t.1
  | ⟨source, clauses, joins, true⟩, _, t, ht => by
    rw [Query.openTables] at ht
    cases ht
  | ⟨source, clauses, joins, false⟩, hq, t, ht => by
    rw [Query.openTables] at ht
    rcases List.mem_append.1 ht with ht | ht
    · exact Source.openTables_known source hq.self hq.source t ht
    · exact joinsOpenTables_known joins hq.joins t ht

theorem Source.openTables_known : ∀ s : Source, (∀ a ∈ s.alias?, known a) →
    (s.Everywhere fun p => ∀ a ∈ p.source.alias?, known a) → ∀ t ∈ s.openTables, known t.1
  | .table name none, _, _, t, ht => by
    rw [Source.openTables] at ht
    cases ht
  | .table name (some own), hown, _, t, ht => by
    rw [Source.openTables] at ht
    obtain rfl := List.mem_singleton.1 ht
    exact hown own rfl
  | .nested query alias?, _, hs, t, ht => by
    rw [Source.openTables] at ht
    exact Query.openTables_known query hs t ht

theorem joinsOpenTables_known : ∀ joins : List Join,
    joinsEverywhere (fun p => ∀ a ∈ p.source.alias?, known a) joins →
      ∀ t ∈ joinsOpenTables joins, known t.1
  | [], _, t, ht => by
    rw [joinsOpenTables] at ht
    cases ht
  | j :: rest, hj, t, ht => by
    rw [joinsOpenTables] at ht
    rcases List.mem_append.1 ht with ht | ht
    · exact joinOpenTables_known j hj.1 t ht
    · exact joinsOpenTables_known rest hj.2 t ht

theorem joinOpenTables_known : ∀ j : Join,
    joinEverywhere (fun p => ∀ a ∈ p.source.alias?, known a) j → ∀ t ∈ joinOpenTables j, known t.1
  | ⟨_, _, _, _, query⟩, hj, t, ht => by
    rw [joinOpenTables] at ht
    exact Query.openTables_known query hj t ht

end

theorem joinsOpenTables_held {f : Forest} (joins : List Join)
    (hj : joinsEverywhere (Query.IsNodeWithin f) joins) :
    ∀ t ∈ joinsOpenTables joins, f.Holds t.1 :=
  joinsOpenTables_known joins (joinsEverywhere_mono (fun _ hp => hp.source) joins hj)

theorem Query.openTables_held {f : Forest} (q : Query) (hq : q.IsWithin f) :
    ∀ t ∈ q.openTables, f.Holds t.1 :=
  q.openTables_known (Query.Everywhere.mono (fun _ hp => hp.source) q hq)

end

/-! ## Qualifying -/

section

variable {old : Alias → Prop}

mutual

/-- **Qualifying shows as its bindings.** -/
theorem Query.qualify_binds : ∀ (q : Query) {f : Forest}, f.IsGrounded → f.IsClosed →
    q.IsWithin f → (∀ a, old a → f.Holds a) → (∀ p ∈ q.openTables, old p.1) →
      q.qualify.Binds old q.openTables f
  | ⟨source, clauses, joins, true⟩, f, hf, hclosed, _, _, _ => by
    rw [Query.qualify, Query.openTables]
    exact .pure hf hclosed
  | ⟨source, clauses, joins, false⟩, f, hf, hclosed, hq, hold, hopen => by
    rw [Query.openTables, List.forall_mem_append] at hopen
    rw [Query.qualify, Query.openTables]
    refine (AliasM.Binds.fresh hf hclosed).bind (List.forall_mem_append.2 hopen)
      fun owner f₁ hruns h₁ => ?_
    obtain ⟨rfl, rfl⟩ : owner = (f.fresh none).1 ∧ f₁ = (f.fresh none).2 :=
      Prod.mk.inj (AliasM.runs_fresh.1 hruns)
    have hnew : ∀ {a}, f.Holds a → a ≠ (f.fresh none).1 := by
      rintro a ha rfl
      exact Nat.lt_irrefl _ ha
    refine (source.qualify_binds h₁.grounded h₁.widens.closed
      (fun a ha => ⟨h₁.widens.holds (hq.self.source a ha), hnew (hq.self.source a ha)⟩)
      (Source.everywhere_mono (Query.IsNodeWithin.mono h₁.widens) source hq.source)
      (Forest.isBlank_fresh hf hclosed) (f.made_fresh none).2 (fun h => hnew (hold _ h) rfl)
      (fun a ha => h₁.widens.holds (hold a ha)) hopen.1).bind hopen.2 fun source' f₂ _ h₂ => ?_
    have hw := h₁.widens.trans h₂.widens
    exact (qualifyJoins_binds joins h₂.grounded h₂.widens.closed
      (joinsEverywhere_mono (Query.IsNodeWithin.mono hw) joins hq.joins)
      (fun a ha => hw.holds (hold a ha)) hopen.2).map _
termination_by structural q => q

theorem Source.qualify_binds : ∀ (s : Source) {f : Forest} {owner : Alias}, f.IsGrounded →
    f.IsClosed → (∀ a ∈ s.alias?, f.Holds a ∧ a ≠ owner) →
      s.Everywhere (Query.IsNodeWithin f) → f.IsBlank owner → f.Holds owner → ¬ old owner →
      (∀ a, old a → f.Holds a) → (∀ p ∈ s.openTables, old p.1) →
        (s.qualify owner).Binds old s.openTables f
  | .table name none, f, owner, hf, hclosed, _, _, hblank, hheld, hnew, _, _ => by
    rw [Source.qualify, Source.openTables]
    refine AliasM.Binds.map (.change hf hclosed fun g hg => ?_) _
    refine (Forest.bindsTo_bind hf hclosed hheld hg).of_unseen fun p hp a ha => ?_
    obtain rfl := List.mem_singleton.1 hp
    exact hblank.root_ne fun heq => hnew (heq ▸ ha)
  | .table name (some own), f, owner, hf, hclosed, hown, _, hblank, hheld, hnew, _, hopen => by
    obtain ⟨hownHeld, hne⟩ := hown own rfl
    rw [Source.qualify, Source.openTables]
    refine AliasM.Binds.bind (.change hf hclosed fun g hg =>
      Forest.bindsTo_bind hf hclosed hownHeld hg) nofun fun _ f₁ hruns h₁ => ?_
    have hblank₁ := hblank.bind hf hclosed hownHeld hne (AliasM.runs_change.1 hruns)
    refine AliasM.Binds.map (.change h₁.grounded h₁.widens.closed fun g hg => ?_) _
    exact Forest.bindsTo_link hblank₁ h₁.grounded h₁.widens.closed (h₁.widens.holds hheld)
      (h₁.widens.holds hownHeld) hnew hg
  | .nested query none, f, owner, hf, hclosed, _, hs, _, _, _, hold, hopen => by
    rw [Source.qualify, Source.openTables]
    exact (query.qualify_binds hf hclosed hs hold hopen).map _
  | .nested query (some own), f, owner, hf, hclosed, hown, hs, hblank, hheld, hnew, hold,
      hopen => by
    obtain ⟨hownHeld, -⟩ := hown own rfl
    rw [Source.qualify, Source.openTables]
    refine AliasM.Binds.bind (.change hf hclosed fun g hg =>
      Forest.bindsTo_link hblank hf hclosed hheld hownHeld hnew hg) hopen fun _ f₁ _ h₁ => ?_
    exact (query.qualify_binds h₁.grounded h₁.widens.closed
      (Query.Everywhere.mono (Query.IsNodeWithin.mono h₁.widens) query hs)
      (fun a ha => h₁.widens.holds (hold a ha)) hopen).map _
termination_by structural s => s

theorem qualifyJoins_binds : ∀ (joins : List Join) {f : Forest}, f.IsGrounded → f.IsClosed →
    joinsEverywhere (Query.IsNodeWithin f) joins → (∀ a, old a → f.Holds a) →
      (∀ p ∈ joinsOpenTables joins, old p.1) →
        (qualifyJoins joins).Binds old (joinsOpenTables joins) f
  | [], f, hf, hclosed, _, _, _ => by
    rw [qualifyJoins, joinsOpenTables]
    exact .pure hf hclosed
  | j :: rest, f, hf, hclosed, hj, hold, hopen => by
    rw [joinsOpenTables, List.forall_mem_append] at hopen
    rw [qualifyJoins, joinsOpenTables]
    refine (Join.qualify_binds j hf hclosed hj.1 hold hopen.1).bind hopen.2 fun j' f₁ _ h₁ => ?_
    exact (qualifyJoins_binds rest h₁.grounded h₁.widens.closed
      (joinsEverywhere_mono (Query.IsNodeWithin.mono h₁.widens) rest hj.2)
      (fun a ha => h₁.widens.holds (hold a ha)) hopen.2).map _
termination_by structural joins => joins

theorem Join.qualify_binds : ∀ (j : Join) {f : Forest}, f.IsGrounded → f.IsClosed →
    joinEverywhere (Query.IsNodeWithin f) j → (∀ a, old a → f.Holds a) →
      (∀ p ∈ joinOpenTables j, old p.1) → j.qualify.Binds old (joinOpenTables j) f
  | ⟨key, kind, link, mergedLinks, query⟩, f, hf, hclosed, hj, hold, hopen => by
    rw [Join.qualify, joinOpenTables]
    exact (query.qualify_binds hf hclosed hj hold hopen).map _
termination_by structural j => j

end

/-- Qualifying a request and looking at what comes out binds its tables. -/
theorem Query.qualify_read_binds {α β : Type} (q : Query)
    (view : Query → Forest → Except CompileError α) (k : Query → α → β) {f : Forest}
    (hf : f.IsGrounded) (hclosed : f.IsClosed) (hq : q.IsWithin f)
    (hold : ∀ a, old a → f.Holds a) (hopen : ∀ t ∈ q.openTables, old t.1) :
    (q.qualify >>= fun q => AliasM.read (view q) >>= fun a => pure (k q a)).Binds old q.openTables
      f := by
  refine (q.qualify_binds hf hclosed hq hold hopen).silent fun q' g _ hg => ?_
  exact (AliasM.Binds.read hg.grounded hg.widens.closed).map _

end

end SqlTree
