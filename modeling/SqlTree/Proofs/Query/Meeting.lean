import SqlTree.Proofs.Alias.Pairs
import SqlTree.Proofs.Query.Nodes
import SqlTree.Proofs.Query.Within
import SqlTree.Query.Derive

/-!
# Which occurrences a merge makes one

A merge walks two requests, and wherever both have an occurrence it makes one of the two. What it
walks through does not depend on the forest: only whether it gets to the end does. `Query.meet` is
the same walk without a forest. It lists the pairs of occurrences that a merge comes upon, in order,
and gives the request that comes out if all of them can be made one.

* `Meeting` is a walk, and `UnifyM.Follows` says that work does what a walk lists.
* `Query.merge_follows`: a merge makes one occurrence after the other of the pairs that the walk
  lists, as far as it can. `UnifyM.Follows.runs_iff`: it ends well just when all of them can be made
  one and the walk gives something.
-/

namespace SqlTree

variable {α β : Type}

/-! ## Walks -/

/-- A walk through two requests: the pairs of occurrences that it comes upon, and what it gives. -/
structure Meeting (α : Type) where
  pairs : List (Alias × Alias)
  result? : Option α

namespace Meeting

/-- A walk behind a walk that gave something. -/
def andThen (m : Meeting α) (k : α → Meeting β) : Meeting β :=
  match m.result? with
  | some a => ⟨m.pairs ++ (k a).pairs, (k a).result?⟩
  | none => ⟨m.pairs, none⟩

instance : Monad Meeting where
  pure a := ⟨[], some a⟩
  bind := andThen

/-- The walk that gives nothing. -/
def nothing : Meeting α := ⟨[], none⟩

/-- The walk that comes upon one pair. -/
def pair (a b : Alias) : Meeting Unit := ⟨[(a, b)], some ()⟩

@[simp] theorem pairs_pure (a : α) : (pure a : Meeting α).pairs = [] := rfl

@[simp] theorem result?_bind (m : Meeting α) (k : α → Meeting β) :
    (m >>= k).result? = m.result?.bind fun a => (k a).result? := by
  change (m.andThen k).result? = _
  rw [andThen]
  cases m.result? <;> rfl

theorem pairs_bind (m : Meeting α) (k : α → Meeting β) :
    (m >>= k).pairs = m.pairs ++ (m.result?.elim [] fun a => (k a).pairs) := by
  change (m.andThen k).pairs = _
  rw [andThen]
  cases m.result? with
  | none => exact (List.append_nil _).symm
  | some a => rfl

end Meeting

/-- The work makes one occurrence of each pair of a walk, as far as it can, and gives what the walk
gives when it gets to its end. -/
def UnifyM.Follows (x : UnifyM α) (m : Meeting α) : Prop :=
  ∀ f, ((OptionT.run x).run f).run =
    ((f.unifyAll m.pairs).bind fun _ => m.result?, f.unifyFirst m.pairs)

namespace UnifyM

theorem follows_pure (a : α) : Follows (pure a) (pure a) := fun _ => rfl

theorem follows_failure : Follows (failure : UnifyM α) .nothing := fun _ => rfl

theorem follows_unify (a b : Alias) : Follows (unify a b) (.pair a b) := by
  intro f
  simp only [Meeting.pair, Forest.unifyAll, Forest.unifyFirst, unify, OptionT.run_mk, StateT.run,
    Id.run]
  cases f.unify a b <;> rfl

theorem Follows.bind {x : UnifyM α} {m : Meeting α} {k : α → UnifyM β} {l : α → Meeting β}
    (hx : x.Follows m) (hk : ∀ a, (k a).Follows (l a)) : (x >>= k).Follows (m >>= l) := by
  intro f
  rw [OptionT.run_bind, Option.elimM, StateT.run_bind, Id.run_bind, hx f, Meeting.result?_bind,
    Meeting.pairs_bind]
  cases hall : f.unifyAll m.pairs with
  | none =>
    rw [Forest.unifyAll_append, hall, Forest.unifyFirst_of_unifyAll_eq_none hall]
    rfl
  | some g =>
    rw [Forest.unifyAll_append, hall, Forest.unifyFirst_of_unifyAll_eq_some hall,
      Forest.unifyFirst_eq hall]
    cases m.result? with
    | none => rfl
    | some a => exact hk a g

variable {x : UnifyM α} {m : Meeting α} {f g : Forest}

theorem Follows.runs_iff (hx : x.Follows m) {a : α} :
    Runs x f a g ↔ m.result? = some a ∧ f.unifyAll m.pairs = some g := by
  rw [Runs, hx f, Prod.mk.injEq]
  constructor
  · rintro ⟨h, rfl⟩
    obtain ⟨e, he, h⟩ := Option.bind_eq_some_iff.1 h
    exact ⟨h, by rw [he, Forest.unifyFirst_eq he]⟩
  · rintro ⟨h, hall⟩
    rw [hall, Forest.unifyFirst_eq hall]
    exact ⟨h, rfl⟩

end UnifyM

/-! ## Walking through requests -/

/-- The walk of `mergeAliases`. -/
def meetAliases : Option Alias → Option Alias → Meeting (Option Alias)
  | some a, some b => do
    Meeting.pair a b
    return some a
  | some a, none => return some a
  | none, b? => return b?

/-- The walk of `Source.merge`. -/
def Source.meet : Source → Source → Meeting Source
  | .table name alias?, .table name' alias?' =>
    if Text.sameName name name' then do
      return .table name (← meetAliases alias? alias?')
    else .nothing
  | _, _ => .nothing

mutual

/-- The walk of `Query.merge`. -/
def Query.meet (a : Query) : Query → Meeting Query
  | ⟨source, clauses, joins, _⟩ => do
    let source ← a.source.meet source
    let joins ← meetJoins a.joins joins
    return ⟨source, a.clauses.merge clauses, joins, false⟩

/-- The walk of `Join.merge`. -/
def Join.meet (a : Join) : Join → Meeting Join
  | ⟨_, kind, link, mergedLinks, query⟩ =>
    if a.link.isBetweenSameTables link then do
      let merged ← a.query.meet query
      return ⟨a.key, a.kind.merge kind, a.link, a.linksWith (link :: mergedLinks), merged⟩
    else .nothing

/-- The walk of `mergeJoins`. -/
def meetJoins (mine : List Join) : List Join → Meeting (List Join)
  | [] => return mine
  | j :: rest =>
    match Join.find? j.key mine with
    | none => meetJoins (mine ++ [j]) rest
    | some k => do
      let merged ← k.meet j
      meetJoins (merged.replace mine) rest

end

theorem mergeAliases_follows (a? b? : Option Alias) :
    (mergeAliases a? b?).Follows (meetAliases a? b?) := by
  cases a? with
  | none => exact UnifyM.follows_pure b?
  | some a =>
    cases b? with
    | none => exact UnifyM.follows_pure (some a)
    | some b => exact (UnifyM.follows_unify a b).bind fun _ => UnifyM.follows_pure (some a)

theorem Source.merge_follows (s s' : Source) : (s.merge s').Follows (s.meet s') := by
  cases s with
  | nested query alias? => exact UnifyM.follows_failure
  | table name alias? =>
    cases s' with
    | nested query alias? => exact UnifyM.follows_failure
    | table name' alias?' =>
      rw [merge, meet]
      split
      · exact (mergeAliases_follows alias? alias?').bind fun _ => UnifyM.follows_pure _
      · exact UnifyM.follows_failure

mutual

/-- **A merge follows its walk.** -/
theorem Query.merge_follows : ∀ b a : Query, (a.merge b).Follows (a.meet b)
  | ⟨source, clauses, joins, isQualified⟩, a => by
    rw [Query.merge, Query.meet]
    refine (a.source.merge_follows source).bind fun _ => ?_
    exact (mergeJoins_follows joins a.joins).bind fun _ => UnifyM.follows_pure _
termination_by structural b => b

theorem Join.merge_follows : ∀ j k : Join, (k.merge j).Follows (k.meet j)
  | ⟨key, kind, link, mergedLinks, query⟩, k => by
    rw [Join.merge, Join.meet]
    split
    · exact (query.merge_follows k.query).bind fun _ => UnifyM.follows_pure _
    · exact UnifyM.follows_failure
termination_by structural j => j

theorem mergeJoins_follows : ∀ more mine : List Join,
    (mergeJoins mine more).Follows (meetJoins mine more)
  | [], mine => by
    rw [mergeJoins, meetJoins]
    exact UnifyM.follows_pure mine
  | j :: rest, mine => by
    rw [mergeJoins, meetJoins]
    cases Join.find? j.key mine with
    | none => exact mergeJoins_follows rest (mine ++ [j])
    | some k =>
      exact (Join.merge_follows j k).bind fun merged =>
        mergeJoins_follows rest (merged.replace mine)
termination_by structural more => more

end

end SqlTree
