import SqlTree.Proofs.Query.Meeting
import SqlTree.Proofs.Query.MergedLinks
import SqlTree.Query.Association

/-!
# Merges that come to nothing

A merge may come to nothing after it has made some occurrences one. They stay so: the source of a
request is merged before its joins are, and what a join lacks to be merged is seen only then.

* `Query.failedMerge_leaves_iff` says when a merge that comes to nothing leaves all identities as
  they were: just when the first two different occurrences that it comes upon can't be made one.
* `UnifyM.Follows.leaves_iff` says so of any work that follows a walk. Making two occurrences one
  stays when a later pair fails.
* `Query.meet_within` keeps all pairs within the identities of the two requests, which were made.
-/

namespace SqlTree

variable {α β : Type}

/-! ## Pairs of given occurrences -/

/-- A walk comes upon occurrences in `P`, and what it gives is in `R`. -/
structure Meeting.Within (P : Alias → Prop) (R : α → Prop) (m : Meeting α) : Prop where
  pairs : ∀ p ∈ m.pairs, P p.1 ∧ P p.2
  result : ∀ a ∈ m.result?, R a

namespace Meeting.Within

variable {P : Alias → Prop} {R : α → Prop} {S : β → Prop}

theorem pure {a : α} (ha : R a) : Within P R (Pure.pure a) := by
  refine ⟨nofun, fun b hb => ?_⟩
  obtain rfl := Option.some.inj hb
  exact ha

theorem nothing : Within P R .nothing := ⟨nofun, nofun⟩

theorem bind {m : Meeting α} {k : α → Meeting β} (hm : m.Within P R)
    (hk : ∀ a, R a → (k a).Within P S) : (m >>= k).Within P S := by
  constructor
  · rw [pairs_bind]
    cases hresult : m.result? with
    | none => simpa using hm.pairs
    | some a => exact List.forall_mem_append.2 ⟨hm.pairs, (hk a (hm.result a hresult)).pairs⟩
  · rw [result?_bind]
    cases hresult : m.result? with
    | none =>
      rintro b ⟨⟩
    | some a => exact (hk a (hm.result a hresult)).result

end Meeting.Within

theorem mem_joinsLevelAliases {a : Alias} {joins : List Join} :
    a ∈ joinsLevelAliases joins ↔ ∃ j ∈ joins, a ∈ j.query.levelAliases := by
  rw [joinsLevelAliases_eq, joinsNodes_eq_flatMap, List.flatMap_assoc, List.mem_flatMap]
  simp only [Query.levelAliases_eq]

section

variable {P : Alias → Prop}

theorem meetAliases_within {a? b? : Option Alias} (ha : ∀ a ∈ a?, P a) (hb : ∀ b ∈ b?, P b) :
    (meetAliases a? b?).Within P fun c? => ∀ c ∈ c?, P c := by
  cases a? with
  | none => exact .pure hb
  | some a =>
    cases b? with
    | none => exact .pure ha
    | some b =>
      have hpair : (Meeting.pair a b).Within P fun _ => True := by
        refine ⟨fun p hp => ?_, fun _ _ => trivial⟩
        obtain rfl := List.mem_singleton.1 hp
        exact ⟨ha a rfl, hb b rfl⟩
      exact hpair.bind fun _ _ => .pure ha

theorem Source.meet_within {s s' : Source} (hs : ∀ a ∈ s.alias?, P a)
    (hs' : ∀ a ∈ s'.alias?, P a) : (s.meet s').Within P fun t => ∀ a ∈ t.alias?, P a := by
  cases s with
  | nested query alias? => exact .nothing
  | table name alias? =>
    cases s' with
    | nested query alias? => exact .nothing
    | table name' alias?' =>
      rw [meet]
      split
      · exact (meetAliases_within hs hs').bind fun _ h => .pure h
      · exact .nothing

/-- The occurrences of the sources of a level are in `P`. -/
def Query.LevelIn (P : Alias → Prop) (q : Query) : Prop := ∀ a ∈ q.levelAliases, P a

theorem Query.levelIn_iff {q : Query} : q.LevelIn P ↔
    (∀ a ∈ q.source.alias?, P a) ∧ ∀ j ∈ q.joins, j.query.LevelIn P := by
  obtain ⟨source, clauses, joins, isQualified⟩ := q
  simp only [LevelIn, levelAliases, List.mem_append, Option.mem_toList, mem_joinsLevelAliases]
  constructor
  · intro h
    exact ⟨fun a ha => h a (.inl ha), fun j hj a ha => h a (.inr ⟨j, hj, ha⟩)⟩
  · rintro ⟨hsource, hjoins⟩ a (ha | ⟨j, hj, ha⟩)
    · exact hsource a ha
    · exact hjoins j hj a ha

mutual

/-- Merging requests comes upon the occurrences of their levels. -/
theorem Query.meet_within : ∀ (b : Query) {a : Query}, a.LevelIn P → b.LevelIn P →
    (a.meet b).Within P (Query.LevelIn P)
  | ⟨source, clauses, joins, isQualified⟩, a, ha, hb => by
    obtain ⟨hsource, hjoins⟩ := Query.levelIn_iff.1 ha
    obtain ⟨hsource', hjoins'⟩ := Query.levelIn_iff.1 hb
    rw [Query.meet]
    refine (Source.meet_within hsource hsource').bind fun s hs => ?_
    refine (meetJoins_within joins hjoins hjoins').bind fun merged hmerged => ?_
    exact .pure (Query.levelIn_iff.2 ⟨hs, hmerged⟩)
termination_by structural b => b

theorem Join.meet_within : ∀ (j : Join) {k : Join}, k.query.LevelIn P → j.query.LevelIn P →
    (k.meet j).Within P fun m => m.query.LevelIn P
  | ⟨key, kind, link, mergedLinks, query⟩, k, hk, hj => by
    rw [Join.meet]
    split
    · exact (query.meet_within hk hj).bind fun _ hq => .pure hq
    · exact .nothing
termination_by structural j => j

theorem meetJoins_within : ∀ (more : List Join) {mine : List Join},
    (∀ k ∈ mine, k.query.LevelIn P) → (∀ j ∈ more, j.query.LevelIn P) →
      (meetJoins mine more).Within P fun joins => ∀ m ∈ joins, m.query.LevelIn P
  | [], mine, hmine, _ => by
    rw [meetJoins]
    exact .pure hmine
  | j :: rest, mine, hmine, hmore => by
    obtain ⟨hj, hrest⟩ := List.forall_mem_cons.1 hmore
    rw [meetJoins]
    cases hk : Join.find? j.key mine with
    | none =>
      refine meetJoins_within rest (List.forall_mem_append.2 ⟨hmine, ?_⟩) hrest
      simpa using hj
    | some k =>
      refine (Join.meet_within j (hmine k (List.mem_of_find?_eq_some hk)) hj).bind fun m hm => ?_
      exact meetJoins_within rest
        (Join.forall_replace (P := fun m => m.query.LevelIn P) hmine hm) hrest
termination_by structural more => more

end

end

/-- A request within a forest has the occurrences of its level there. -/
theorem Query.IsWithin.levelIn {f : Forest} {q : Query} (hq : q.IsWithin f) :
    q.LevelIn f.Holds := by
  intro a ha
  rw [levelAliases_eq] at ha
  obtain ⟨p, hp, ha⟩ := List.mem_flatMap.1 ha
  exact (Query.Everywhere.of_mem_nodes q hq p hp).self.source a (by simpa using ha)

/-! ## Failing -/

/-- The merging turns the forest `f` into `g` and comes to nothing. -/
def UnifyM.Fails (x : UnifyM α) (f g : Forest) : Prop :=
  ((OptionT.run x).run f).run = (none, g)

variable {f g : Forest}

theorem UnifyM.fails_orError {x : UnifyM α} {k : α → β} {e e' : CompileError}
    (h : AliasM.Fails (x.orError e >>= fun a => pure (k a)) f e' g) : x.Fails f g ∧ e' = e := by
  have hrun : ((ExceptT.run (x.orError e)).run f).run =
      (((OptionT.run x).run f).run.1.elim (.error e) .ok, ((OptionT.run x).run f).run.2) := by
    simp only [orError, ExceptT.run_mk, StateT.run, Id.run]
    rcases OptionT.run x f with ⟨_ | a, g⟩ <;> rfl
  rw [AliasM.Fails, ExceptT.run_bind, StateT.run_bind, Id.run_bind, hrun] at h
  rw [Fails]
  rcases hx : ((OptionT.run x).run f).run with ⟨_ | a, g'⟩
  · rw [hx] at h
    obtain ⟨he, hg⟩ := Prod.mk.inj h
    exact ⟨Prod.ext rfl hg, (Except.error.inj he).symm⟩
  · rw [hx] at h
    cases (Prod.mk.inj h).1

/-- The first pair of a list that is not one occurrence. -/
def Forest.firstApart? (f : Forest) (ps : List (Alias × Alias)) : Option (Alias × Alias) :=
  ps.find? fun p => !f.isSame p.1 p.2

theorem Forest.unifyFirst_looksLike_iff (hf : f.IsGrounded) (hclosed : f.IsClosed)
    {ps : List (Alias × Alias)} (hps : ∀ p ∈ ps, f.Holds p.2) :
    f.LooksLike (f.unifyFirst ps) ↔ ∀ p ∈ f.firstApart? ps, f.unify p.1 p.2 = none := by
  induction ps with
  | nil => exact iff_of_true f.looksLike_self nofun
  | cons p ps ih =>
    obtain ⟨hp, hps⟩ := List.forall_mem_cons.1 hps
    rw [firstApart?, List.find?_cons]
    cases hsame : f.isSame p.1 p.2 with
    | true =>
      rw [unifyFirst, unify_of_isSame hsame]
      exact ih hps
    | false =>
      have hfirst : (∀ q ∈ some p, f.unify q.1 q.2 = none) ↔ f.unify p.1 p.2 = none := by simp
      refine Iff.trans ?_ hfirst.symm
      cases hunify : f.unify p.1 p.2 with
      | none =>
        rw [unifyFirst, hunify]
        exact iff_of_true f.looksLike_self rfl
      | some e =>
        -- Once the two are one occurrence they stay one, whatever fails later.
        refine iff_of_false (fun hlike => ?_) (by simp)
        have hmade := unify_isSame hf hclosed hp hunify
        have hstays := (unifyFirst_coarsens ps (unify_coarsens hf hunify).grounded).same
          p.1 p.2 (by simpa [Forest.isSame] using hmade)
        have hisSame := hlike.isSame p.1 p.2
        rw [unifyFirst, hunify, hsame, Forest.isSame, hstays, beq_self_eq_true] at hisSame
        cases hisSame

/-- **Work that comes to nothing leaves identities as they were** just when the first two different
occurrences that it comes upon can't be made one. -/
theorem UnifyM.Follows.leaves_iff {x : UnifyM α} {m : Meeting α} {R : α → Prop}
    (hx : x.Follows m) (hf : f.IsGrounded) (hclosed : f.IsClosed) (hm : m.Within f.Holds R)
    (h : x.Fails f g) :
    f.LooksLike g ↔ ∀ p ∈ f.firstApart? m.pairs, f.unify p.1 p.2 = none := by
  rw [Fails, hx f] at h
  rw [← (Prod.mk.inj h).2]
  exact Forest.unifyFirst_looksLike_iff hf hclosed fun p hp => (hm.pairs p hp).2

/-- **When a merge that comes to nothing changes nothing.** For merging requests, for merging joins
and for appending a join: all identities are as they were just when the first two different
occurrences that the merge comes upon can't be made one. -/
theorem Query.failedMerge_leaves_iff (hf : f.IsGrounded) (hclosed : f.IsClosed) :
    (∀ {a b : Query}, a.IsWithin f → b.IsWithin f → (a.merge b).Fails f g →
      (f.LooksLike g ↔ ∀ p ∈ f.firstApart? (a.meet b).pairs, f.unify p.1 p.2 = none)) ∧
    (∀ {k j : Join}, k.query.IsWithin f → j.query.IsWithin f → (k.merge j).Fails f g →
      (f.LooksLike g ↔ ∀ p ∈ f.firstApart? (k.meet j).pairs, f.unify p.1 p.2 = none)) ∧
    ∀ {q : Query} {key : String} {j : Join} {e : CompileError}, q.IsWithin f →
      j.query.IsWithin f → (q.withJoin key j).Fails f e g → e = .clashingJoins key ∧
      (f.LooksLike g ↔ ∀ p ∈ f.firstApart? (meetJoins q.joins [{ j with key := key }]).pairs,
        f.unify p.1 p.2 = none) := by
  refine ⟨fun {a b} ha hb h => ?_, fun {k j} hk hj h => ?_, fun {q key j e} hq hj h => ?_⟩
  · exact (Query.merge_follows b a).leaves_iff hf hclosed
      (Query.meet_within b ha.levelIn hb.levelIn) h
  · exact (Join.merge_follows j k).leaves_iff hf hclosed (Join.meet_within j hk.levelIn hj.levelIn)
      h
  · obtain ⟨hfails, he⟩ := UnifyM.fails_orError h
    have hmore : ∀ j' ∈ [{ j with key := key }], j'.query.LevelIn f.Holds := by
      simpa using hj.levelIn
    exact ⟨he, (mergeJoins_follows _ q.joins).leaves_iff hf hclosed
      (meetJoins_within _ (Query.levelIn_iff.1 hq.levelIn).2 hmore) hfails⟩

/-! ## Two books -/

/-- Two identities, the first of them named. -/
def twoOccurrences : Forest := ((Forest.empty.fresh (some "x")).2.fresh none).2

theorem twoOccurrences_isGrounded : twoOccurrences.IsGrounded := (Forest.fresh_coarsens
  (Forest.fresh_coarsens Forest.isGrounded_empty (some "x")).grounded none).grounded

theorem twoOccurrences_isClosed : twoOccurrences.IsClosed := (Forest.fresh_widens
  (Forest.fresh_widens Forest.isClosed_empty (some "x")).closed none).closed

/-- The book `a` with the authors of an association. -/
def bookAs (a : Alias) (authors : Association) : Query :=
  { Query.ofSource (.table "book" (some a)) with
    joins := [(authors.withKey "author").toJoin .required true] }

theorem bookAs_isWithin {f : Forest} {a : Alias} {authors : Association} (ha : f.Holds a)
    (h : authors.destination.IsWithin f) : (bookAs a authors).IsWithin f := by
  refine ⟨⟨fun b hb => ?_, ?_, nofun, nofun, nofun, nofun⟩, trivial, h, trivial⟩
  · obtain rfl := Option.some.inj hb
    exact ha
  · intro i hi
    obtain rfl := List.mem_singleton.1 hi
    exact nofun

/-- Two books merge into one before it is seen that their authors don't: the book of another
identity goes by the name `x` from then on. -/
theorem Query.failedMerge_leaves_iff_books :
    ((bookAs ⟨0⟩ (.belongsTo "book" "author")).merge
      (bookAs ⟨1⟩ (.hasMany "book" "author"))).Fails twoOccurrences
        ⟨[.free (some "x"), .proxy ⟨0⟩]⟩ ∧
      ¬ twoOccurrences.LooksLike ⟨[.free (some "x"), .proxy ⟨0⟩]⟩ := by
  have hfails : ((bookAs ⟨0⟩ (.belongsTo "book" "author")).merge
      (bookAs ⟨1⟩ (.hasMany "book" "author"))).Fails twoOccurrences
        ⟨[.free (some "x"), .proxy ⟨0⟩]⟩ := rfl
  have hauthor : (Query.table "author").IsWithin twoOccurrences := by
    refine ⟨⟨nofun, fun i hi => ?_, nofun, nofun, nofun, nofun⟩, trivial, trivial⟩
    obtain rfl := List.mem_singleton.1 hi
    exact nofun
  refine ⟨hfails, fun hlike => ?_⟩
  have hheld : twoOccurrences.Holds ⟨0⟩ ∧ twoOccurrences.Holds ⟨1⟩ :=
    ⟨Nat.zero_lt_two, Nat.one_lt_two⟩
  have hiff := (Query.failedMerge_leaves_iff twoOccurrences_isGrounded
    twoOccurrences_isClosed).1
    (bookAs_isWithin hheld.1 hauthor) (bookAs_isWithin hheld.2 hauthor) hfails
  cases hiff.1 hlike (⟨0⟩, ⟨1⟩) rfl

end SqlTree
