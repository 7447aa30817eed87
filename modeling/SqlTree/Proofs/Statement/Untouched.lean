import SqlTree.Proofs.Query.Derivation
import SqlTree.Proofs.Query.FailedMerge
import SqlTree.Proofs.Statement.Agree

/-!
# Requests that others were derived from

A request is a value, and what is derived from it, or merged with it, is another one. But the two
share identities. Naming the source of one and merging it make identities one, and the other request
is compiled with these as they are then.

* `Call` is a derivation from a request or a merge with it, and `Call.pairs` are the identities that
  it makes one. A call that makes none one leaves the forest as it is (`Call.reshapes`).
* `Query.SeesNoChange`: in what was done to a forest nothing concerns the identities of a request.
* `Query.call_leavesOriginal`: a request that sees no change is compiled as before.
  `Query.renamedBook_isTouched` is one that sees a change: it goes by a name that was given to
  another request.
-/

namespace SqlTree

/-! ## Calls -/

/-- A call that gives a request from the one at hand: a derivation, or a merge with another request
before or behind it. -/
inductive Call where
  | derive (d : Derivation)
  | distinct
  | reversed
  | unordered
  | limit (count : Nat) (offset? : Option Nat)
  | aliased (a : Alias)
  | merge (other : Query)
  | mergeInto (other : Query)

namespace Call

/-- The call on `q` ends well: in the forest `f` it gives `q'`, and leaves the forest `g`. -/
def Runs (q : Query) (f : Forest) (q' : Query) (g : Forest) : Call → Prop
  | derive d => AliasM.Runs (d.apply q) f q' g
  | distinct => q' = q.distinct ∧ g = f
  | reversed => q' = q.reversed ∧ g = f
  | unordered => q' = q.unordered ∧ g = f
  | limit count offset? => q' = q.limit count offset? ∧ g = f
  | aliased a => AliasM.Runs (q.aliased a) f q' g
  | merge other => UnifyM.Runs (q.merge other) f q' g
  | mergeInto other => UnifyM.Runs (other.merge q) f q' g

/-- The pairs of identities that the call on `q` makes one. -/
def pairs (q : Query) : Call → List (Alias × Alias)
  | derive (.withJoin key join) => (meetJoins q.joins [{ join with key := key }]).pairs
  | aliased a => pairOf (some a) q.source.alias?
  | merge other => (q.meet other).pairs
  | mergeInto other => (other.meet q).pairs
  | _ => []

/-- The identities that come with the call were made. -/
def IsWithin (f : Forest) : Call → Prop
  | derive (.withJoin _ join) => join.query.IsWithin f
  | aliased a => f.Holds a
  | merge other => other.IsWithin f
  | mergeInto other => other.IsWithin f
  | _ => True

end Call

section

variable {f g : Forest} {q q' : Query} {c : Call}

theorem UnifyM.Follows.reshapes {α : Type} {x : UnifyM α} {m : Meeting α} {R : α → Prop} {a : α}
    (hx : x.Follows m) (hf : f.IsGrounded) (hclosed : f.IsClosed) (hm : m.Within f.Holds R)
    (h : UnifyM.Runs x f a g) : f.Reshapes g ∧ (m.pairs = [] → g = f) := by
  obtain ⟨-, hall⟩ := hx.runs_iff.1 h
  refine ⟨Forest.unifyAll_reshapes hf hclosed hm.pairs hall, fun hpairs => ?_⟩
  rw [hpairs] at hall
  exact (Option.some.inj hall).symm

/-- **A call leaves the identities that were made**, and a call that makes no two one leaves the
forest as it is. -/
theorem Call.reshapes (hf : f.IsGrounded) (hclosed : f.IsClosed) (hq : q.IsWithin f)
    (hc : c.IsWithin f) (h : c.Runs q f q' g) : f.Reshapes g ∧ (c.pairs q = [] → g = f) := by
  have hsame : g = f → f.Reshapes g ∧ (c.pairs q = [] → g = f) := by
    rintro rfl
    exact ⟨Forest.reshapes_self hf hclosed, fun _ => rfl⟩
  cases c with
  | distinct => exact hsame h.2
  | reversed => exact hsame h.2
  | unordered => exact hsame h.2
  | limit count offset? => exact hsame h.2
  | derive d =>
    rcases d.changes_or_joins q.source with ⟨-, m, -, hm⟩ | ⟨key, join, rfl⟩
    · rw [Runs, hm q rfl, AliasM.runs_pure] at h
      exact hsame h.2
    · simp only [Runs, Derivation.apply, Query.withJoin, AliasM.runs_bind, AliasM.runs_pure,
        UnifyM.runs_orError] at h
      obtain ⟨joins, _, hjoins, rfl, rfl⟩ := h
      have hmore : ∀ j ∈ [{ join with key := key }], j.query.LevelIn f.Holds := by
        simpa using Query.IsWithin.levelIn hc
      exact (mergeJoins_follows _ q.joins).reshapes hf hclosed
        (meetJoins_within _ (Query.levelIn_iff.1 hq.levelIn).2 hmore) hjoins
  | aliased a =>
    rw [Runs, Query.aliased] at h
    cases hown : q.source.alias? with
    | none =>
      simp only [hown, AliasM.runs_pure] at h
      exact hsame h.2
    | some own =>
      simp only [hown, AliasM.link, AliasM.runs_bind, AliasM.runs_pure, AliasM.runs_change] at h
      obtain ⟨_, _, hlink, -, rfl⟩ := h
      refine ⟨Forest.link_reshapes hf hclosed (hq.self.source own hown) hc hlink, fun hpairs => ?_⟩
      rw [pairs, hown, pairOf] at hpairs
      cases hpairs
  | merge other =>
    exact (Query.merge_follows other q).reshapes hf hclosed
      (Query.meet_within other hq.levelIn (Query.IsWithin.levelIn hc)) h
  | mergeInto other =>
    exact (Query.merge_follows q other).reshapes hf hclosed
      (Query.meet_within q (Query.IsWithin.levelIn hc) hq.levelIn) h

end

/-! ## Changes that are not seen -/

/-- The occurrence of `a` has no table yet, and `table?` is the one that all of the pending bindings
of this occurrence, of which there are some, are to. -/
def Forest.IsPending (f : Forest) (pending : List (Alias × String)) (a : Alias)
    (table? : Option String) : Prop :=
  f.tableName? a = none ∧ ∃ t, table? = some t ∧
    (∃ p ∈ pending, f.root p.1 = f.root a) ∧ ∀ p ∈ pending, f.root p.1 = f.root a → p.2 = t

/-- The request, over `known` identities, can't tell the forest `g` from `f`: these identities have
the same names, and those of one occurrence are the same. They have the same tables, too, but for an
occurrence without a table, which may have got the one that the request binds it to. -/
structure Query.SeesNoChange (q : Query) (known : Alias → Prop) (f g : Forest) : Prop where
  userName? : ∀ a, known a → g.userName? a = f.userName? a
  isSame : ∀ a b, known a → known b → g.isSame a b = f.isSame a b
  tableName? : ∀ a, known a →
    g.tableName? a = f.tableName? a ∨ f.IsPending q.openTables a (g.tableName? a)

section

variable {known : Alias → Prop} {f g : Forest} {q : Query} {a : Alias}

/-- What all bindings of an occurrence are to is what the first one is to. -/
theorem Forest.IsPending.firstBinding_eq {pending : List (Alias × String)} {table? : Option String}
    (h : f.IsPending pending a table?) : f.firstBinding pending a = table? := by
  obtain ⟨-, t, rfl, ⟨p, hp, hroot⟩, hall⟩ := h
  rw [firstBinding]
  cases hfind : pending.find? (f.root ·.1 == f.root a) with
  | none => exact absurd (beq_iff_eq.2 hroot) (List.find?_eq_none.1 hfind p hp)
  | some p' =>
    have hroot' := List.find?_some hfind
    rw [beq_iff_eq] at hroot'
    exact congrArg some (hall p' (List.mem_of_find?_eq_some hfind) hroot')

/-- The forests agree on what the request knows and on all that is made later. -/
theorem Query.SeesNoChange.agree (h : q.SeesNoChange known f g) (hf : f.IsGrounded)
    (hclosed : f.IsClosed) (hfg : f.Reshapes g) (hq : q.IsWithin f)
    (hknown : ∀ a, known a → f.Holds a) :
    Forest.Agree (Alias.shift f.cells.length 0) (fun a => known a ∨ ¬ f.Holds a)
      (q.openTables ++ []) f g := by
  rw [List.append_nil]
  refine .of_known hf hfg.grounded hclosed hfg.closed hfg.length_eq hknown
    (q.openTables_held hq) (fun a b ha hb => ?_) h.userName? fun a ha => ?_
  · have hsame := h.isSame a b ha hb
    rwa [Forest.isSame, Forest.isSame, Bool.eq_iff_iff, beq_iff_eq, beq_iff_eq] at hsame
  · rcases h.tableName? a ha with heq | hpending
    · rw [heq]
    · rw [hpending.firstBinding_eq, hpending.1, Option.or_self, Option.none_or]

end

/-! ## The original -/

/-- **What a call leaves of the request at hand.** A call that makes no two identities one leaves
the forest as it is. Where it does make some one, the request is compiled as before, unless it sees
a change: in a name, in a table, or in what is one occurrence among the identities that it holds. -/
theorem Query.call_leavesOriginal {f g : Forest} {q q' : Query} {c : Call} {known : Alias → Prop}
    (hf : f.IsGrounded) (hclosed : f.IsClosed) (hq : q.IsWithin f) (hc : c.IsWithin f)
    (hover : q.IsOver known) (hknown : ∀ a, known a → f.Holds a) (h : c.Runs q f q' g) :
    (c.pairs q = [] → g = f) ∧
      (q.SeesNoChange known f g → ∀ db,
        (q.selectStatement db).outcome g = (q.selectStatement db).outcome f ∧
        (q.deleteStatement db).outcome g = (q.deleteStatement db).outcome f ∧
        (q.prepare db).outcome g = (q.prepare db).outcome f) := by
  obtain ⟨hfg, hsame⟩ := Call.reshapes hf hclosed hq hc h
  refine ⟨hsame, fun hsees db => ?_⟩
  have hagree := hsees.agree hf hclosed hfg hq hknown
  have hover' : q.IsOver fun a => known a ∨ ¬ f.Holds a := hover.mono fun _ => .inl
  exact ⟨(q.selectStatement_agrees hover' hq hagree).outcome_eq,
    (q.deleteStatement_agrees hover' hq hagree).outcome_eq,
    (q.prepare_agrees hover' hq hagree).outcome_eq⟩

/-- The book of the second of two identities. -/
def secondBook : Query := Query.ofSource (.table "book" (some ⟨1⟩))

/-- Two identities, none of them named. -/
def twoUnnamed : Forest := ((Forest.empty.fresh none).2.fresh none).2

theorem twoUnnamed_made : twoUnnamed.IsGrounded ∧ twoUnnamed.IsClosed ∧
    twoUnnamed.Holds ⟨0⟩ ∧ twoUnnamed.Holds ⟨1⟩ :=
  ⟨(Forest.fresh_coarsens (Forest.fresh_coarsens Forest.isGrounded_empty none).grounded
    none).grounded, (Forest.fresh_widens (Forest.fresh_widens Forest.isClosed_empty
    none).closed none).closed, Nat.zero_lt_two, Nat.one_lt_two⟩

/-- A book whose copy was given another identity is selected as before. -/
theorem Query.call_leavesOriginal_secondBook : ∃ q' g,
    (Call.aliased ⟨0⟩).Runs secondBook twoUnnamed q' g ∧ g ≠ twoUnnamed ∧
      (secondBook.selectStatement bookCatalog.schema).outcome g =
        (secondBook.selectStatement bookCatalog.schema).outcome twoUnnamed := by
  have hruns : ∃ q' g, (Call.aliased ⟨0⟩).Runs secondBook twoUnnamed q' g ∧
      g = ⟨[.free none, .proxy ⟨0⟩]⟩ := ⟨_, _, rfl, rfl⟩
  obtain ⟨q', g, hruns, rfl⟩ := hruns
  obtain ⟨hf, hclosed, hfirst, hsecond⟩ := twoUnnamed_made
  have hknown : ∀ a, a = ⟨1⟩ → twoUnnamed.Holds a := by
    rintro a rfl
    exact hsecond
  have hover : secondBook.IsOver (· = ⟨1⟩) := Query.isOver_ofTable (by rfl) "book"
  obtain ⟨-, hleaves⟩ := Query.call_leavesOriginal (c := .aliased ⟨0⟩) hf hclosed
    (Query.isOver_holds_iff.1 (Query.isOver_ofTable hsecond "book")) hfirst hover hknown hruns
  refine ⟨q', _, hruns, by decide, (hleaves ⟨?_, ?_, ?_⟩ bookCatalog.schema).1⟩
  · rintro a rfl
    rfl
  · rintro a b rfl rfl
    rfl
  · rintro a rfl
    exact .inl rfl

/-- A book whose copy was given a named identity goes by this name from then on. -/
theorem Query.renamedBook_isTouched : ∃ q' g,
    (Call.aliased ⟨0⟩).Runs secondBook twoOccurrences q' g ∧
      (secondBook.selectStatement bookCatalog.schema).outcome twoOccurrences =
        .ok ⟨"SELECT * FROM \x22book\x22", []⟩ ∧
      (secondBook.selectStatement bookCatalog.schema).outcome g =
        .ok ⟨"SELECT * FROM \x22book\x22 AS \x22x\x22", []⟩ :=
  ⟨_, _, rfl, rfl, rfl⟩

end SqlTree
