import SqlTree.Proofs.Query.Bindings
import SqlTree.Proofs.Region.Agree
import SqlTree.Proofs.Statement.Untouched

/-!
# Compiling again

Compiling a request changes the forest: it makes identities, and it binds those in the request to
their tables, as far as it gets. What it leaves behind is what compiling the request again would do
first. So a request compiles to one result however often it was compiled before, whatever it was
compiled to, and also where requests on other occurrences were compiled in between.

* `Compiling` are the ways to compile a request, and `Compiling.work_binds` says what all of them
  leave: the tables that qualifying the request binds, or some of the first of them.
* `Query.SeesOwnBindings`: what was done to a forest shows in a request as its own bindings.
  `Query.SeesOwnBindings.after` is the step and `Query.Calls.seesOwnBindings` any number of calls.
* `Query.compile_repeatable`: a request compiles to the same result behind any calls as at first,
  and preparing it gives the statement that selects it.
-/

namespace SqlTree

variable {f g h : Forest} {db : Schema} {p q : Query} {known : Alias → Prop}

/-! ## The request that counts -/

mutual

theorem Query.Everywhere.unordered {P : Query → Prop} (hP : ∀ q, P q → P q.unordered) :
    ∀ q : Query, q.Everywhere P → q.unordered.Everywhere P
  | ⟨_, _, joins, _⟩, hq => ⟨hP _ hq.1, hq.2.1, joinsEverywhere_unordered hP joins hq.2.2⟩

theorem joinsEverywhere_unordered {P : Query → Prop} (hP : ∀ q, P q → P q.unordered) :
    ∀ joins : List Join, joinsEverywhere P joins →
      joinsEverywhere P (Query.unorderedJoins joins)
  | [], _ => trivial
  | j :: rest, hj =>
    ⟨joinEverywhere_unordered hP j hj.1, joinsEverywhere_unordered hP rest hj.2⟩

theorem joinEverywhere_unordered {P : Query → Prop} (hP : ∀ q, P q → P q.unordered) :
    ∀ j : Join, joinEverywhere P j → joinEverywhere P (Query.unorderedJoin j)
  | ⟨_, _, _, _, query⟩, hj => Query.Everywhere.unordered hP query hj

end

mutual

theorem Query.openTables_unordered : ∀ q : Query, q.unordered.openTables = q.openTables
  | ⟨_, _, _, true⟩ => by rw [Query.unordered, Query.openTables, Query.openTables]
  | ⟨_, _, joins, false⟩ => by
    rw [Query.unordered, Query.openTables, Query.openTables, joinsOpenTables_unordered joins]

theorem joinsOpenTables_unordered : ∀ joins : List Join,
    joinsOpenTables (Query.unorderedJoins joins) = joinsOpenTables joins
  | [] => by rw [Query.unorderedJoins]
  | j :: rest => by
    rw [Query.unorderedJoins, joinsOpenTables, joinsOpenTables, joinOpenTables_unordered j,
      joinsOpenTables_unordered rest]

theorem joinOpenTables_unordered : ∀ j : Join,
    joinOpenTables (Query.unorderedJoin j) = joinOpenTables j
  | ⟨_, _, _, _, query⟩ => by
    rw [Query.unorderedJoin, joinOpenTables, joinOpenTables, Query.openTables_unordered query]

end

namespace Query

/-- Counting rows binds what reading them does. -/
theorem openTables_count (q : Query) : q.count.openTables = q.openTables := by
  rw [← openTables_unordered q, count]
  cases q.unordered.countInPlace? with
  | some e =>
    change (q.unordered.counting e).openTables = _
    cases q.unordered
    rename_i isQualified
    cases isQualified <;> rw [counting, openTables, openTables]
  | none =>
    change (nested q.unordered).openTables = _
    rw [nested, ofSource, openTables, Source.openTables, joinsOpenTables, List.append_nil]

theorem IsOver.unordered (hq : q.IsOver known) : q.unordered.IsOver known := by
  refine Everywhere.unordered (fun p hp => ?_) q hq
  refine ⟨?_, ?_, ?_, ?_, ?_, ?_⟩ <;> simp only [source_unordered, clauses_unordered]
  · exact hp.source
  · exact hp.selection
  · exact hp.filter
  · exact hp.group
  · exact hp.having
  · exact List.forall_mem_nil _

/-- The request that counts has no other identities. -/
theorem IsOver.count (hq : q.IsOver known) : q.count.IsOver known := by
  have hunordered := hq.unordered
  have hcountAll : Expr.countAll.IsOver known := List.forall_mem_nil _
  rw [Query.count]
  cases hcount : q.unordered.countInPlace? with
  | some e =>
    have he : e.IsOver known := by
      obtain ⟨-, ⟨-, rfl⟩ | ⟨-, e', name?, hitem, rfl⟩⟩ := countInPlace?_eq_some.1 hcount
      · exact hcountAll
      · exact hunordered.self.selection _ (hitem ▸ List.mem_singleton_self _)
    have hself : IsNodeOver known (q.unordered.counting e) := by
      refine { hunordered.self with selection := fun i hi => ?_ }
      obtain rfl := List.mem_singleton.1 hi
      exact he
    exact ⟨hself, hunordered.source, hunordered.joins⟩
  | none =>
    refine ⟨isNodeOver_select (fun a ha => ?_) fun i hi => ?_, hunordered, trivial⟩
    · cases ha
    · obtain rfl := List.mem_singleton.1 hi
      exact hcountAll

end Query

/-! ## Ways to compile a request -/

/-- What a request is compiled to. -/
inductive Compiling where
  | select
  | delete
  | count
  | prepare
  | region

namespace Compiling

/-- What comes out when it goes well. -/
def Result : Compiling → Type
  | select | delete | count => Statement
  | prepare => Statement × Option RowLayout
  | region => Region

/-- The request `q` compiled. -/
def work (db : Schema) (q : Query) : (c : Compiling) → AliasM c.Result
  | select => q.selectStatement db
  | delete => q.deleteStatement db
  | count => q.countStatement db
  | prepare => q.prepare db
  | region => q.region db

/-- **Compiling binds the tables of the request**, or some of the first of them if it fails. -/
theorem work_binds {old : Alias → Prop} (db : Schema) (hf : f.IsGrounded) (hclosed : f.IsClosed)
    (hq : q.IsWithin f) (hold : ∀ a, old a → f.Holds a) (hopen : ∀ t ∈ q.openTables, old t.1)
    (c : Compiling) : (c.work db q).Binds old q.openTables f := by
  cases c with
  | select => exact q.qualify_read_binds _ _ hf hclosed hq hold hopen
  | delete => exact q.qualify_read_binds _ _ hf hclosed hq hold hopen
  | count =>
    have hcount : q.count.IsWithin f :=
      Query.isOver_holds_iff.1 (Query.isOver_holds_iff.2 hq).count
    rw [← q.openTables_count] at hopen ⊢
    exact q.count.qualify_read_binds _ _ hf hclosed hcount hold hopen
  | prepare =>
    refine (q.qualify_binds hf hclosed hq hold hopen).silent fun q' g hruns hg => ?_
    rw [Query.selectStatement, (q.qualify_qualified hruns).qualify_eq, pure_bind, bind_assoc]
    refine (AliasM.Binds.read hg.grounded hg.widens.closed).silent fun s g' _ hg' => ?_
    rw [pure_bind]
    exact (AliasM.Binds.read hg'.grounded hg'.widens.closed).map _
  | region =>
    refine (q.qualify_binds hf hclosed hq hold hopen).silent fun q' g _ hg => ?_
    exact AliasM.Binds.read hg.grounded hg.widens.closed

/-- **Compiling gives one result in forests that agree** on the identities of the request. -/
theorem work_outcome_eq {d : Nat} (hq : q.IsOver known) (hwithin : q.IsWithin f)
    (h : Forest.Agree (Alias.shift f.cells.length d) known (q.openTables ++ []) f g)
    (c : Compiling) : (c.work db q).outcome g = (c.work db q).outcome f := by
  cases c with
  | select => exact (q.selectStatement_agrees hq hwithin h).outcome_eq
  | delete => exact (q.deleteStatement_agrees hq hwithin h).outcome_eq
  | count =>
    have hcount : q.count.IsWithin f :=
      Query.isOver_holds_iff.1 (Query.isOver_holds_iff.2 hwithin).count
    rw [← q.openTables_count] at h
    exact (q.count.selectStatement_agrees hq.count hcount h).outcome_eq
  | prepare => exact (q.prepare_agrees hq hwithin h).outcome_eq
  | region => exact (q.region_agrees hq hwithin h).outcome_eq

end Compiling

/-! ## What shows in a request -/

/-- In what was done to the forest `f` the request `q` sees its own bindings at most: its identities
are of the same occurrences in `g`, with the same names, and a table that an occurrence got is the
one that qualifying the request in `f` binds it to. -/
structure Query.SeesOwnBindings (q : Query) (f g : Forest) : Prop where
  grounded : g.IsGrounded
  widens : Forest.Widens f g
  root : ∀ a, q.HasIdentity a → g.root a = f.root a
  userName? : ∀ a, q.HasIdentity a → g.userName? a = f.userName? a
  tableName? : ∀ a, q.HasIdentity a → (g.tableName? a).or (f.firstBinding q.openTables a) =
    (f.tableName? a).or (f.firstBinding q.openTables a)

namespace Query

theorem hasIdentity_of_mem_openTables {t : Alias × String} (ht : t ∈ q.openTables) :
    q.HasIdentity t.1 := fun _ hq =>
  q.openTables_known (Everywhere.mono (fun _ hp => hp.source) q hq) t ht

theorem seesOwnBindings_self (hf : f.IsGrounded) (hclosed : f.IsClosed) :
    q.SeesOwnBindings f f :=
  ⟨hf, hclosed.widens_self, fun _ _ => rfl, fun _ _ => rfl, fun _ _ => rfl⟩

namespace SeesOwnBindings

/-- **Some more of the first own bindings don't show.** An occurrence that got a table before keeps
it, and any other one gets the table that it is bound to first. -/
theorem after (hg : q.SeesOwnBindings f g) {done : List (Alias × String)}
    (hdone : done <+: q.openTables) (hh : Forest.BindsTo q.HasIdentity done g h) :
    q.SeesOwnBindings f h := by
  refine ⟨hh.grounded, hg.widens.trans hh.widens,
    fun a ha => (hh.root a ha).trans (hg.root a ha),
    fun a ha => (hh.userName? a ha).trans (hg.userName? a ha), fun a ha => ?_⟩
  obtain ⟨rest, hrest⟩ := hdone
  have hfirst : g.firstBinding done a = f.firstBinding done a := by
    refine Forest.firstBinding_congr fun t ht => ?_
    have hmem : t ∈ q.openTables := hrest ▸ List.mem_append_left rest ht
    rw [hg.root a ha, hg.root t.1 (hasIdentity_of_mem_openTables hmem)]
  have htable := hg.tableName? a ha
  rw [← hrest, Forest.firstBinding_append] at htable ⊢
  rw [hh.tableName? a ha, hfirst, ← htable, Option.or_assoc]
  cases f.firstBinding done a <;> rfl

/-- The forests agree on what the request knows and on all that is made later. -/
theorem agree (hg : q.SeesOwnBindings f g) (hf : f.IsGrounded) (hclosed : f.IsClosed)
    (hq : q.IsWithin f) :
    Forest.Agree (Alias.shift f.cells.length (g.cells.length - f.cells.length))
      (fun a => q.HasIdentity a ∨ ¬ f.Holds a) (q.openTables ++ []) f g := by
  rw [List.append_nil]
  refine .of_known hf hg.grounded hclosed hg.widens.closed
    (Nat.add_sub_cancel' hg.widens.length_le).symm (fun a ha => ha.holds hq)
    (q.openTables_held hq) (fun a b ha hb => ?_) hg.userName? hg.tableName?
  rw [hg.root a ha, hg.root b hb]

end SeesOwnBindings

end Query

/-! ## Calls -/

/-- No identity in the request `p` is of one occurrence with one in `q`. -/
def Query.IsApart (f : Forest) (p q : Query) : Prop :=
  ∀ a b, p.HasIdentity a → q.HasIdentity b → f.isSame a b = false

/-- The forest `g` is what is left of `f` by calls that compile `q`, and between them ones that
compile requests that share no occurrence with it. What these requests are built with may be made
between the calls. -/
inductive Query.Calls (q : Query) (f : Forest) : Forest → Prop
  | start : q.Calls f f
  | own {g : Forest} (c : Compiling) (db : Schema) :
      q.Calls f g → q.Calls f ((c.work db q).left g)
  | other {g : Forest} (c : Compiling) (db : Schema) (p : Query) :
      q.Calls f g → p.IsWithin g → p.IsApart g q → q.Calls f ((c.work db p).left g)
  | fresh {g : Forest} (userName? : Option String) :
      q.Calls f g → q.Calls f (g.fresh userName?).2

namespace Query

/-- **Calls show in a request as its own bindings.** -/
theorem Calls.seesOwnBindings (hf : f.IsGrounded) (hclosed : f.IsClosed) (hq : q.IsWithin f)
    (h : q.Calls f g) : q.SeesOwnBindings f g := by
  induction h with
  | start => exact seesOwnBindings_self hf hclosed
  | own c db _ ih =>
    have hwithin := hq.mono ih.widens
    obtain ⟨done, hdone, hbinds⟩ := (c.work_binds db ih.grounded ih.widens.closed hwithin
      (fun _ ha => ha) (q.openTables_held hwithin)).left
    exact ih.after hdone (hbinds.mono fun a ha => ha.holds hwithin)
  | other c db p _ hp hapart ih =>
    obtain ⟨done, hdone, hbinds⟩ := (c.work_binds db ih.grounded ih.widens.closed hp
      (fun _ ha => ha) (p.openTables_held hp)).left
    have hshown : Forest.BindsTo q.HasIdentity done _ _ :=
      hbinds.mono fun a ha => ha.holds (hq.mono ih.widens)
    refine ih.after List.nil_prefix (hshown.of_unseen fun t ht a ha => ?_)
    have hidentity := hasIdentity_of_mem_openTables (hdone.subset ht)
    exact beq_eq_false_iff_ne.1 (hapart t.1 a hidentity ha)
  | fresh userName? _ ih =>
    refine ih.after List.nil_prefix ?_
    refine Forest.bindsTo_nil (Forest.fresh_coarsens ih.grounded userName?).grounded
      (Forest.fresh_widens ih.widens.closed userName?) fun a ha => ?_
    exact Forest.entry_fresh_of_holds ih.grounded
      (ih.widens.closed.holds_root (ha.holds (hq.mono ih.widens)))

/-- Preparing a request gives the statement that selects it, unless its rows have no layout. -/
theorem outcome_prepare (db : Schema) (q : Query) (f : Forest) :
    ∃ layout? : Except CompileError (Option RowLayout), (q.prepare db).outcome f = do
      let statement ← (q.selectStatement db).outcome f
      let layout? ← layout?
      return (statement, layout?) := by
  rcases q.qualify.runs_or_fails f with ⟨q', hruns⟩ | ⟨e, hfails⟩
  · refine ⟨q'.rowLayout? (q.qualify.left f) db, ?_⟩
    rw [outcome_selectStatement hruns, prepare, hruns.outcome_bind, selectStatement,
      (q.qualify_qualified hruns).qualify_eq, pure_bind, bind_assoc]
    rw [AliasM.outcome_read_bind]
    cases q'.selectIn (q.qualify.left f) db with
    | error e => rfl
    | ok s =>
      rw [ok_bind, pure_bind, AliasM.outcome_read]
      cases q'.rowLayout? (q.qualify.left f) db <;> rfl
  · refine ⟨.error e, ?_⟩
    rw [prepare, selectStatement, AliasM.outcome_bind_of_error hfails.outcome_eq,
      AliasM.outcome_bind_of_error hfails.outcome_eq]
    rfl

/-- **Compiling is repeatable.** Behind any calls that compile the request, and between them ones
that compile requests that share no occurrence with it, the request is compiled to the result that
it has at first, or fails for the same reason. Preparing it gives the statement that selects it. -/
theorem compile_repeatable (hf : f.IsGrounded) (hclosed : f.IsClosed) (hq : q.IsWithin f)
    (h : q.Calls f g) :
    (∀ (c : Compiling) (db : Schema), (c.work db q).outcome g = (c.work db q).outcome f) ∧
      ∀ db, ∃ layout? : Except CompileError (Option RowLayout), (q.prepare db).outcome g = do
        let statement ← (q.selectStatement db).outcome f
        let layout? ← layout?
        return (statement, layout?) := by
  have hover : q.IsOver fun a => q.HasIdentity a ∨ ¬ f.Holds a :=
    q.isOver_hasIdentity.mono fun _ => .inl
  have hrepeat : ∀ (c : Compiling) (db : Schema),
      (c.work db q).outcome g = (c.work db q).outcome f := fun c db =>
    c.work_outcome_eq hover hq ((h.seesOwnBindings hf hclosed hq).agree hf hclosed hq)
  refine ⟨hrepeat, fun db => ?_⟩
  obtain ⟨layout?, hprepare⟩ := q.outcome_prepare db f
  exact ⟨layout?, (hrepeat .prepare db).trans hprepare⟩

/-- The author of the first of two identities. -/
def firstAuthor : Query := Query.ofSource (.table "author" (some ⟨0⟩))

/-- A book is selected as at first when it was counted before, and before that the author of another
identity was selected. -/
theorem compile_repeatable_secondBook : ∃ g, secondBook.Calls twoUnnamed g ∧ g ≠ twoUnnamed ∧
    (secondBook.selectStatement bookCatalog.schema).outcome g =
      (secondBook.selectStatement bookCatalog.schema).outcome twoUnnamed := by
  obtain ⟨hf, hclosed, hfirst, hsecond⟩ := twoUnnamed_made
  have happart : firstAuthor.IsApart twoUnnamed secondBook := by
    intro a b ha hb
    obtain rfl := ha (· = ⟨0⟩) (isOver_ofTable (by rfl) "author")
    obtain rfl := hb (· = ⟨1⟩) (isOver_ofTable (by rfl) "book")
    rfl
  have hcalls := ((Calls.start (q := secondBook)).other .prepare bookCatalog.schema firstAuthor
    (isOver_holds_iff.1 (isOver_ofTable hfirst "author")) happart).own .count bookCatalog.schema
  refine ⟨_, hcalls, by decide, ?_⟩
  exact (compile_repeatable hf hclosed (isOver_holds_iff.1 (isOver_ofTable hsecond "book"))
    hcalls).1 .select bookCatalog.schema

end Query

end SqlTree
