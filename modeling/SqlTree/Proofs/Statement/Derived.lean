import SqlTree.Proofs.Query.Derivation
import SqlTree.Proofs.Query.Unnamed
import SqlTree.Proofs.Statement.Completed
import SqlTree.Statement.Compile

/-!
# Statements of derived requests

Steps can be taken before a request is qualified or after, and it makes a difference to the
statement. A request that was qualified passes for qualified after any step, so what the step
brought along is never qualified (`Query.selectLate_lacksNames`):

* the columns that came with it are written without names. Where the level has joins names are then
  missing, and without its name a column may be ambiguous;
* a join that came with it under a new key is no occurrence, and the request does not compile.
-/

namespace SqlTree

/-- The first statement is the second one without names in front of columns; `P` is that one is
missing. -/
def Statement.Prefixed (P : Prop) (st st' : Statement) : Prop :=
  ∃ t t' : Fragment, t.Prefixed P t' ∧ st = t.statement ∧ st' = t'.statement

theorem Statement.Prefixed.eq_iff {P : Prop} {st st' : Statement} (h : st.Prefixed P st') :
    st = st' ↔ ¬ P := by
  obtain ⟨t, t', ht, rfl, rfl⟩ := h
  refine ⟨fun heq hP => ?_, fun hP => congrArg _ (ht.eq_of_not hP)⟩
  have hlt := ht.text_lt hP
  have htext : t.text = t'.text := congrArg Statement.text heq
  rw [htext] at hlt
  exact absurd hlt (Nat.lt_irrefl _)

theorem Statement.Prefixed.params_eq {P : Prop} {st st' : Statement} (h : st.Prefixed P st') :
    st.params = st'.params := by
  obtain ⟨t, t', ht, rfl, rfl⟩ := h
  exact ht.params_eq

namespace Query

/-! ## Completed requests -/

section

variable {c : Context} {db : Schema} {g : Forest} {q late : Query}

/-- A request with a source that is no occurrence has no statement. -/
theorem hasOccurrences_of_selectIn {t : Select} (h : q.selectIn g db = .ok t) :
    q.HasOccurrences := by
  obtain ⟨c, -, ht⟩ := bind_eq_ok.1 h
  obtain ⟨⟨own, sites, hw⟩, -⟩ := toSelect_isWritten ht
  intro n hn
  obtain ⟨a, -, ha⟩ := exists_of_forall₂ hw.occurrences hn
  rw [ha]
  rfl

/-- At a level whose occurrences differ, names are missing where the level has joins and mentions a
column without an occurrence. -/
theorem toSelect_lacksNames (hq : ∀ n ∈ q.nodes, n.IsAmong c.Knows)
    (hroots : (q.levelAliases.map c.forest.root).Nodup) :
    FailsAlike
      (fun t t' =>
        Fragment.Prefixed (q.joins ≠ [] ∧ q.Mentions c.schema none) t.fragment t'.fragment)
      (q.toSelect c) (q.completed.toSelect c) := by
  have hall := q.toSelect_completed c hq
  cases ht : q.toSelect c with
  | error e =>
    rw [ht] at hall
    generalize q.completed.toSelect c = completed at hall ⊢
    cases hall with
    | failures => exact .failures e
  | ok t =>
    obtain ⟨⟨own, sites, hw⟩, -⟩ := toSelect_isWritten ht
    rwa [ht, hw.showsNames_iff hroots] at hall

theorem runs_qualify_of_isQualified (g : Forest) (hq : q.isQualified = true) :
    AliasM.Runs q.qualify g q g := by
  obtain ⟨source, clauses, joins, isQualified⟩ := q
  obtain rfl : isQualified = true := hq
  exact AliasM.runs_pure.2 ⟨rfl, rfl⟩

theorem isAmong_of_hasOccurrences {K : Alias → Prop} (hq : q.HasOccurrences)
    (hK : ∀ a ∈ q.statementAliases, K a) : ∀ n ∈ q.nodes, n.IsAmong K := by
  intro n hn
  obtain ⟨own, hown⟩ := Option.isSome_iff_exists.1 (hq n hn)
  have hlevel : own ∈ q.levelAliases := by
    rw [levelAliases_eq]
    exact List.mem_flatMap.2 ⟨n, hn, by simp [hown]⟩
  exact ⟨own, hown, hK own (q.levelAliases_sublist.subset hlevel)⟩

/-- What late steps give has the statement of what the same steps give in time, without names in
front of the columns that the steps brought along. -/
theorem selectStatement_lacksNames {f : Forest} (db : Schema) (h : q.Trails f g late)
    (hlate : late.HasOccurrences) :
    FailsAlike (Statement.Prefixed (late.joins ≠ [] ∧ late.Mentions db none))
      ((late.selectStatement db).outcome g) ((q.selectStatement db).outcome f) := by
  have hup : AliasM.Runs q.qualify f late.completed g := h.catchesUp hlate
  have hkept := runs_qualify_of_isQualified g h.isQualified
  -- Whether names are found depends on the sources, which are those of the completed request.
  have hgrows := q.qualify_grows h.unnamed hup
  rw [statementAliases_completed] at hgrows
  obtain ⟨q', g', hruns, hlacks⟩ := q.exists_qualify f h.unnamed
  obtain ⟨rfl, rfl⟩ := hup.unique hruns
  rw [statementAliases_completed] at hlacks
  obtain ⟨c, hc⟩ := Context.exists_ofQuery db (fun a ha => hgrows.root_eq ha) hlacks
  obtain ⟨rfl, rfl, -⟩ := Context.ofQuery_eq_ok hc
  have hcompleted : Context.ofQuery c.forest c.schema late.completed = .ok c := by
    rw [← hc, Context.ofQuery, Context.ofQuery, statementAliases_completed]
  have hroots : (late.levelAliases.map c.forest.root).Nodup := by
    have hsub := late.levelAliases_sublist
    have hsame : late.levelAliases.map c.forest.root = late.levelAliases.map id :=
      List.map_congr_left fun a ha => hgrows.root_eq (hsub.subset ha)
    rw [hsame, List.map_id]
    exact hgrows.nodup.sublist hsub
  have hselect := toSelect_lacksNames
    (isAmong_of_hasOccurrences hlate fun a ha => Context.name_of_mem hc ha) hroots
  rw [outcome_selectStatement hup, outcome_selectStatement hkept, selectIn, selectIn, hc,
    hcompleted]
  exact hselect.map fun t t' ht => ⟨t.fragment, t'.fragment, ht, rfl, rfl⟩

end

/-! ## Late steps -/

/-- The statement of what steps give. -/
def selectDerived (db : Schema) (ds : List Derivation) (q : Query) : AliasM Statement := do
  let q ← q.derive ds
  q.selectStatement db

/-- The statement of what steps give when they are taken after qualifying. -/
def selectLate (db : Schema) (ds : List Derivation) (q : Query) : AliasM Statement := do
  let q ← q.qualify
  q.selectDerived db ds

/-- **Late steps give a request that passes for qualified and is not.** They fail for a join whose
key is ambiguous, like the same steps in time. Else, if all sources of the level are occurrences,
the statement is the one of the same steps in time, without names in front of the columns that the
steps brought along; so it is another one if there are joins and such columns. If a source is no
occurrence, there is no statement. All sources are occurrences where the steps bring no joins, and
one is none where they bring a join under a new key. -/
theorem selectLate_lacksNames (db : Schema) (q : Query) (ds : List Derivation) (f : Forest)
    (hq : q.Everywhere IsUnnamed) (hds : ∀ d ∈ ds, d.IsUnnamed) :
    (∃ key, (q.selectDerived db ds).outcome f = .error (.clashingJoins key) ∧
      (q.selectLate db ds).outcome f = .error (.clashingJoins key)) ∨
    ∃ q' late g, AliasM.Runs q.qualify f q' g ∧ AliasM.Runs (q'.derive ds) g late g ∧
      late.isQualified = true ∧
      (late.HasOccurrences → FailsAlike
        (fun st st' => st.Prefixed (late.joins ≠ [] ∧ late.Mentions db none) st' ∧
          st.params = st'.params ∧ (st = st' ↔ late.joins = [] ∨ ¬ late.Mentions db none))
        ((q.selectLate db ds).outcome f) ((q.selectDerived db ds).outcome f)) ∧
      (¬ late.HasOccurrences → ∃ e, (q.selectLate db ds).outcome f = .error e) ∧
      (ds.flatMap (·.joinKeys) = [] → late.HasOccurrences) ∧
      (late.HasOccurrences → ∀ key ∈ ds.flatMap (·.joinKeys), key ∈ q.joins.map (·.key)) := by
  obtain ⟨q', g, hqualify, -⟩ := q.exists_qualify f hq
  have hlate : (q.selectLate db ds).outcome f = (q'.selectDerived db ds).outcome g :=
    hqualify.outcome_bind
  rw [hlate]
  rcases derive_trails hds (trails_of_qualify hq hqualify) with
    ⟨key, hfails, hfails'⟩ | ⟨q₁, late, hearly, hruns, htrails, hextends⟩
  · exact .inl ⟨key, AliasM.outcome_bind_of_error hfails _, AliasM.outcome_bind_of_error hfails' _⟩
  · have houtcome : (q.selectDerived db ds).outcome f = (q₁.selectStatement db).outcome f :=
      hearly.outcome_bind
    have houtcome' : (q'.selectDerived db ds).outcome g = (late.selectStatement db).outcome g :=
      hruns.outcome_bind
    rw [houtcome, houtcome']
    have hqualified := q.qualify_qualified hqualify
    refine .inr ⟨q', late, g, hqualify, hruns, htrails.isQualified, fun hoccurs => ?_,
      fun hoccurs => ?_, fun hkeys => hextends.keeps hkeys (hqualified.hasOccurrences hq),
      fun hoccurs key hkey => ?_⟩
    · refine (selectStatement_lacksNames db htrails hoccurs).imp fun st st' hst =>
        ⟨hst, hst.params_eq, ?_⟩
      rw [hst.eq_iff, not_and_or, not_not]
    · rw [outcome_selectStatement (runs_qualify_of_isQualified g htrails.isQualified)]
      cases hselect : late.selectIn g db with
      | ok t => exact absurd (hasOccurrences_of_selectIn hselect) hoccurs
      | error e => exact ⟨e, rfl⟩
    · have hkeys : q.joins.map (·.key) = q'.joins.map (·.key) :=
        map_eq_of_forall₂ (hqualified.sameTables.joins.imp fun _ _ hj => hj.key_eq.symm)
      rw [hkeys]
      exact hextends.mem_keys hoccurs key hkey

/-- Books with their authors. -/
def booksWithAuthor : Query :=
  { Query.table "book" with
    joins := [(Association.belongsTo "book" "author").toJoin .required true] }

/-- The condition that the id is 1, without an occurrence. -/
def hasFirstId : Derivation := .filterBy (.const (.binary .eq (.col "id") (.value (.integer 1))))

/-- What is written in front of the condition on books with their authors. -/
def selectBooksWithAuthor : String :=
  "SELECT \x22book\x22.*, \x22author\x22.* FROM \x22book\x22 JOIN \x22author\x22 ON " ++
    "\x22author\x22.\x22id\x22 = \x22book\x22.\x22authorId\x22 WHERE "

/-- Books have an id and their authors have one: the condition was meant for that of the book. -/
theorem selectLate_lacksNames_books :
    booksWithAuthor.Everywhere IsUnnamed ∧ (∀ d ∈ [hasFirstId], d.IsUnnamed) ∧
      (booksWithAuthor.selectDerived bookCatalog.schema [hasFirstId]).outcome .empty =
        .ok ⟨selectBooksWithAuthor ++ "\x22book\x22.\x22id\x22 = ?", [.integer 1]⟩ ∧
      (booksWithAuthor.selectLate bookCatalog.schema [hasFirstId]).outcome .empty =
        .ok ⟨selectBooksWithAuthor ++ "\x22id\x22 = ?", [.integer 1]⟩ ∧
      ∃ late : Query, late.isQualified = true ∧ late.joins ≠ [] ∧
        late.Mentions bookCatalog.schema none := by
  have hbooks : booksWithAuthor.Everywhere IsUnnamed :=
    ⟨⟨rfl, rfl⟩, trivial, ⟨⟨rfl, rfl⟩, trivial, trivial⟩, trivial⟩
  have hsteps : ∀ d ∈ [hasFirstId], d.IsUnnamed := by
    intro d hd
    obtain rfl := List.mem_singleton.1 hd
    trivial
  have hderived : (booksWithAuthor.selectDerived bookCatalog.schema [hasFirstId]).outcome .empty =
      .ok ⟨selectBooksWithAuthor ++ "\x22book\x22.\x22id\x22 = ?", [.integer 1]⟩ := rfl
  have hlate : (booksWithAuthor.selectLate bookCatalog.schema [hasFirstId]).outcome .empty =
      .ok ⟨selectBooksWithAuthor ++ "\x22id\x22 = ?", [.integer 1]⟩ := rfl
  refine ⟨hbooks, hsteps, hderived, hlate, ?_⟩
  rcases selectLate_lacksNames bookCatalog.schema booksWithAuthor [hasFirstId] .empty hbooks hsteps
    with ⟨key, hfails, -⟩ | ⟨q', late, g, -, -, hqualified, hnames, -, hall, -⟩
  · rw [hderived] at hfails
    cases hfails
  · have hnames := hnames (hall rfl)
    rw [hderived, hlate] at hnames
    cases hnames with
    | results hst =>
      obtain ⟨hjoins, hmentions⟩ := not_or.1 (hst.2.2.not.1 (by decide))
      exact ⟨late, hqualified, hjoins, not_not.1 hmentions⟩

end Query

end SqlTree
