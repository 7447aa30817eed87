import SqlTree.Proofs.Statement.Clauses
import SqlTree.Proofs.Statement.Obstacles
import SqlTree.Proofs.Statement.OccurrenceNames
import SqlTree.Proofs.Statement.Scoping

/-!
# Deletions of what is selected

A request is deleted by a statement of its own, which has to be about the rows that the request
selects.

* `Query.HasObstacle` is what keeps a request from being a deletion, `Query.IsDeletable` that
  nothing does. `Query.toDelete_settles`: in a context that knows what the deletion mentions, its
  success settles that, and it fails only for what `Query.DeleteFailure` says.
* `Query.toDelete_matches`: a request that is a deletion and a selection is written with the same
  clauses in both, but for the order and the limit of a deletion without a limit.
* `Query.deletion_agrees_selection`: the same of the finished statements, their texts and values.
-/

namespace SqlTree

/-! ## What can be deleted -/

/-- What keeps a request from being a deletion. -/
inductive Query.HasObstacle (q : Query) : DeleteObstacle → Prop
  | grouped : q.clauses.group?.isSome → Query.HasObstacle q .grouped
  | having : q.clauses.having?.isSome → Query.HasObstacle q .having
  | joined : q.joins ≠ [] → Query.HasObstacle q .joined
  | notATable : q.source.tableName? = none → Query.HasObstacle q .notATable

/-- A request can be a deletion: it has no group, no condition on groups and no joins, its source is
a table, and it has no limit where deletions take none. -/
structure Query.IsDeletable (db : Schema) (q : Query) : Prop where
  plain : ∀ obstacle, ¬ q.HasObstacle obstacle
  limit : q.clauses.limit? = none ∨ db.allowsDeleteLimit = true

/-- Why a request is not a deletion: for an obstacle, or else for its limit. -/
inductive Query.DeleteFailure (db : Schema) (q : Query) : CompileError → Prop
  | obstacle {o : DeleteObstacle} : q.HasObstacle o → Query.DeleteFailure db q (.notDeletable o)
  | limit : (∀ o, ¬ q.HasObstacle o) → q.clauses.limit?.isSome → db.allowsDeleteLimit = false →
      Query.DeleteFailure db q .noDeleteLimit

namespace Query

variable {db : Schema} {q : Query} {c : Context}

theorem DeleteFailure.not_isDeletable {e : CompileError} (h : q.DeleteFailure db e) :
    ¬ q.IsDeletable db := by
  intro hq
  cases h with
  | obstacle ho => exact hq.plain _ ho
  | limit _ hlimit hallows =>
    rcases hq.limit with hnone | hallows'
    · rw [hnone] at hlimit
      cases hlimit
    · cases hallows.symm.trans hallows'

theorem hasObstacle_of_deleteObstacle? {o : DeleteObstacle} (h : q.deleteObstacle? = some o) :
    q.HasObstacle o := by
  rw [deleteObstacle?] at h
  split at h
  · rename_i hgroup
    obtain rfl := Option.some.inj h
    exact .grouped hgroup
  · split at h
    · rename_i hhaving
      obtain rfl := Option.some.inj h
      exact .having hhaving
    · split at h
      · rename_i hjoins
        obtain rfl := Option.some.inj h
        exact .joined (by simpa using hjoins)
      · cases h

theorem deleteObstacle?_eq_none :
    q.deleteObstacle? = none ↔
      q.clauses.group? = none ∧ q.clauses.having? = none ∧ q.joins = [] := by
  rw [deleteObstacle?]
  cases q.clauses.group? <;> cases q.clauses.having? <;> cases q.joins <;> simp

theorem not_hasObstacle {table : String} (h : q.deleteObstacle? = none)
    (htable : q.source.tableName? = some table) (o : DeleteObstacle) : ¬ q.HasObstacle o := by
  obtain ⟨hgroup, hhaving, hjoins⟩ := deleteObstacle?_eq_none.1 h
  rintro (h | h | h | h)
  · rw [hgroup] at h
    cases h
  · rw [hhaving] at h
    cases h
  · exact h hjoins
  · cases htable.symm.trans h

end Query

/-! ## Deletions in a context -/

/-- What a deletion asks for is there: its filter resolves, and all that it mentions has a name. -/
structure Query.DeletesKnown (c : Context) (q : Query) : Prop where
  source : ∀ a ∈ q.source.alias?, c.Knows a
  filter : ∀ l ∈ q.clauses.filter?, ∃ e, l.resolve c.schema = .ok e
  mentions : ∀ a, q.DeleteMentions c.schema (some a) → c.Knows a

/-- The tail of a deletion is there unless the engine takes no limit. -/
theorem Scope.deleteTail_settles {s : Scope} {clauses : Clauses} {E : CompileError → Prop}
    (horder : ∀ limit, clauses.limit? = some limit → ∃ ts, s.order clauses.order = .ok ts)
    (hE : clauses.limit?.isSome → s.context.schema.allowsDeleteLimit = false → E .noDeleteLimit) :
    Settles (clauses.limit? = none ∨ s.context.schema.allowsDeleteLimit = true) E
      (s.deleteTail clauses) := by
  rw [deleteTail]
  cases hlimit : clauses.limit? with
  | none => exact (Settles.result _).imp fun _ => .inl rfl
  | some limit =>
    dsimp only
    split
    · rename_i hallows
      obtain ⟨ts, hts⟩ := horder limit hlimit
      refine Settles.imp (Q := True) (.step hts (.result _)) fun _ => .inr hallows
    · rename_i hallows
      exact .error (hE (by rw [hlimit]; rfl) (Bool.eq_false_iff.2 hallows))

/-- **Whether a request is a deletion**: what else could be missing is there, so that it is one only
if nothing keeps it from being one, and fails only for what does. -/
theorem Query.toDelete_settles {c : Context} {q : Query} (h : q.DeletesKnown c) :
    Settles (q.IsDeletable c.schema) (q.DeleteFailure c.schema) (q.toDelete c) := by
  rw [toDelete]
  cases hobstacle : q.deleteObstacle? with
  | some o => exact .error (.obstacle (hasObstacle_of_deleteObstacle? hobstacle))
  | none =>
    dsimp only
    cases hsource : q.source with
    | nested query alias? => exact .error (.obstacle (.notATable (by rw [hsource]; rfl)))
    | table table alias? =>
      dsimp only
      have htable : q.source.tableName? = some table := by rw [hsource]; rfl
      have hplain := not_hasObstacle hobstacle htable
      let s := Scope.ofAliases c q.levelAliases
      obtain ⟨name?, hname⟩ : ∃ name?, s.tableName? table alias? = .ok name? := by
        cases alias? with
        | none => exact ⟨none, rfl⟩
        | some a => exact Scope.exists_tableName? table (h.source a (by rw [hsource]; rfl))
      obtain ⟨filter?, hfilter⟩ : ∃ filter?, q.clauses.filter?.mapM s.filter = .ok filter? := by
        refine exists_optionMapM_ok fun l hl => ?_
        obtain ⟨e, he⟩ := h.filter l hl
        exact Scope.exists_filter he fun a ha => h.mentions a (.filter hl he ha)
      have htail : Settles _ (q.DeleteFailure c.schema) (s.deleteTail q.clauses) :=
        Scope.deleteTail_settles
          (fun limit hlimit => Scope.exists_order fun e he a ha =>
            h.mentions a (.order hlimit he ha))
          fun hlimit hallows => .limit hplain hlimit hallows
      exact (Settles.step hname (.step hfilter (htail.map _))).imp fun hlimit => ⟨hplain, hlimit⟩

/-! ## Clauses of deletions and selections -/

/-- A deletion of rows of a table is about what a selection from the table is about, but for the
order where there is no limit. -/
structure Delete.Matches (d : Delete) (t : Select) : Prop where
  source : t.source = .table d.table d.name?
  joins : t.joins = []
  filter : t.filter? = d.filter?
  group : t.group = []
  having : t.having? = none
  order : d.order = if d.limit?.isSome then t.order else []
  limit : t.limit? = d.limit?

/-- What a deletion is written from. -/
theorem Query.toDelete_eq_ok {c : Context} {q : Query} {d : Delete} (h : q.toDelete c = .ok d) :
    q.deleteObstacle? = none ∧ ∃ alias?, q.source = .table d.table alias? ∧
      (q.scope c).tableName? d.table alias? = .ok d.name? ∧
      q.clauses.filter?.mapM (q.scope c).filter = .ok d.filter? ∧
      (q.scope c).deleteTail q.clauses = .ok (d.order, d.limit?) := by
  rw [toDelete] at h
  cases hobstacle : q.deleteObstacle? with
  | some o =>
    rw [hobstacle] at h
    cases h
  | none =>
    rw [hobstacle] at h
    cases hsource : q.source with
    | nested query alias? =>
      rw [hsource] at h
      cases h
    | table table alias? =>
      rw [hsource] at h
      simp only [bind_eq_ok, pure_eq_ok] at h
      obtain ⟨name?, hname, filter?, hfilter, tail, htail, rfl⟩ := h
      exact ⟨rfl, alias?, rfl, hname, hfilter, htail⟩

/-- What the tail of a deletion is written from. -/
theorem Scope.deleteTail_eq_ok {s : Scope} {clauses : Clauses} {order : List (SortTerm String)}
    {limit? : Option Limit} (h : s.deleteTail clauses = .ok (order, limit?)) :
    limit? = clauses.limit? ∧
      if clauses.limit?.isSome then s.order clauses.order = .ok order else order = [] := by
  rw [deleteTail] at h
  cases hlimit : clauses.limit? with
  | none =>
    rw [hlimit, pure_eq_ok] at h
    obtain ⟨rfl, rfl⟩ := Prod.mk.inj h
    exact ⟨rfl, rfl⟩
  | some limit =>
    rw [hlimit] at h
    dsimp only at h
    split at h
    · simp only [bind_eq_ok, pure_eq_ok] at h
      obtain ⟨order', horder, h⟩ := h
      obtain ⟨rfl, rfl⟩ := Prod.mk.inj h
      exact ⟨rfl, horder⟩
    · cases h

/-- **A request that is a deletion and a selection is written with the same clauses in both.** -/
theorem Query.toDelete_matches {c : Context} {q : Query} {d : Delete} {t : Select}
    (hd : q.toDelete c = .ok d) (ht : q.toSelect c = .ok t) :
    d.Matches t ∧ d.limit? = q.clauses.limit? := by
  obtain ⟨hobstacle, alias?, hsource, hname, hfilter, htail⟩ := toDelete_eq_ok hd
  obtain ⟨hgroup, hhaving, hjoins⟩ := deleteObstacle?_eq_none.1 hobstacle
  obtain ⟨⟨own, sites, hw⟩, -⟩ := toSelect_isWritten ht
  have hitem : t.source = .table d.table d.name? := by
    have hwritten := hw.source
    rw [hsource, Source.toFromItem, hname, ok_bind, pure_eq_ok] at hwritten
    exact hwritten.symm
  have hjoined : t.joins = [] := by
    obtain rfl := (JoinSites.eq_nil_iff hw.placed).2 hjoins
    exact List.forall₂_nil_left_iff.1 hw.joins
  have hsame : t.filter? = d.filter? :=
    Except.ok.inj ((optionMapM_eq_ok.2 hw.filter).symm.trans hfilter)
  have hplain : t.group = [] := by
    have hwritten := hw.group
    rw [hgroup, Scope.group, pure_eq_ok] at hwritten
    exact hwritten.symm
  have hbare : t.having? = none := by
    have hwritten := isSome_eq_of_optionRel hw.having
    rw [hhaving] at hwritten
    exact Option.isSome_eq_false_iff.1 hwritten |> Option.isNone_iff_eq_none.1
  -- A selection is ordered by its joins as well, of which there are none.
  have hfull : q.fullOrder = q.clauses.order := by
    obtain ⟨source, clauses, joins, isQualified⟩ := q
    obtain rfl : joins = [] := hjoins
    rfl
  have hordered := hw.order
  rw [hfull] at hordered
  obtain ⟨hlimit, horder⟩ := Scope.deleteTail_eq_ok htail
  refine ⟨⟨hitem, hjoined, hsame, hplain, hbare, ?_, hw.limit.trans hlimit.symm⟩, hlimit⟩
  rw [hlimit]
  by_cases hsome : q.clauses.limit?.isSome
  · rw [if_pos hsome] at horder ⊢
    exact Except.ok.inj (horder.symm.trans hordered)
  · rw [if_neg hsome] at horder ⊢
    exact horder

theorem Delete.Matches.rowClauses {d : Delete} {t : Select} (h : d.Matches t) :
    d.rowClauses = if d.limit?.isSome then t.rowClauses else t.rowClauses.unlimited := by
  have hsource : t.source.fragment = .namedIf (.ident d.table) d.name? := by
    rw [h.source]
    rfl
  rw [Delete.rowClauses, Select.rowClauses, hsource, h.filter, h.limit, h.order]
  cases hlimit : d.limit? with
  | none => rfl
  | some limit => rfl

/-! ## Deletions of qualified requests -/

namespace Query.QualifiedUpTo

variable {same : Alias → Alias → Prop} {db : Schema} {q q' : Query} {g : Forest}

/-- Qualifying a request does not change what keeps it from being a deletion. -/
theorem hasObstacle_iff (h : q.QualifiedUpTo same q') (o : DeleteObstacle) :
    q'.HasObstacle o ↔ q.HasObstacle o := by
  cases h with
  | kept => rfl
  | @made owner source source' clauses joins joins' hsource hjoins =>
    have hgroup : (clauses.qualified owner).group?.isSome = clauses.group?.isSome :=
      Option.isSome_map
    have hhaving : (clauses.qualified owner).having?.isSome = clauses.having?.isSome :=
      Option.isSome_map
    constructor
    · rintro (h | h | h | h)
      · exact .grouped (hgroup ▸ h)
      · exact .having (hhaving ▸ h)
      · exact .joined (mt hjoins.eq_nil_iff.1 h)
      · exact .notATable (hsource.tableName?_eq ▸ h)
    · rintro (h | h | h | h)
      · exact .grouped (hgroup.trans h)
      · exact .having (hhaving.trans h)
      · exact .joined (mt hjoins.eq_nil_iff.2 h)
      · exact .notATable (hsource.tableName?_eq.trans h)

theorem limit?_eq (h : q.QualifiedUpTo same q') : q'.clauses.limit? = q.clauses.limit? := by
  cases h <;> rfl

theorem isDeletable_iff (h : q.QualifiedUpTo same q') : q'.IsDeletable db ↔ q.IsDeletable db := by
  constructor
  · intro hq
    exact ⟨fun o ho => hq.plain o ((h.hasObstacle_iff o).2 ho), h.limit?_eq ▸ hq.limit⟩
  · intro hq
    exact ⟨fun o ho => hq.plain o ((h.hasObstacle_iff o).1 ho), h.limit?_eq ▸ hq.limit⟩

theorem deleteFailure {e : CompileError} (h : q.QualifiedUpTo same q')
    (he : q'.DeleteFailure db e) : q.DeleteFailure db e := by
  cases he with
  | obstacle ho => exact .obstacle ((h.hasObstacle_iff _).1 ho)
  | limit hplain hlimit hallows =>
    exact .limit (fun o ho => hplain o ((h.hasObstacle_iff o).2 ho)) (h.limit?_eq ▸ hlimit) hallows

/-- The filter of a qualified request resolves where the filter does. -/
theorem filter_resolves (h : q.QualifiedUpTo same q')
    (hfilter : ∀ l ∈ q.clauses.filter?, ∃ e, l.resolve db = .ok e) :
    ∀ l ∈ q'.clauses.filter?, ∃ e, l.resolve db = .ok e := by
  cases h with
  | kept => exact hfilter
  | @made owner source source' clauses joins joins' hsource hjoins =>
    intro l hl
    obtain ⟨l, hl', rfl⟩ := Option.map_eq_some_iff.1 hl
    obtain ⟨e, he⟩ := hfilter l hl'
    refine ⟨e.qualified owner, ?_⟩
    rw [Lookup.resolve_map, he]
    rfl

/-- What a qualified deletion mentions is what the deletion does, or its source. -/
theorem deleteMentions (h : q.QualifiedUpTo (fun a b => g.root a = g.root b) q') {a : Alias}
    (ha : q'.DeleteMentions db (some a)) : q.DeleteMentions db (some a) ∨
      ∃ own, q'.source.alias? = some own ∧ g.root own = g.root a := by
  cases h with
  | kept => exact .inl ha
  | @made owner source source' clauses joins joins' hsource hjoins =>
    -- A column of the qualified request is one that had an occurrence or one that was given it.
    have hcases : ∀ o : Option Alias, some a = some (o.getD owner) → o = some a ∨
        ∃ own, source'.alias? = some own ∧ g.root own = g.root a := by
      rintro (_ | b) hb
      · refine .inr ⟨_, hsource.alias?_eq, ?_⟩
        rw [Option.some.inj hb]
        exact hsource.same_getD.symm
      · exact .inl hb.symm
    cases ha with
    | filter hl he ho =>
      obtain ⟨l, hl', rfl⟩ := Option.map_eq_some_iff.1 hl
      obtain ⟨e, he', rfl⟩ := map_eq_ok.1 he
      obtain ⟨o, ho', hgiven⟩ := Expr.mem_owners_of_qualified ho
      exact (hcases o hgiven).imp_left fun (hsome : o = some a) => .filter hl' he' (hsome ▸ ho')
    | order hlimit he ho =>
      rw [Clauses.qualified, SortOrder.exprs_qualified] at he
      obtain ⟨e, he', rfl⟩ := List.mem_map.1 he
      obtain ⟨o, ho', hgiven⟩ := Expr.mem_owners_of_qualified ho
      exact (hcases o hgiven).imp_left fun (hsome : o = some a) => .order hlimit he' (hsome ▸ ho')

end Query.QualifiedUpTo

/-- A deletion is there to be written when its filter resolves and all that it mentions is its
source. -/
theorem Query.deletesKnown_of_source {db : Schema} {q : Query} {g : Forest} {c : Context}
    (hc : Context.ofQuery g db q = .ok c)
    (hfilter : ∀ l ∈ q.clauses.filter?, ∃ e, l.resolve db = .ok e)
    (hmentions : ∀ a, q.DeleteMentions db (some a) →
      ∃ own, q.source.alias? = some own ∧ g.root own = g.root a) : q.DeletesKnown c := by
  obtain ⟨-, hdb, -⟩ := Context.ofQuery_eq_ok hc
  have hsource : ∀ a ∈ q.source.alias?, a ∈ q.statementAliases := by
    intro a ha
    refine q.levelAliases_sublist.subset ?_
    obtain ⟨source, clauses, joins, isQualified⟩ := q
    exact List.mem_append_left _ (Option.mem_toList.2 ha)
  refine ⟨fun a ha => Context.name_of_mem hc (hsource a ha), hdb.symm ▸ hfilter, fun a ha => ?_⟩
  obtain ⟨own, hown, hroot⟩ := hmentions a (hdb ▸ ha)
  exact (Context.exists_name_iff hc).2 ⟨own, hsource own hown, hroot⟩

/-- **A request is deleted as it is selected.**

Where its filter resolves and nothing is mentioned but its own source, a request is a deletion just
if nothing keeps it from being one, and fails for what does. A request that is a deletion and a
selection has the same source and filter in both statements, and with a limit the same order and
limit; without a limit the deletion has neither. The values of the deletion are those bound in these
clauses. -/
theorem Query.deletion_agrees_selection (db : Schema) (q : Query) {f g : Forest} {q' : Query}
    (hf : f.IsGrounded) (h : AliasM.Runs q.qualify f q' g)
    (hnames : ¬ g.SharesUserName q'.statementAliases)
    (hfilter : ∀ l ∈ q.clauses.filter?, ∃ e, l.resolve db = .ok e)
    (hmentions : ∀ a, q.DeleteMentions db (some a) →
      ∃ own, q'.source.alias? = some own ∧ g.root own = g.root a) :
    ((∃ st, (q.deleteStatement db).outcome f = .ok st) ↔ q.IsDeletable db) ∧
    (∀ e, (q.deleteStatement db).outcome f = .error e → q.DeleteFailure db e) ∧
    ∀ st st', (q.deleteStatement db).outcome f = .ok st →
      (q.selectStatement db).outcome f = .ok st' → ∃ c d t,
        Context.ofQuery g db q' = .ok c ∧ q'.toDelete c = .ok d ∧ q'.toSelect c = .ok t ∧
        st = ⟨"DELETE FROM " ++ d.rowClauses.text, d.rowClauses.params⟩ ∧
        st' = ⟨t.head.text ++ " FROM " ++ t.rowClauses.text,
          t.head.params ++ t.rowClauses.params⟩ ∧
        d.rowClauses =
          if q.clauses.limit?.isSome then t.rowClauses else t.rowClauses.unlimited := by
  have hq := q.qualify_sameRoot hf h
  have hg := (q.qualify_coarsens hf h).grounded
  obtain ⟨names, hassigned, -⟩ := (Forest.assignNames_areNamed hg q'.statementAliases).2 hnames
  obtain ⟨c, hc⟩ : ∃ c, Context.ofQuery g db q' = .ok c := by
    rw [Context.ofQuery, hassigned]
    exact ⟨_, rfl⟩
  have hdb := (Context.ofQuery_eq_ok hc).2.1
  have hknown : q'.DeletesKnown c :=
    deletesKnown_of_source hc (hq.filter_resolves hfilter) fun a ha =>
      (hq.deleteMentions ha).elim (hmentions a) id
  have hsettles := toDelete_settles hknown
  rw [hdb] at hsettles
  have hdelete : (q.deleteStatement db).outcome f = (·.fragment.statement) <$> q'.toDelete c := by
    rw [outcome_deleteStatement h, deleteIn, hc, ok_bind]
  have hselect : (q.selectStatement db).outcome f = (·.fragment.statement) <$> q'.toSelect c := by
    rw [outcome_selectStatement h, selectIn, hc, ok_bind]
  rw [hdelete, hselect]
  refine ⟨⟨?_, fun hdeletable => ?_⟩, fun e he => ?_, fun st st' hst hst' => ?_⟩
  · rintro ⟨st, hst⟩
    obtain ⟨d, hd, -⟩ := map_eq_ok.1 hst
    exact hq.isDeletable_iff.1 (hsettles.holds hd)
  · cases hd : q'.toDelete c with
    | ok d => exact ⟨_, rfl⟩
    | error e =>
      exact absurd (hq.isDeletable_iff.2 hdeletable) (hsettles.fails hd).not_isDeletable
  · cases hd : q'.toDelete c with
    | ok d =>
      rw [hd] at he
      cases he
    | error e' =>
      rw [hd] at he
      obtain rfl := Except.error.inj he
      exact hq.deleteFailure (hsettles.fails hd)
  · obtain ⟨d, hd, rfl⟩ := map_eq_ok.1 hst
    obtain ⟨t, ht, rfl⟩ := map_eq_ok.1 hst'
    obtain ⟨hmatches, hlimit⟩ := toDelete_matches hd ht
    have hclauses := hmatches.rowClauses
    rw [hlimit, hq.limit?_eq] at hclauses
    exact ⟨c, d, t, hc, hd, ht, d.statement_eq, Select.statement_of_flat hmatches.source
      hmatches.joins hmatches.group hmatches.having, hclauses⟩

/-- Two books of an author, all but the first by title, for an occurrence `b`. -/
def laterBooks : Query where
  source := .table "book" (some ⟨0⟩)
  clauses :=
    { selection := [.star none]
      filter? := some (.const (.binary .eq (.colOf ⟨0⟩ "authorId") (.value (.integer 7))))
      order := .ofTerms [⟨.col "title", .unspecified⟩]
      limit? := some ⟨2, some 1⟩ }
  joins := []
  isQualified := false

theorem Query.laterBooks_mentions {db : Schema} {a : Alias}
    (h : laterBooks.DeleteMentions db (some a)) : a = ⟨0⟩ := by
  cases h with
  | filter hl he ho =>
    obtain rfl := Option.some.inj hl
    obtain rfl := Except.ok.inj he
    simpa [Expr.owners, Expr.colOf] using ho
  | order hlimit he ho =>
    obtain rfl := List.mem_singleton.1 he
    simp [Expr.owners, Expr.col] at ho

/-- The catalog of books with an engine that takes limits in deletions. -/
def limitingCatalog : Catalog := { bookCatalog with allowsDeleteLimit := true }

theorem Query.deletion_agrees_selection_books :
    (laterBooks.deleteStatement limitingCatalog.schema).outcome forestOfB = .ok
      ⟨"DELETE FROM \x22book\x22 AS \x22b\x22 WHERE \x22authorId\x22 = ? " ++
        "ORDER BY \x22title\x22 LIMIT 2 OFFSET 1", [.integer 7]⟩ ∧
    laterBooks.IsDeletable limitingCatalog.schema ∧
    ∃ (q' : Query) (c : Context) (d : Delete) (t : Select),
      q'.toDelete c = .ok d ∧ q'.toSelect c = .ok t ∧ d.rowClauses = t.rowClauses := by
  obtain ⟨q', g, hruns, hsource, haliases⟩ : ∃ q' g,
      AliasM.Runs laterBooks.qualify forestOfB q' g ∧ q'.source.alias? = some ⟨0⟩ ∧
        q'.statementAliases = [⟨0⟩] := ⟨_, _, rfl, rfl, rfl⟩
  have hf : forestOfB.IsGrounded := (Forest.fresh_coarsens Forest.isGrounded_empty _).grounded
  have hnames : ¬ g.SharesUserName q'.statementAliases := by
    rintro ⟨a, ha, b, hb, hne, -⟩
    rw [haliases, List.mem_singleton] at ha hb
    subst ha hb
    simp [Forest.isSame] at hne
  have hfilter : ∀ l ∈ laterBooks.clauses.filter?,
      ∃ e, l.resolve limitingCatalog.schema = .ok e := by
    intro l hl
    obtain rfl := Option.some.inj hl
    exact ⟨_, rfl⟩
  obtain ⟨hdeletable, -, hagree⟩ :=
    deletion_agrees_selection limitingCatalog.schema laterBooks hf hruns hnames hfilter
      fun a ha => ⟨⟨0⟩, hsource, by rw [laterBooks_mentions ha]⟩
  obtain ⟨c, d, t, -, hd, ht, -, -, hclauses⟩ := hagree _ _ rfl rfl
  exact ⟨rfl, hdeletable.1 ⟨_, rfl⟩, q', c, d, t, hd, ht, hclauses⟩

end SqlTree
