import SqlTree.Proofs.Statement.Mentions
import SqlTree.Proofs.Statement.NewNames

/-!
# References of a statement

Columns, stars and links refer to occurrences of tables. A statement gives names to those that are
its sources, and nothing else can be referred to.

* `Query.HasSource` are the occurrences of the sources of a statement; `Context.exists_name_iff`:
  just these have names.
* `Context.UpToNames` compares work in a context with work in one where more occurrences have a
  name. `Query.upToNames_toSelect` and `Query.upToNames_toDelete`: a request is written the same in
  both, unless a name is missing in the first.
* `Query.references_areSources`: all that a statement refers to are its sources, at every level, and
  a request that refers to something else has no statement.
-/

namespace SqlTree

variable {α β : Type}

/-! ## Work for want of a name -/

/-- The context in which more occurrences have a name. -/
def Context.knowing (c : Context) (more : List (Alias × String)) : Context :=
  { c with names := c.names ++ more }

/-- The level at which more occurrences have a name. -/
def Scope.knowing (s : Scope) (more : List (Alias × String)) : Scope :=
  { s with context := s.context.knowing more }

theorem Scope.ofAliases_knowing (c : Context) (more : List (Alias × String))
    (aliases : List Alias) :
    ofAliases (c.knowing more) aliases = (ofAliases c aliases).knowing more := rfl

/-- The work `x` comes to what `y` comes to, or fails for want of a name in `c`. -/
def Context.UpToNames (c : Context) (x y : Except CompileError α) : Prop :=
  x = y ∨ ∃ a e, c.name a = .error e ∧ x = .error e

namespace Context

variable {c : Context} {x y : Except CompileError α}

theorem UpToNames.same (c : Context) (x : Except CompileError α) : c.UpToNames x x := .inl rfl

theorem UpToNames.bind {k k' : α → Except CompileError β} (hx : c.UpToNames x y)
    (hk : ∀ a, c.UpToNames (k a) (k' a)) : c.UpToNames (x >>= k) (y >>= k') := by
  rcases hx with rfl | ⟨a, e, he, rfl⟩
  · cases x with
    | ok a => exact hk a
    | error e => exact .inl rfl
  · exact .inr ⟨a, e, he, rfl⟩

/-- What comes behind a failure does not matter. -/
theorem UpToNames.failed (c : Context) (e : CompileError) (k k' : α → Except CompileError β) :
    c.UpToNames (throw e >>= k) (throw e >>= k') := .inl rfl

theorem UpToNames.map (hx : c.UpToNames x y) (k : α → β) :
    c.UpToNames (x >>= fun a => pure (k a)) (y >>= fun a => pure (k a)) :=
  hx.bind fun a => .same c (pure (k a))

theorem UpToNames.ite {x' y' : Except CompileError α} (p : Prop) [Decidable p]
    (hx : c.UpToNames x y) (hx' : c.UpToNames x' y') :
    c.UpToNames (if p then x else x') (if p then y else y') := by
  split
  · exact hx
  · exact hx'

theorem UpToNames.mapM {k k' : α → Except CompileError β} (hk : ∀ a, c.UpToNames (k a) (k' a)) :
    ∀ as : List α, c.UpToNames (as.mapM k) (as.mapM k')
  | [] => .same c (pure [])
  | a :: as => by
    rw [List.mapM_cons, List.mapM_cons]
    exact (hk a).bind fun b => (UpToNames.mapM hk as).map _

theorem UpToNames.optionMapM {k k' : α → Except CompileError β}
    (hk : ∀ a, c.UpToNames (k a) (k' a)) (a? : Option α) :
    c.UpToNames (a?.mapM k) (a?.mapM k') := by
  cases a? with
  | none => exact .same c (pure none)
  | some a =>
    rw [Option.mapM_some, Option.mapM_some]
    exact (hk a).map _

/-- Names that are there are there in the larger context. -/
theorem name_knowing {a : Alias} {n : String} (more : List (Alias × String))
    (h : c.name a = .ok n) : (c.knowing more).name a = .ok n := by
  rw [name_eq_ok] at h ⊢
  rw [knowing, List.lookup_append, h]
  rfl

theorem upToNames_name (c : Context) (more : List (Alias × String)) (a : Alias) :
    c.UpToNames (c.name a) ((c.knowing more).name a) := by
  cases h : c.name a with
  | ok n => exact .inl (name_knowing more h).symm
  | error e => exact .inr ⟨a, e, h, rfl⟩

end Context

theorem Expr.withOwners_mono {ρ σ ε : Type} {r r' : Option ρ → Except ε (Option σ)}
    (h : ∀ o x, r o = .ok x → r' o = .ok x) {e : Expr ρ} {e' : Expr σ}
    (he : e.withOwners r = .ok e') : e.withOwners r' = .ok e' := by
  obtain ⟨e'', he''⟩ := (e.withOwners_hinges r').exists_ok fun o ho => by
    obtain ⟨x, hx⟩ := (e.withOwners_hinges r).written he o ho
    exact ⟨x, h o x hx⟩
  have hg : ∀ o x, r' o = .ok x → x = (r' o).toOption.join := by
    intro o x hx
    rw [hx]
    rfl
  rw [he'', e.eq_mapOwners hg he'', e.eq_mapOwners (fun o x hx => hg o x (h o x hx)) he]

namespace Scope

variable (s : Scope) (more : List (Alias × String))

theorem upToNames_owner? (o : Option Alias) :
    s.context.UpToNames (s.owner? o) ((s.knowing more).owner? o) := by
  cases o with
  | none => exact .same _ _
  | some a => exact (s.context.upToNames_name more a).map _

theorem upToNames_expr (e : Expr Alias) :
    s.context.UpToNames (s.expr e) ((s.knowing more).expr e) := by
  cases h : s.expr e with
  | ok e' =>
    refine .inl (Expr.withOwners_mono (fun o x hx => ?_) h).symm
    rcases s.upToNames_owner? more o with heq | ⟨a, e, -, he⟩
    · exact heq.symm.trans hx
    · cases hx.symm.trans he
  | error err =>
    obtain ⟨o, -, ho⟩ := (e.withOwners_hinges s.owner?).missing h
    cases o with
    | none => cases ho
    | some a =>
      refine .inr ⟨a, err, ?_, rfl⟩
      cases hname : s.context.name a with
      | ok n => simp [owner?, hname] at ho
      | error e' => simpa [owner?, hname] using ho

theorem upToNames_item (i : SelectItem Alias) :
    s.context.UpToNames (i.withOwners s.owner?) (i.withOwners (s.knowing more).owner?) := by
  cases i with
  | star owner? => exact (s.upToNames_owner? more owner?).map _
  | expr e name? => exact (s.upToNames_expr more e).map _

theorem upToNames_filter (l : Lookup (Expr Alias)) :
    s.context.UpToNames (s.filter l) ((s.knowing more).filter l) :=
  (Context.UpToNames.same _ (l.resolve s.context.schema)).bind (s.upToNames_expr more)

theorem upToNames_group (group? : Option (Lookup (List (Expr Alias)))) :
    s.context.UpToNames (s.group group?) ((s.knowing more).group group?) := by
  cases group? with
  | none => exact .same _ _
  | some l =>
    exact (Context.UpToNames.same _ (l.resolve s.context.schema)).bind
      (Context.UpToNames.mapM (s.upToNames_expr more))

theorem upToNames_order (o : SortOrder) :
    s.context.UpToNames (s.order o) ((s.knowing more).order o) :=
  Context.UpToNames.mapM (fun t : SortTerm Alias =>
    (s.upToNames_expr more t.expr).map (⟨·, t.direction⟩ : Expr String → SortTerm String)) o.terms

theorem upToNames_on (link : JoinLink) (left right : Alias) (l? : Option (Lookup (Expr Alias))) :
    s.context.UpToNames (s.on link left right l?) ((s.knowing more).on link left right l?) := by
  refine (Context.UpToNames.same _ (link.condition s.context.schema left right)).bind fun e => ?_
  cases l? with
  | none => exact s.upToNames_expr more e
  | some l =>
    exact (Context.UpToNames.same _ (l.resolve s.context.schema)).bind fun e' =>
      s.upToNames_expr more (e.and e')

theorem upToNames_tableName? (name : String) (a? : Option Alias) :
    s.context.UpToNames (s.tableName? name a?) ((s.knowing more).tableName? name a?) := by
  cases a? with
  | none => exact .same _ _
  | some a => exact (s.context.upToNames_name more a).map _

theorem upToNames_nestedName? (a? : Option Alias) :
    s.context.UpToNames (s.nestedName? a?) ((s.knowing more).nestedName? a?) := by
  cases a? with
  | none => exact .same _ _
  | some a => exact .ite _ ((s.context.upToNames_name more a).map _) (.same _ _)

theorem upToNames_deleteTail (clauses : Clauses) :
    s.context.UpToNames (s.deleteTail clauses) ((s.knowing more).deleteTail clauses) := by
  rw [deleteTail, deleteTail]
  cases clauses.limit? with
  | none => exact .same _ _
  | some limit => exact .ite _ ((s.upToNames_order more clauses.order).map _) (.same _ _)

end Scope

mutual

/-- **A request is written the same where more occurrences have a name, unless a name is
missing.** -/
theorem Query.upToNames_toSelect (c : Context) (more : List (Alias × String)) : ∀ q : Query,
    c.UpToNames (q.toSelect c) (q.toSelect (c.knowing more))
  | ⟨source, clauses, joins, isQualified⟩ => by
    rw [Query.toSelect, Query.toSelect, Scope.ofAliases_knowing]
    have hs :
        (Scope.ofAliases c (source.alias?.toList ++ joinsLevelAliases joins)).context = c := rfl
    generalize Scope.ofAliases c (source.alias?.toList ++ joinsLevelAliases joins) = s at hs ⊢
    subst hs
    refine .bind (.mapM (s.upToNames_item more) _) fun items => ?_
    refine .ite _ (.failed _ _ _ _) ?_
    refine .bind (Source.upToNames_toFromItem s more source) fun item => ?_
    refine .bind (.same _ source.occurrence) fun left => ?_
    refine .bind (upToNames_joinsToItems s more left true joins) fun joined => ?_
    refine .bind (.optionMapM (s.upToNames_filter more) clauses.filter?) fun filter? => ?_
    refine .bind (s.upToNames_group more clauses.group?) fun group => ?_
    refine .bind (.optionMapM (s.upToNames_expr more) clauses.having?) fun having? => ?_
    exact (s.upToNames_order more (pushOrders clauses.order joins)).map _

theorem Source.upToNames_toFromItem (s : Scope) (more : List (Alias × String)) : ∀ source : Source,
    s.context.UpToNames (source.toFromItem s.context s)
      (source.toFromItem (s.context.knowing more) (s.knowing more))
  | .table name alias? => by
    rw [Source.toFromItem, Source.toFromItem]
    exact (s.upToNames_tableName? more name alias?).map _
  | .nested query alias? => by
    rw [Source.toFromItem, Source.toFromItem]
    exact .bind (Query.upToNames_toSelect s.context more query) fun t =>
      (s.upToNames_nestedName? more alias?).map _

theorem Join.upToNames_toItems (s : Scope) (more : List (Alias × String)) (left : Alias)
    (mayRequire : Bool) : ∀ j : Join, s.context.UpToNames (j.toItems s.context s left mayRequire)
      (j.toItems (s.context.knowing more) (s.knowing more) left mayRequire)
  | ⟨key, kind, link, mergedLinks, ⟨source, clauses, joins, isQualified⟩⟩ => by
    rw [Join.toItems, Join.toItems]
    cases clauses.unjoinable? with
    | some clause => exact .failed _ _ _ _
    | none =>
      refine .bind (.same _ (link.checkMerged s.context.schema key mergedLinks)) fun _ => ?_
      refine .ite _ (.failed _ _ _ _) ?_
      refine .bind (Source.upToNames_toFromItem s more source) fun item => ?_
      refine .bind (.same _ source.occurrence) fun right => ?_
      refine .bind (s.upToNames_on more link left right clauses.filter?) fun on => ?_
      exact (upToNames_joinsToItems s more right (kind == .required) joins).map _

theorem upToNames_joinsToItems (s : Scope) (more : List (Alias × String)) (left : Alias)
    (mayRequire : Bool) : ∀ joins : List Join,
      s.context.UpToNames (joinsToItems s.context s left mayRequire joins)
        (joinsToItems (s.context.knowing more) (s.knowing more) left mayRequire joins)
  | [] => by
    rw [joinsToItems, joinsToItems]
    exact .same _ _
  | j :: rest => by
    rw [joinsToItems, joinsToItems]
    exact .bind (Join.upToNames_toItems s more left mayRequire j) fun items =>
      (upToNames_joinsToItems s more left mayRequire rest).map _

end

theorem Query.upToNames_toDelete (c : Context) (more : List (Alias × String)) (q : Query) :
    c.UpToNames (q.toDelete c) (q.toDelete (c.knowing more)) := by
  rw [toDelete, toDelete]
  cases q.deleteObstacle? with
  | some obstacle => exact .failed c _ _ _
  | none =>
    cases q.source with
    | nested query alias? => exact .same c _
    | table table alias? =>
      let s := Scope.ofAliases c q.levelAliases
      refine .bind (s.upToNames_tableName? more table alias?) fun name? => ?_
      refine .bind (.optionMapM (s.upToNames_filter more) q.clauses.filter?) fun filter? => ?_
      exact (s.upToNames_deleteTail more q.clauses).map _

/-! ## Names and sources -/

/-- An occurrence is that of a source of the statement, as the forest knows it. -/
def Query.HasSource (f : Forest) (q : Query) (a : Alias) : Prop :=
  ∃ b ∈ q.statementAliases, f.root b = f.root a

section

variable {f g : Forest} {db : Schema} {q q' : Query} {c : Context} {a : Alias}

theorem Context.name_eq_error {e : CompileError} (h : c.name a = .error e) :
    e = .unknownOccurrence ((c.forest.identityName? a).getD "anonymous") := by
  rw [name] at h
  split at h
  · cases h
  · exact (Except.error.inj h).symm

/-- **What has a name in a statement is one of its sources, and every source has a name.** -/
theorem Context.exists_name_iff (hc : ofQuery f db q = .ok c) :
    (∃ n, c.name a = .ok n) ↔ q.HasSource f a := by
  obtain ⟨hf, -, -⟩ := ofQuery_eq_ok hc
  constructor
  · rintro ⟨n, hn⟩
    obtain ⟨b, hb, hroot⟩ := exists_source hc (mem_of_lookup_eq_some (name_eq_ok.1 hn))
    exact ⟨b, hb, by rw [hroot, hf]⟩
  · rintro ⟨b, hb, hroot⟩
    obtain ⟨n, hn⟩ := name_of_mem hc hb
    refine ⟨n, ?_⟩
    rw [name_eq_ok, hf] at hn ⊢
    rw [← hroot, hn]

/-- What is written is written of occurrences with names. -/
theorem Scope.Writes.exists_name {s : Scope} {P : Option Alias → Prop} {xs : List (Option String)}
    (h : s.Writes P xs) (ha : P (some a)) : ∃ n, s.context.name a = .ok n := by
  obtain ⟨x, -, hx⟩ := h.complete _ ha
  simp only [owner?, bind_eq_ok] at hx
  obtain ⟨n, hn, -⟩ := hx
  exact ⟨n, hn⟩

/-- The failure `e` of work on the request `q` in the context `c` names an occurrence that is no
source of the statement, or has nothing to do with names: the work fails so in every context in
which more occurrences have one. -/
def Context.Blames (c : Context) (q : Query) (work : Context → Except CompileError α)
    (e : CompileError) : Prop :=
  (∃ a, ¬ q.HasSource c.forest a ∧
      e = .unknownOccurrence ((c.forest.identityName? a).getD "anonymous")) ∨
    ∀ more, work (c.knowing more) = .error e

theorem Context.blames (hc : ofQuery f db q = .ok c) {work : Context → Except CompileError α}
    (hwork : ∀ more, c.UpToNames (work c) (work (c.knowing more))) {e : CompileError}
    (he : work c = .error e) : c.Blames q work e := by
  by_cases hsame : ∀ more, work c = work (c.knowing more)
  · exact .inr fun more => (hsame more).symm.trans he
  · obtain ⟨more, hne⟩ := not_forall.1 hsame
    obtain ⟨a, e', hname, he'⟩ := (hwork more).resolve_left hne
    obtain rfl := Except.error.inj (he.symm.trans he')
    refine .inl ⟨a, fun hsource => ?_, name_eq_error hname⟩
    rw [(ofQuery_eq_ok hc).1] at hsource
    obtain ⟨n, hn⟩ := (exists_name_iff hc).2 hsource
    cases hn.symm.trans hname

/-! ## References of selections and deletions -/

/-- At every level of a selection what is written in front of columns is written of what the level
mentions, and all of this are sources. -/
theorem Level.mentions_source (hc : Context.ofQuery f db q = .ok c) {t u : Select} {p : Query}
    (ht : q.toSelect c = .ok t) (h : Level q t p u) :
    (p.scope c).Writes (p.Mentions db) u.owners ∧
      ∀ a, p.Mentions db (some a) → q.HasSource f a := by
  obtain ⟨⟨own, sites, hw⟩, -⟩ := Query.toSelect_isWritten (h.toSelect ht)
  have hwrites := hw.writes
  rw [(Context.ofQuery_eq_ok hc).2.1] at hwrites
  exact ⟨hwrites, fun a ha => (Context.exists_name_iff hc).1 (hwrites.exists_name ha)⟩

/-- What a deletion mentions is the occurrence of its table. -/
theorem Query.toDelete_mentions_source (hc : Context.ofQuery f db q = .ok c) {d : Delete}
    (hd : q.toDelete c = .ok d) : (q.scope c).Writes (q.DeleteMentions db) d.owners ∧
      ∀ a, q.DeleteMentions db (some a) → ∃ own, q.source.alias? = some own ∧
        f.root own = f.root a := by
  obtain ⟨hwrites, hjoins, table, htable⟩ := Query.toDelete_writes hd
  rw [(Context.ofQuery_eq_ok hc).2.1] at hwrites
  refine ⟨hwrites, fun a ha => ?_⟩
  obtain ⟨own, hown, hroot⟩ := (Context.exists_name_iff hc).1 (hwrites.exists_name ha)
  refine ⟨own, ?_, hroot⟩
  obtain ⟨source, clauses, joins, isQualified⟩ := q
  obtain rfl : joins = [] := hjoins
  cases source with
  | nested inner alias? => cases htable
  | table name alias? =>
    simpa [statementAliases, Source.statementAliases, joinsStatementAliases, Source.alias?] using
      hown

/-- A selection that mentions what is no source fails, for want of a name or for another reason. -/
theorem Query.selectIn_unknown (h : q.Becomes q') {p : Query} (hp : q.HasLevel p)
    (ha : p.Mentions db (some a)) (hsource : ¬ q'.HasSource g a) :
    ∃ e, q'.selectIn g db = .error e ∧
      ∀ c, Context.ofQuery g db q' = .ok c → c.Blames q' q'.toSelect e := by
  obtain ⟨p', hp', hlevel⟩ := Query.BecomesUpTo.keepsShape.level h hp
  cases hselect : q'.selectIn g db with
  | ok t =>
    obtain ⟨c, hc, ht⟩ := bind_eq_ok.1 hselect
    obtain ⟨u, hu⟩ := hp'.exists_level ht
    exact absurd ((hu.mentions_source hc ht).2 a (ha.becomes hlevel)) hsource
  | error e =>
    refine ⟨e, rfl, fun c hc => Context.blames hc (q'.upToNames_toSelect c) ?_⟩
    rwa [selectIn, hc] at hselect

/-- A deletion that mentions what is not its table fails, for want of a name or for another
reason. -/
theorem Query.deleteIn_unknown (h : q.Becomes q') (ha : q.DeleteMentions db (some a))
    (hsource : ∀ own, q'.source.alias? = some own → g.root own ≠ g.root a) :
    ∃ e, q'.deleteIn g db = .error e ∧
      ∀ c, Context.ofQuery g db q' = .ok c → c.Blames q' q'.toDelete e := by
  cases hdelete : q'.deleteIn g db with
  | ok d =>
    obtain ⟨c, hc, hd⟩ := bind_eq_ok.1 hdelete
    obtain ⟨own, hown, hroot⟩ := (q'.toDelete_mentions_source hc hd).2 a (ha.becomes h)
    exact absurd hroot (hsource own hown)
  | error e =>
    refine ⟨e, rfl, fun c hc => Context.blames hc (fun more => q'.upToNames_toDelete c more) ?_⟩
    rwa [deleteIn, hc] at hdelete

end

/-! ## Statements -/

/-- **A statement refers to its sources.** At every level of a selection what is written in front of
stars and columns is written of the occurrences that the level mentions, and each of them is a
source of the statement; a deletion mentions its table only. A request that mentions another
occurrence has no statement: it fails for such an occurrence, or as it fails whatever has a name. -/
theorem Query.references_areSources (db : Schema) (q : Query) {f g : Forest} {q' : Query}
    (h : AliasM.Runs q.qualify f q' g) :
    (∀ st, (q.selectStatement db).outcome f = .ok st → ∃ c t,
      Context.ofQuery g db q' = .ok c ∧ q'.toSelect c = .ok t ∧ st = t.fragment.statement ∧
        ∀ p u, Level q' t p u → (p.scope c).Writes (p.Mentions db) u.owners ∧
          ∀ a, p.Mentions db (some a) → q'.HasSource g a) ∧
    (∀ st, (q.deleteStatement db).outcome f = .ok st → ∃ c d,
      Context.ofQuery g db q' = .ok c ∧ q'.toDelete c = .ok d ∧ st = d.fragment.statement ∧
        (q'.scope c).Writes (q'.DeleteMentions db) d.owners ∧
          ∀ a, q'.DeleteMentions db (some a) →
            ∃ own, q'.source.alias? = some own ∧ g.root own = g.root a) ∧
    (∀ p a, q.HasLevel p → p.Mentions db (some a) → ¬ q'.HasSource g a →
      ∃ e, (q.selectStatement db).outcome f = .error e ∧
        ∀ c, Context.ofQuery g db q' = .ok c → c.Blames q' q'.toSelect e) ∧
    (∀ a, q.DeleteMentions db (some a) →
      (∀ own, q'.source.alias? = some own → g.root own ≠ g.root a) →
        ∃ e, (q.deleteStatement db).outcome f = .error e ∧
          ∀ c, Context.ofQuery g db q' = .ok c → c.Blames q' q'.toDelete e) := by
  have hq : q.Becomes q' := .qualified (q.qualify_qualified h)
  rw [Query.outcome_selectStatement h, Query.outcome_deleteStatement h]
  refine ⟨fun st hst => ?_, fun st hst => ?_, fun p a hp ha hsource => ?_, fun a ha hsource => ?_⟩
  · obtain ⟨t, hselect, rfl⟩ := map_eq_ok.1 hst
    obtain ⟨c, hc, ht⟩ := bind_eq_ok.1 hselect
    exact ⟨c, t, hc, ht, rfl, fun p u hlevel => hlevel.mentions_source hc ht⟩
  · obtain ⟨d, hdelete, rfl⟩ := map_eq_ok.1 hst
    obtain ⟨c, hc, hd⟩ := bind_eq_ok.1 hdelete
    exact ⟨c, d, hc, hd, rfl, q'.toDelete_mentions_source hc hd⟩
  · obtain ⟨e, he, hblames⟩ := Query.selectIn_unknown hq hp ha hsource
    exact ⟨e, by rw [he]; rfl, hblames⟩
  · obtain ⟨e, he, hblames⟩ := Query.deleteIn_unknown hq ha hsource
    exact ⟨e, by rw [he]; rfl, hblames⟩

/-- The book with a given number among all books, where the number is asked of the books that are
nested in the source. -/
def bookByNestedNumber : Query :=
  let books := { Query.table "book" with source := .table "book" (some ⟨0⟩) }
  (Query.nested books).filter (.binary .eq (.colOf ⟨0⟩ "id") (.value (.integer 1)))

/-- The forest of an occurrence that is called `b`. -/
def forestOfB : Forest := (Forest.empty.fresh (some "b")).2

theorem Query.bookByNestedNumber_mentions :
    bookByNestedNumber.Mentions bookCatalog.schema (some ⟨0⟩) :=
  .filter (by rw [Query.nodes_eq]; exact List.mem_cons_self) rfl rfl (.head _)

theorem Query.references_areSources_nested : ∃ q' g,
    AliasM.Runs bookByNestedNumber.qualify forestOfB q' g ∧
      ∃ c t, Context.ofQuery g bookCatalog.schema q' = .ok c ∧ q'.toSelect c = .ok t ∧
        ∀ p u, Level q' t p u → ∀ a, p.Mentions bookCatalog.schema (some a) → q'.HasSource g a := by
  have hruns : ∃ q' g, AliasM.Runs bookByNestedNumber.qualify forestOfB q' g := ⟨_, _, rfl⟩
  obtain ⟨q', g, hruns⟩ := hruns
  obtain ⟨hselect, -⟩ := Query.references_areSources bookCatalog.schema bookByNestedNumber hruns
  obtain ⟨c, t, hc, ht, -, hlevels⟩ := hselect _ rfl
  exact ⟨q', g, hruns, c, t, hc, ht, fun p u hlevel => (hlevels p u hlevel).2⟩

/-- An occurrence of a nested level stands bare at the level around it, of which it is no source. -/
theorem Query.bookByNestedNumber_isBare : ∃ q' g,
    AliasM.Runs bookByNestedNumber.qualify forestOfB q' g ∧
      (bookByNestedNumber.selectStatement bookCatalog.schema).outcome forestOfB = .ok
        ⟨"SELECT * FROM (SELECT * FROM \x22book\x22 AS \x22b\x22) WHERE \x22id\x22 = ?",
          [.integer 1]⟩ ∧
      q'.Mentions bookCatalog.schema (some ⟨0⟩) ∧
      ∀ b ∈ q'.levelAliases, g.root b ≠ g.root ⟨0⟩ := by
  have hruns : ∃ q' g, AliasM.Runs bookByNestedNumber.qualify forestOfB q' g ∧
      ∀ b ∈ q'.levelAliases, g.root b ≠ g.root ⟨0⟩ := ⟨_, _, rfl, by decide⟩
  obtain ⟨q', g, hruns, hroots⟩ := hruns
  refine ⟨q', g, hruns, rfl, ?_, hroots⟩
  exact bookByNestedNumber_mentions.becomes (.qualified (Query.qualify_qualified _ hruns))

end SqlTree
