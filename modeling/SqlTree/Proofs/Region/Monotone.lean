import SqlTree.Proofs.Region.Narrowed
import SqlTree.Proofs.Statement.MergeAssoc
import SqlTree.Proofs.Statement.Repeatable

/-!
# Regions of derived requests

One more condition makes the region of a request smaller, and one more join makes it larger.

* `Query.withJoin_extends`: with one more join a request reads its tables again, and maybe more.
* `Forest.Compiles` says of a forest that compiling leads to it. The identities made before stay the
  occurrences that they were.
* `Query.region_mono`: a condition only takes rows away, and a join only adds rows to those in the
  forest that appending it leaves. They are those before it, unless appending makes an occurrence
  that the filter is about that of the source.
* `Query.region_narrowed_by_join` is where this happens: a join behind qualifying has an occurrence
  that is bound to no table, and merging makes it that of the source, which is another table.
-/

namespace SqlTree

variable {f g h : Forest} {db : Schema} {q q' : Query} {r r' : Region}

/-! ## Tables of merged requests -/

section

variable {mine more joins : List Join} {j k m : Join}

theorem joinsTableNames_eq_flatMap (joins : List Join) :
    joinsTableNames joins = joins.flatMap (·.query.tableNames) := by
  induction joins with
  | nil => rfl
  | cons j rest ih =>
    obtain ⟨key, kind, link, mergedLinks, query⟩ := j
    rw [joinsTableNames, joinTableNames, ih, List.flatMap_cons]

theorem Query.tableNames_eq_append (q : Query) :
    q.tableNames = q.source.tableNames ++ joinsTableNames q.joins := by
  cases q
  rw [tableNames]

/-- A join with more tables in the place of one adds tables. -/
theorem Join.tableNames_replace (hfind : Join.find? m.key mine = some k)
    (hm : k.query.tableNames.Sublist m.query.tableNames) :
    (joinsTableNames mine).Sublist (joinsTableNames (m.replace mine)) := by
  simp only [joinsTableNames_eq_flatMap]
  induction mine with
  | nil => cases hfind
  | cons l rest ih =>
    rw [Join.find?, List.find?_cons] at hfind
    rw [replace]
    by_cases hkey : l.key = m.key
    · rw [beq_iff_eq.2 hkey] at hfind
      obtain rfl := Option.some.inj hfind
      rw [if_pos hkey, List.flatMap_cons, List.flatMap_cons]
      exact hm.append (List.Sublist.refl _)
    · rw [beq_eq_false_iff_ne.2 hkey] at hfind
      rw [if_neg hkey, List.flatMap_cons, List.flatMap_cons]
      exact (List.Sublist.refl _).append (ih hfind)

/-- Merging joins keeps the tables, where merging two of them does. -/
theorem meetJoins_tableNames (hmeet : ∀ j ∈ more, ∀ k m : Join, (k.meet j).result? = some m →
      k.query.tableNames.Sublist m.query.tableNames)
    (h : (meetJoins mine more).result? = some joins) :
    (joinsTableNames mine).Sublist (joinsTableNames joins) := by
  induction more generalizing mine with
  | nil =>
    obtain rfl := Option.some.inj h
    exact List.Sublist.refl _
  | cons j rest ih =>
    obtain ⟨hmeetj, hmeet⟩ := List.forall_mem_cons.1 hmeet
    rw [meetJoins] at h
    cases hfind : Join.find? j.key mine with
    | none =>
      rw [hfind] at h
      refine List.Sublist.trans ?_ (ih hmeet h)
      rw [joinsTableNames_eq_flatMap, joinsTableNames_eq_flatMap, List.flatMap_append]
      exact List.sublist_append_left _ _
    | some k =>
      simp only [hfind, Meeting.result?_bind] at h
      obtain ⟨m, hm, h⟩ := Option.bind_eq_some_iff.1 h
      have hkey : m.key = j.key := (Join.key_of_meet hm).trans (Join.key_of_find? hfind)
      exact (Join.tableNames_replace (hkey ▸ hfind) (hmeetj k m hm)).trans (ih hmeet h)

/-- **A merged request reads the tables of the first one**, and maybe more. -/
theorem Query.meet_tableNames : ∀ (b : Query) {a q : Query}, (a.meet b).result? = some q →
    a.tableNames.Sublist q.tableNames := by
  refine Query.joinsInduction fun b ih a q hq => ?_
  obtain ⟨source, joins, hsource, hjoins, rfl⟩ := Query.meet_eq_some hq
  obtain ⟨name, name', alias?, alias?', htable, -, -, rfl⟩ := Source.meet_eq_some_iff.1 hsource
  have hbelow := meetJoins_tableNames (fun j hj k m hm => ih j hj (Join.meet_eq_some hm).2) hjoins
  obtain ⟨_, _, mine, _⟩ := a
  obtain rfl := htable
  exact hbelow.cons_cons name

end

/-- **A request with one more join** has its source and its clauses, and reads its tables again. -/
theorem Query.withJoin_extends {key : String} {join : Join} (hf : f.IsGrounded)
    (hclosed : f.IsClosed) (hq : q.IsWithin f) (hjoin : join.query.IsWithin f)
    (hruns : AliasM.Runs (q.withJoin key join) f q' g) :
    q'.source = q.source ∧ q'.clauses = q.clauses ∧ q.tableNames.Sublist q'.tableNames ∧
      q'.IsWithin g ∧ Forest.Widens f g := by
  obtain ⟨hreshapes, -⟩ :=
    Call.reshapes (c := .derive (.withJoin key join)) hf hclosed hq hjoin hruns
  have hw : Forest.Widens f g := ⟨hreshapes.closed, hreshapes.length_eq.ge⟩
  obtain ⟨joins, hmerge, rfl⟩ := runs_withJoin.1 hruns
  obtain ⟨hjoins, -⟩ := (mergeJoins_follows _ q.joins).runs_iff.1 hmerge
  refine ⟨rfl, rfl, ?_, ?_, hw⟩
  · rw [tableNames_eq_append, tableNames_eq_append]
    refine (List.Sublist.refl _).append (meetJoins_tableNames (fun j _ k m hm => ?_) hjoins)
    exact j.query.meet_tableNames (Join.meet_eq_some hm).2
  · refine Query.IsWithin.mono hw ⟨⟨hq.self.source, hq.self.selection, hq.self.filter,
      hq.self.group, hq.self.having, hq.self.order⟩, hq.source, joinsEverywhere_iff.2 ?_⟩
    refine meetJoins_forall (P := fun j => j.query.IsWithin f) (joinsEverywhere_iff.1 hq.joins)
      (by simpa using hjoin) (fun j hj k m hk hm => ?_) hjoins
    obtain rfl := List.mem_singleton.1 hj
    exact Query.meet_isWithin _ hk hjoin (Join.meet_eq_some hm).2

/-! ## Regions that compiling leads to -/

/-- The forest `g` is what is left of `f` by calls that compile requests, and by making identities
that these are built with. -/
inductive Forest.Compiles (f : Forest) : Forest → Prop
  | start : f.Compiles f
  | call {g : Forest} (c : Compiling) (db : Schema) (p : Query) :
      f.Compiles g → p.IsWithin g → f.Compiles ((c.work db p).left g)
  | fresh {g : Forest} (userName? : Option String) :
      f.Compiles g → f.Compiles (g.fresh userName?).2

/-- **Compiling leaves the identities made before** the occurrences that they were. -/
theorem Forest.Compiles.keepsRoots (hg : f.Compiles g) (hf : f.IsGrounded) (hclosed : f.IsClosed) :
    g.IsGrounded ∧ Widens f g ∧ ∀ a, f.Holds a → g.root a = f.root a := by
  induction hg with
  | start => exact ⟨hf, hclosed.widens_self, fun _ _ => rfl⟩
  | call c db p _ hp ih =>
    obtain ⟨hg, hw, hroot⟩ := ih
    obtain ⟨_, -, hbinds⟩ := (c.work_binds db hg hw.closed hp (fun _ ha => ha)
      (p.openTables_held hp)).left
    exact ⟨hbinds.grounded, hw.trans hbinds.widens,
      fun a ha => (hbinds.root a (hw.holds ha)).trans (hroot a ha)⟩
  | fresh userName? _ ih =>
    obtain ⟨hg, hw, hroot⟩ := ih
    have hfresh := (sameProxies_fresh _ userName?).root_eq hg
    exact ⟨(fresh_coarsens hg userName?).grounded, hw.trans (fresh_widens hw.closed userName?),
      fun a ha => (hfresh.2 a).trans (hroot a ha)⟩

namespace Query

/-- In a forest that compiling leads to from `f`, the request has the region. -/
def HasRegion (q : Query) (db : Schema) (f : Forest) (r : Region) : Prop :=
  ∃ g h, f.Compiles g ∧ AliasM.Runs (q.region db) g r h

/-- The region is then the one of the request as it is in a forest in which all identities are the
occurrences that they were. -/
theorem HasRegion.regionIn (hr : q.HasRegion db f r) (hf : f.IsGrounded) (hclosed : f.IsClosed)
    (hq : q.IsWithin f) :
    ∃ g, q.regionIn g db = .ok r ∧ ∀ a, f.Holds a → g.root a = f.root a := by
  obtain ⟨g, h, hg, hruns⟩ := hr
  obtain ⟨hgrounded, hw, hroot⟩ := hg.keepsRoots hf hclosed
  exact ⟨g, regionIn_of_runs hgrounded hw.closed (hq.mono hw) hruns, hroot⟩

/-- No identity in the filter that is of the occurrence of the source in `g` was of another one in
`f`. -/
def KeepsFilter (q : Query) (db : Schema) (f g : Forest) : Prop :=
  ∀ a, q.HasFilterIdentity db a → ∀ own ∈ q.source.alias?,
    g.isSame a own = true → f.isSame a own = true

theorem HasFilterIdentity.holds {a : Alias} (ha : q.HasFilterIdentity db a) (hq : q.IsWithin f) :
    f.Holds a := by
  obtain ⟨filter, hfilter, e, he, c, hc, hown⟩ := ha
  exact hq.self.filter filter hfilter db e he c hc a hown

/-- A filter tells the same in forests in which the identities are the same occurrences. -/
theorem rowIds?_eq_of_root (hq : q.IsWithin f) (hroot : ∀ a, f.Holds a → g.root a = h.root a)
    (name : String) : q.rowIds? g db name = q.rowIds? h db name := by
  refine rowIds?_keeps fun a ha own hown => ?_
  rw [Forest.isSame, hroot a (ha.holds hq), hroot own (hq.self.source own hown)]
  rfl

/-- A filter that is kept tells the same, where identities of one occurrence have stayed such. -/
theorem KeepsFilter.rowIds?_eq (hkeeps : q.KeepsFilter db f g) (hq : q.IsWithin f)
    (hsame : ∀ a b, f.Holds a → f.Holds b → f.isSame a b = true → g.isSame a b = true)
    (name : String) : q.rowIds? g db name = q.rowIds? f db name :=
  rowIds?_keeps fun a ha own hown => Bool.eq_iff_iff.2
    ⟨hkeeps a ha own hown, hsame a own (ha.holds hq) (hq.self.source own hown)⟩

/-- A request with one more condition has the smaller region, in forests in which the identities of
the request are the same occurrences. -/
theorem regionIn_filterBy {p : Lookup (Expr Alias)} {e : Expr Alias} (hp : p.resolve db = .ok e)
    (hq : q.IsWithin f) (hroot : ∀ a, f.Holds a → g.root a = h.root a)
    (hr : q.regionIn g db = .ok r) (hr' : (q.filterBy p).regionIn h db = .ok r') :
    r'.inter r = r' := by
  have htables : (q.filterBy p).tableNames = q.tableNames := by
    rw [tableNames_eq_append, tableNames_eq_append]
    rfl
  refine regionIn_le hr' hr rfl (htables ▸ List.Sublist.refl _) fun name ids hids => ?_
  rw [rowIds?_eq_of_root hq hroot] at hids
  exact rowIds?_filterBy hp hids

/-- A request that reads more tables has the larger region, where its filter tells the same. -/
theorem regionIn_joined (hsource : q'.source = q.source) (hclauses : q'.clauses = q.clauses)
    (htables : q.tableNames.Sublist q'.tableNames)
    (hids : ∀ name, q.rowIds? g db name = q.rowIds? f db name) (hr : q.regionIn f db = .ok r)
    (hr' : q'.regionIn g db = .ok r') : r.inter r' = r := by
  refine regionIn_le hr hr' (by rw [hsource]) htables fun name ids hids' => ?_
  have hkept : q'.rowIds? g db name = q.rowIds? g db name := by
    rw [rowIds?, rowIds?, hsource, hclauses]
  rw [hkept, hids] at hids'
  exact ⟨ids, hids', fun _ hn => hn⟩

/-- **The region of a derived request.** One more condition, if it can be resolved, takes rows away
at most. One more join adds rows at most to the region that the request has when the join was
appended. That is the region that it had before, unless appending the join made an identity in its
filter one with its source. -/
theorem region_mono (hf : f.IsGrounded) (hclosed : f.IsClosed) (hq : q.IsWithin f)
    (hg : f.Compiles g) :
    (∀ (p : Lookup (Expr Alias)) (e : Expr Alias) (r r' : Region), p.resolve db = .ok e →
      (q.filterBy p).IsWithin g → q.HasRegion db f r → (q.filterBy p).HasRegion db g r' →
        r'.inter r = r') ∧
    ∀ (key : String) (join : Join) (q' : Query) (h : Forest) (r r' : Region),
      join.query.IsWithin g → AliasM.Runs (q.withJoin key join) g q' h →
        (q.HasRegion db h r ∨ q.HasRegion db f r ∧ q.KeepsFilter db f h) →
          q'.HasRegion db h r' → r.inter r' = r := by
  obtain ⟨hgrounded, hw, hroot⟩ := hg.keepsRoots hf hclosed
  constructor
  · intro p e r r' hp hqp hr hr'
    obtain ⟨f₁, hr, hroot₁⟩ := hr.regionIn hf hclosed hq
    obtain ⟨g₁, hr', hroot₁'⟩ := hr'.regionIn hgrounded hw.closed hqp
    refine regionIn_filterBy hp hq (fun a ha => ?_) hr hr'
    rw [hroot₁ a ha, hroot₁' a (hw.holds ha), hroot a ha]
  · intro key join q' h r r' hjoin hruns hr hr'
    obtain ⟨hsource, hclauses, htables, hq', hwh⟩ :=
      withJoin_extends hgrounded hw.closed (hq.mono hw) hjoin hruns
    have hqh := hq.mono (hw.trans hwh)
    have hcoarsens := withJoin_coarsens hgrounded hruns
    obtain ⟨h₁, hr', hroot₁'⟩ := hr'.regionIn hcoarsens.grounded hwh.closed hq'
    rcases hr with hr | ⟨hr, hkeeps⟩
    · obtain ⟨f₁, hr, hroot₁⟩ := hr.regionIn hcoarsens.grounded hwh.closed hqh
      refine regionIn_joined hsource hclauses htables (rowIds?_eq_of_root hqh fun a ha => ?_) hr hr'
      rw [hroot₁' a ha, hroot₁ a ha]
    · obtain ⟨f₁, hr, hroot₁⟩ := hr.regionIn hf hclosed hq
      have hforward : ∀ a b, f.Holds a → f.Holds b → f.isSame a b = true →
          h.isSame a b = true := by
        intro a b ha hb hsame
        rw [Forest.isSame, beq_iff_eq] at hsame ⊢
        exact hcoarsens.same a b (by rw [hroot a ha, hroot b hb, hsame])
      refine regionIn_joined hsource hclauses htables (fun name => ?_) hr hr'
      -- From the forest with the larger region back to that before the join, and to the first one.
      rw [rowIds?_eq_of_root hqh hroot₁', hkeeps.rowIds?_eq hq hforward]
      exact rowIds?_eq_of_root hq (fun a ha => (hroot₁ a ha).symm) name

theorem table_isWithin (name : String) (f : Forest) : (table name).IsWithin f := by
  refine isOver_holds_iff.1 ⟨isNodeOver_select nofun fun i hi => ?_, trivial, trivial⟩
  obtain rfl := List.mem_singleton.1 hi
  exact nofun

theorem IsWithin.filterBy {p : Lookup (Expr Alias)} (hq : q.IsWithin f)
    (hp : ∀ db e, p.resolve db = .ok e → e.IsWithin f) : (q.filterBy p).IsWithin f := by
  have hnode : ∀ l ∈ (q.filterBy p).clauses.filter?, ∀ db e, l.resolve db = .ok e →
      e.IsWithin f := by
    rw [filterBy_eq]
    refine mergeWith_forall hq.self.filter (fun l hl => ?_) fun _ _ => Lookup.isWithin_and
    obtain rfl := Option.some.inj hl
    exact hp
  exact ⟨{ hq.self with filter := hnode }, hq.source, hq.joins⟩

theorem IsWithin.filter {e : Expr Alias} (hq : q.IsWithin f) (he : e.IsWithin f) :
    (q.filter e).IsWithin f := by
  refine hq.filterBy fun db e' he' => ?_
  obtain rfl := Except.ok.inj he'
  exact he

/-- Of two books one is left by one more condition, and with the books of their authors joined all
books are read. -/
theorem region_mono_books :
    let q := (Query.table "book").filter
      (.member (.col "rowid") [.value (.integer 7), .value (.integer 8)] false)
    let seven : Expr Alias := .binary .eq (.col "rowid") (.value (.integer 7))
    let author := { (Query.table "author").selectNothing with
      joins := [(Association.hasMany "author" "book").toJoin .required true] }
    let join := ((Association.belongsTo "book" "author").withDestination author).toJoin
      .required true
    ∃ r r' r'' q' h, q.HasRegion bookCatalog.schema .empty r ∧ r = .rows "book" [7, 8] ∧
      (q.filter seven).HasRegion bookCatalog.schema .empty r' ∧ r'.inter r = r' ∧
      AliasM.Runs (q.withJoin "author" join) .empty q' h ∧
      q'.HasRegion bookCatalog.schema h r'' ∧ r''.contains "book" 9 = true ∧ r.inter r'' = r := by
  intro q seven author join
  have hbare : ∀ e : Expr Alias, e.columns = [("rowid", none)] → e.IsWithin .empty := by
    intro e he c hc a ha
    rw [he, List.mem_singleton] at hc
    obtain rfl := hc
    cases ha
  have hq : q.IsWithin .empty := (table_isWithin "book" .empty).filter (hbare _ rfl)
  have hjoin : join.query.IsWithin .empty :=
    ⟨⟨nofun, nofun, nofun, nofun, nofun, nofun⟩, trivial, table_isWithin "book" .empty, trivial⟩
  obtain ⟨hfilter, happend⟩ := @region_mono .empty .empty bookCatalog.schema q
    Forest.isGrounded_empty Forest.isClosed_empty hq .start
  have hr : q.HasRegion bookCatalog.schema .empty _ := ⟨_, _, .start, rfl⟩
  have hr' : (q.filter seven).HasRegion bookCatalog.schema .empty _ := ⟨_, _, .start, rfl⟩
  obtain ⟨q', h, r'', hruns, hr'', hnine⟩ : ∃ q' h r'',
      AliasM.Runs (q.withJoin "author" join) .empty q' h ∧
        q'.HasRegion bookCatalog.schema h r'' ∧ r''.contains "book" 9 = true :=
    ⟨_, _, _, rfl, ⟨_, _, .start, rfl⟩, by decide +kernel⟩
  refine ⟨_, _, r'', q', h, hr, by decide +kernel, hr', ?_, hruns, hr'', hnine, ?_⟩
  · exact hfilter _ _ _ _ rfl (hq.filter (hbare seven rfl)) hr hr'
  · exact happend _ _ _ _ _ _ hjoin hruns (.inr ⟨hr, nofun⟩) hr''

/-! ## A filter that a late join changes -/

/-- The request with the author of the book, as the occurrence of `a`. -/
def withAuthor (a : Alias) (q : Query) : AliasM Query :=
  q.including ((Association.belongsTo "book" "author").withDestination
    (ofSource (.table "author" (some a)))) .required

/-- The books whose author has the row id five. The author is joined behind qualifying, so that its
occurrence is not bound to its table. -/
def booksOfAuthor : AliasM Query := do
  let q ← (Query.table "book").aliased ⟨0⟩
  let q ← q.qualify
  let q ← q.withAuthor ⟨1⟩
  return q.filter (.binary .eq (.colOf ⟨1⟩ "rowid") (.value (.integer 5)))

/-- **A late join may take rows away.** The author is joined again, as the occurrence that the book
is. Nothing keeps its own occurrence from being merged with that one, and what was a condition on
the author is one on the book. -/
theorem region_narrowed_by_join : ∃ q f r g q' h r' h',
    AliasM.Runs booksOfAuthor twoUnnamed q f ∧
    AliasM.Runs (q.region bookCatalog.schema) f r g ∧
    AliasM.Runs (q.withAuthor ⟨0⟩) g q' h ∧
    AliasM.Runs (q'.region bookCatalog.schema) h r' h' ∧
    r = .ofTables ["author", "book"] ∧ r' = (Region.table "author").union (.rows "book" [5]) ∧
    r.inter r' ≠ r :=
  ⟨_, _, _, _, _, _, _, _, rfl, rfl, rfl, rfl, by decide +kernel, by decide +kernel,
    by decide +kernel⟩

end Query

end SqlTree
