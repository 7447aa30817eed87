import SqlTree.Proofs.Expr.Params
import SqlTree.Proofs.Query.Gathered
import SqlTree.Proofs.Query.Qualified
import SqlTree.Proofs.Statement.Naming
import SqlTree.Proofs.Statement.Written
import SqlTree.Statement.Compile

/-!
# What is written of joins under one key

Joins that were appended under one key are written as one join. Nothing that they ask for is lost in
it, and nothing is chosen silently where they differ.

* `JoinGroups` lists the joins appended to a parent by their keys, with the joins beneath those of a
  key in front of the next key.
* `JoinGroup.IsWritten` says what stands in the one join that is written for the joins under a key:
  its words, its source, its condition with the values bound there. All their links compare the same
  columns.
* `Query.selectStatement_gathersJoins` is that every join of a statement is written so, in this
  order, and that the selected items are theirs.
-/

namespace SqlTree

/-! ## Groups -/

/-- The joins under one key, in the order in which they were appended, and the occurrences of their
parent and of themselves. A group is kept when what is written was qualified before. -/
structure JoinGroup where
  first : Join
  others : List Join
  left : Alias
  right : Alias
  isKept : Bool

/-- The joins of a group. -/
def JoinGroup.members (group : JoinGroup) : List Join := group.first :: group.others

/-- The joins of the parent `left` by their keys, in the order in which the keys came first, each
group with the groups beneath its members in front of the next one. Joins that were merged are not
qualified any more; a single join that was is kept, with all that is beneath it. -/
inductive JoinGroups : Alias → Bool → List Join → List JoinGroup → Prop
  | nil {left : Alias} {kept : Bool} : JoinGroups left kept [] []
  | cons {kept : Bool} {rest : List Join} {group : JoinGroup} {below behind : List JoinGroup} :
      group.others = Join.underKey group.first.key rest →
      group.isKept = (kept || (group.others.isEmpty && group.first.query.isQualified)) →
      JoinGroups group.right group.isKept (group.members.flatMap (·.query.joins)) below →
      JoinGroups group.left kept (Join.offKey group.first.key rest) behind →
        JoinGroups group.left kept (group.first :: rest) (group :: (below ++ behind))

/-- What is written in front of the columns of a group: those without an occurrence count for the
occurrence of the group, unless it is kept. -/
def JoinGroup.shown (s : Scope) (group : JoinGroup) (owner? : Option Alias) : Option String :=
  s.written (if group.isKept then owner? else some (owner?.getD group.right))

/-- A link compares the given pairs of columns, up to ASCII case and order, in the direction of
another link. -/
def JoinLink.Compares (db : Schema) (link : JoinLink) (pairs : List (String × String))
    (other : JoinLink) : Prop :=
  other.isHeldByParent = link.isHeldByParent ∧
    ∃ pairs', other.key.resolve db = .ok pairs' ∧ (pairs'.map lowerPair).Perm (pairs.map lowerPair)

/-- What stands in the join written for a group, of what its members say.

It is a `LEFT JOIN` just when all of them are optional. It is joined on the comparisons of the first
link, and behind them the terms of the filters of all members in order, with `AND` between
neighbours, and is read back as the conjunction of these; the values bound there are those of the
terms. The links of all members, and those merged into them before, compare the same columns. -/
structure JoinGroup.IsWritten (s : Scope) (group : JoinGroup) (w : WrittenJoin) : Prop where
  word : w.word = if ∀ j ∈ group.members, j.kind = .optional then .leftJoin else .join
  table : ∀ name, group.first.query.source.tableName? = some name →
    ∃ name?, w.source = .ident name :: Fragment.asName name?
  named : s.showsNames = true →
    ∃ name, s.context.name group.right = .ok name ∧ w.source.getLast? = some (.ident name)
  on : ∃ pairs terms fs, group.first.link.key.resolve s.context.schema = .ok pairs ∧
    joinsTerms s.context.schema group.members = .ok terms ∧
    w.on = List.intercalate [.token .and]
      (pairs.map (group.first.link.comparisonChunks (s.written (some group.left))
        (s.written (some group.right))) ++ fs) ∧
    List.Forall₂ (Expr.IsReadFrom (group.shown s)) terms fs ∧
    (∃ e, w.on.read? = some e ∧ e.Same (.conj
      (pairs.map (fun p => (group.first.link.comparison group.left group.right p).mapOwners
        s.written) ++ terms.map (·.mapOwners (group.shown s))))) ∧
    w.on.params = terms.flatMap (·.params) ∧
    ∀ j ∈ group.members, ∀ l ∈ j.link :: j.mergedLinks,
      group.first.link.Compares s.context.schema pairs l

/-- What a selection says of a request `parent` without joins and the joins appended to it: the
joins are those of the groups, and selected are the items of the request and behind them those of
the groups, which of each group are the items of the last member that has any. -/
structure WrittenSelect.GathersJoins (s : Scope) (parent : Query) (appended : List Join)
    (own : Alias) (groups : List JoinGroup) (w : WrittenSelect) : Prop where
  grouped : JoinGroups own false appended groups
  joins : List.Forall₂ (JoinGroup.IsWritten s) groups w.joins
  items : ∃ before behind, w.items = before ++ behind.flatten ∧
    List.Forall₂ (SelectItem.IsReadFrom fun o => s.written (some (o.getD own)))
      parent.clauses.selection before ∧
    List.Forall₂ (fun group fs => List.Forall₂ (SelectItem.IsReadFrom (group.shown s))
      (lastSelection group.members) fs) groups behind
  named : s.showsNames = true →
    ∃ name, s.context.name own = .ok name ∧ w.source.getLast? = some (.ident name)

/-! ## Agreeing links -/

theorem JoinLink.agreesWith_eq_true {db : Schema} {a b : JoinLink}
    (h : a.agreesWith db b = .ok true) {pairs : List (String × String)}
    (hpairs : a.key.resolve db = .ok pairs) : a.Compares db pairs b := by
  rw [agreesWith] at h
  split at h
  · rename_i hsame
    subst hsame
    exact ⟨rfl, pairs, hpairs, .refl _⟩
  · split at h
    · rename_i hbetween
      simp only [bind_eq_ok, pure_eq_ok] at h
      obtain ⟨own, hown, pairs', hpairs', hperm⟩ := h
      obtain rfl := Except.ok.inj (hpairs.symm.trans hown)
      simp only [isBetweenSameTables, Bool.and_eq_true, beq_iff_eq] at hbetween
      exact ⟨hbetween.1.1.symm, pairs', hpairs', (List.isPerm_iff.1 hperm).symm⟩
    · simp at h

theorem JoinLink.checkMerged_eq_ok {db : Schema} {key : String} {own : JoinLink} :
    ∀ {links : List JoinLink}, own.checkMerged db key links = .ok () →
      ∀ l ∈ links, own.agreesWith db l = .ok true
  | [], _ => by simp
  | l :: rest, h => by
    simp only [checkMerged, bind_eq_ok] at h
    obtain ⟨agrees, hagrees, h⟩ := h
    cases agrees with
    | false => simp at h
    | true =>
      intro l' hl'
      rcases List.mem_cons.1 hl' with rfl | hl'
      · exact hagrees
      · exact checkMerged_eq_ok h l' hl'

/-! ## Names of qualified clauses -/

/-- Identities of one occurrence have one name in front of their columns. -/
theorem Scope.written_eq {s : Scope} {a b : Alias}
    (h : s.context.forest.root a = s.context.forest.root b) :
    s.written (some a) = s.written (some b) := by
  simp only [written, Context.toOption_name, h]

theorem Scope.written_getD {s : Scope} {a b : Alias}
    (h : s.context.forest.root a = s.context.forest.root b) :
    (fun o : Option Alias => s.written (some (o.getD a))) =
      fun o => s.written (some (o.getD b)) := by
  funext o
  cases o with
  | none => exact Scope.written_eq h
  | some own => rfl

/-- What is written of clauses that are qualified as an occurrence. -/
theorem Clauses.selection_qualified {ρ : Type} (g : Option Alias → Option ρ) (owner : Alias)
    (c : Clauses) : (c.qualified owner).selection.map (·.mapOwners g) =
      c.selection.map (·.mapOwners fun o => g (some (o.getD owner))) := by
  rw [qualified, List.map_map]
  exact List.map_congr_left fun i _ => i.mapOwners_qualified g owner

/-! ## The groups of a statement -/

/-- The second request is what qualifying makes of the first one, unless this is kept. -/
def Query.QualifiedUnless (kept : Bool) (same : Alias → Alias → Prop) (q q' : Query) : Prop :=
  if kept then q' = q else q.QualifiedUpTo same q'

/-- The second joins are what qualifying makes of the first ones, unless these are kept. -/
def JoinsQualifiedUnless (kept : Bool) (same : Alias → Alias → Prop) (joins joins' : List Join) :
    Prop :=
  if kept then joins' = joins else JoinsQualifiedUpTo same joins joins'

section

variable {same : Alias → Alias → Prop} {kept : Bool}

theorem JoinsQualifiedUnless.nil {joins : List Join}
    (h : JoinsQualifiedUnless kept same joins []) : joins = [] := by
  cases kept with
  | true => exact Eq.symm h
  | false => exact (JoinsQualifiedUpTo.eq_nil_iff h).2 rfl

theorem JoinsQualifiedUnless.cons {joins rest' : List Join} {j' : Join}
    (h : JoinsQualifiedUnless kept same joins (j' :: rest')) :
    ∃ m rest, joins = m :: rest ∧ j' = { m with query := j'.query } ∧
      m.query.QualifiedUnless kept same j'.query ∧ JoinsQualifiedUnless kept same rest rest' := by
  cases kept with
  | true =>
    obtain rfl : j' :: rest' = joins := h
    exact ⟨j', rest', rfl, by cases j'; rfl, rfl, rfl⟩
  | false =>
    have hjoins : JoinsQualifiedUpTo same joins (j' :: rest') := h
    cases hjoins with
    | cons hq hrest => exact ⟨_, _, rfl, rfl, hq, hrest⟩

/-- What was qualified before is kept, and with it what is beneath. -/
theorem Query.QualifiedUnless.cases {q q' : Query} (h : q.QualifiedUnless kept same q') :
    ((kept || q.isQualified) = true → q' = q) ∧
      ((kept || q.isQualified) = false → ∃ owner, q.QualifiedByUpTo same owner q') ∧
      JoinsQualifiedUnless (kept || q.isQualified) same q.joins q'.joins := by
  cases kept with
  | true =>
    obtain rfl : q' = q := h
    exact ⟨fun _ => rfl, by simp, rfl⟩
  | false =>
    have hq : q.QualifiedUpTo same q' := h
    rw [Bool.false_or]
    cases hqualified : q.isQualified with
    | true =>
      obtain rfl := hq.kept_eq hqualified
      exact ⟨fun _ => rfl, by simp, rfl⟩
    | false =>
      obtain ⟨owner, hmade⟩ := hq.made_by hqualified
      exact ⟨by simp, fun _ => ⟨owner, hmade⟩, hmade.joins⟩

/-- A join of a qualified request stands for a group: it is what qualifying makes of a join that has
what the members have, unless the group is kept. -/
structure JoinGroup.IsSite (same : Alias → Alias → Prop) (group : JoinGroup) (m : Join)
    (site : Site Alias) : Prop where
  left : site.left = group.left
  right : site.right = group.right
  gathers : m.Gathers group.first group.others
  join : site.join = { m with query := site.query }
  kept : group.isKept = true → site.query = m.query
  made : group.isKept = false → ∃ owner, m.query.QualifiedByUpTo same owner site.query

/-- **The joins of a qualified request are those of the groups.** -/
theorem Gathered.groups {left : Alias} {joins' : List Join} {sites : List (Site Alias)}
    (h : JoinSites left joins' sites) : ∀ {appended joins : List Join} {kept : Bool},
      Gathered appended joins → JoinsQualifiedUnless kept same joins joins' →
        ∃ groups, JoinGroups left kept appended groups ∧
          List.Forall₂ (fun group site => ∃ m, JoinGroup.IsSite same group m site) groups sites := by
  induction h with
  | nil =>
    intro appended joins kept hgathered hjoins
    obtain rfl := hjoins.nil
    cases hgathered
    exact ⟨[], .nil, .nil⟩
  | @cons left right j' rest' belowSites behindSites _ _ ihBelow ihBehind =>
    intro appended joins kept hgathered hjoins
    obtain ⟨m, behind, rfl, hj', hquery, hbehind⟩ := hjoins.cons
    cases hgathered with
    | @cons first m rest behind hgathers hbelow hgatheredBehind =>
      obtain ⟨hkept, hmade, hjoinsBelow⟩ := hquery.cases
      rw [hgathers.isQualified] at hkept hmade hjoinsBelow
      obtain ⟨groupsBelow, hgroupsBelow, hsitesBelow⟩ := ihBelow hbelow hjoinsBelow
      obtain ⟨groupsBehind, hgroupsBehind, hsitesBehind⟩ := ihBehind hgatheredBehind hbehind
      let group : JoinGroup := ⟨first, Join.underKey first.key rest, left, right,
        kept || ((Join.underKey first.key rest).isEmpty && first.query.isQualified)⟩
      have hgroups : JoinGroups group.left kept (group.first :: rest) (group :: (_ ++ _)) :=
        .cons rfl rfl hgroupsBelow hgroupsBehind
      refine ⟨_, hgroups, .cons ⟨m, rfl, rfl, hgathers, hj', hkept, hmade⟩ ?_⟩
      exact List.rel_append hsitesBelow hsitesBehind

end

/-! ## What is written of a group -/

theorem JoinLink.params_comparison {ρ : Type} (link : JoinLink) (left right : ρ)
    (p : String × String) : (link.comparison left right p).params = [] := by
  rw [comparison]
  split <;> rfl

theorem Source.toFromItem_table {s : Scope} {source : Source} {item : FromItem} {name : String}
    (h : source.toFromItem s.context s = .ok item) (hname : source.tableName? = some name) :
    ∃ name?, item = .table name name? := by
  cases source with
  | nested query alias? => cases hname
  | table name' alias? =>
    obtain rfl := Option.some.inj hname
    simp only [toFromItem, bind_eq_ok, pure_eq_ok] at h
    obtain ⟨name?, -, rfl⟩ := h
    exact ⟨name?, rfl⟩

namespace JoinGroup.IsSite

variable {s : Scope} {group : JoinGroup} {m : Join} {site : Site Alias} {item : JoinItem}

section

variable (h : group.IsSite (fun a b => s.context.forest.root a = s.context.forest.root b) m site)
  (hw : site.IsWritten s item)

include h hw

/-- The request of a site is the one of its group, as it is or with its columns given an occurrence
that has the name of the group. -/
theorem query_cases : (site.query = m.query ∧ group.shown s = s.written) ∨
    ∃ owner, m.query.QualifiedByUpTo (fun a b => s.context.forest.root a = s.context.forest.root b)
      owner site.query ∧ group.shown s = fun o => s.written (some (o.getD owner)) := by
  unfold JoinGroup.shown
  cases hkept : group.isKept with
  | true => exact .inl ⟨h.kept hkept, by simp⟩
  | false =>
    obtain ⟨owner, hmade⟩ := h.made hkept
    refine .inr ⟨owner, hmade, ?_⟩
    have hroot := hmade.source.same_getD
    have hright := hmade.source.alias?_eq.symm.trans hw.occurrence
    rw [Option.some.inj hright, h.right] at hroot
    simp only [Bool.false_eq_true, if_false]
    exact (Scope.written_getD hroot).symm

theorem terms {terms' : List (Expr Alias)}
    (hterms : filterTerms s.context.schema site.query.clauses.filter? = .ok terms') :
    ∃ terms, joinsTerms s.context.schema group.members = .ok terms ∧
      terms'.map (·.mapOwners s.written) = terms.map (·.mapOwners (group.shown s)) := by
  rw [JoinGroup.members, ← h.gathers.filter]
  rcases h.query_cases hw with ⟨hquery, hshown⟩ | ⟨owner, hmade, hshown⟩
  · rw [hquery] at hterms
    exact ⟨terms', hterms, by rw [hshown]⟩
  · rw [hmade.clauses, Clauses.filterTerms_qualified] at hterms
    obtain ⟨terms, hresolved, rfl⟩ := map_eq_ok.1 hterms
    refine ⟨terms, hresolved, ?_⟩
    rw [hshown, List.map_map]
    exact List.map_congr_left fun e _ => e.mapOwners_qualified s.written owner

theorem selection : site.query.clauses.selection.map (·.mapOwners s.written) =
    (lastSelection group.members).map (·.mapOwners (group.shown s)) := by
  rw [JoinGroup.members, ← h.gathers.selection]
  rcases h.query_cases hw with ⟨hquery, hshown⟩ | ⟨owner, hmade, hshown⟩
  · rw [hquery, hshown]
  · rw [hmade.clauses, Clauses.selection_qualified, hshown]

theorem table {name : String} (hname : group.first.query.source.tableName? = some name) :
    ∃ name?, item.item = .table name name? := by
  apply Source.toFromItem_table hw.source
  rw [← hname, ← h.gathers.table]
  rcases h.query_cases hw with ⟨hquery, -⟩ | ⟨owner, hmade, -⟩
  · rw [hquery]
  · exact hmade.source.tableName?_eq

/-- The links of all members compare the columns of the first one. -/
theorem compares {pairs : List (String × String)}
    (hpairs : group.first.link.key.resolve s.context.schema = .ok pairs) :
    ∀ j ∈ group.members, ∀ l ∈ j.link :: j.mergedLinks,
      group.first.link.Compares s.context.schema pairs l := by
  intro j hj l hl
  have hchecked := hw.agrees
  rw [h.join] at hchecked
  rw [← h.gathers.link] at hpairs ⊢
  refine JoinLink.agreesWith_eq_true ?_ hpairs
  rcases h.gathers.links j hj l hl with rfl | hl
  · rw [JoinLink.agreesWith, if_pos rfl]
    rfl
  · exact JoinLink.checkMerged_eq_ok hchecked l hl

/-- **The join written for a group says what its members say.** -/
theorem isWritten : group.IsWritten s item.written := by
  obtain ⟨pairs, terms', hpairs, hsome, hterms', hconjuncts⟩ := Scope.on_eq_ok hw.on
  obtain ⟨terms, hterms, hmapped⟩ := h.terms hw hterms'
  have hlink : site.join.link = group.first.link := by
    rw [h.join, ← h.gathers.link]
  rw [hlink] at hpairs
  rw [List.map_append, hmapped, List.map_map, hlink, h.left, h.right] at hconjuncts
  refine ⟨?_, fun name hname => ?_, fun hshows => ?_, pairs, terms, _, hpairs, hterms,
    JoinLink.fragment_on hsome hconjuncts, Expr.isReadFrom_operands _ terms, ?_, ?_,
    h.compares hw hpairs⟩
  · have hkind : item.kind = .optional ↔ ∀ j ∈ group.members, j.kind = .optional := by
      rw [hw.kind, h.join]
      exact h.gathers.kind
    rw [JoinItem.written, ← if_congr hkind rfl rfl]
    cases item.kind <;> rfl
  · obtain ⟨name?, htable⟩ := h.table hw hname
    refine ⟨name?, ?_⟩
    rw [JoinItem.written, htable, FromItem.fragment, Fragment.namedIf_eq]
    rfl
  · obtain ⟨name, hright, hname⟩ := Source.toFromItem_name hw.source hw.occurrence hshows
    rw [← h.right]
    exact ⟨name, hright, FromItem.getLast?_fragment hname⟩
  · obtain ⟨e, hread, hsame⟩ := Reading.read?_fragment item.on
    refine ⟨e, hread, ?_⟩
    have hconj := hsame.trans item.on.same_conj_conjuncts
    rwa [hconjuncts] at hconj
  · rw [JoinItem.written, Expr.params_fragment, ← Expr.params_conjuncts, hconjuncts,
      List.flatMap_append, List.flatMap_map, List.flatMap_map]
    simp [JoinLink.params_comparison]

end

end JoinGroup.IsSite

/-- The joined sources select what the groups do. -/
theorem JoinGroup.selections_eq {s : Scope} {groups : List JoinGroup} {sites : List (Site Alias)}
    {items : List JoinItem}
    (hsites : List.Forall₂ (fun group site => ∃ m, JoinGroup.IsSite
      (fun a b => s.context.forest.root a = s.context.forest.root b) group m site) groups sites)
    (hjoins : List.Forall₂ (Site.IsWritten s) sites items) :
    (sites.flatMap fun site => site.query.clauses.selection.map (·.mapOwners s.written)) =
      groups.flatMap fun group =>
        (lastSelection group.members).map (·.mapOwners (group.shown s)) := by
  have hsome : ∀ site ∈ sites, ∃ item, site.IsWritten s item := by
    intro site hsite
    obtain ⟨item, -, hitem⟩ := exists_of_forall₂ hjoins hsite
    exact ⟨item, hitem⟩
  have hboth := (List.forall₂_and_left sites groups).2 ⟨hsome, hsites.flip⟩
  refine flatMap_eq_of_forall₂ ?_ hboth
  rintro site group ⟨⟨item, hitem⟩, m, hsite⟩
  exact hsite.selection hitem

/-- The selection of a qualified request says what was appended to its parent. -/
theorem Query.IsWritten.gathersJoins {c : Context} {parent q q' : Query} {appended : List Join}
    {own : Alias} {sites : List (Site Alias)} {t : Select} (hw : q'.IsWritten c own sites t)
    (hnew : parent.isQualified = false) (hq : q = { parent with joins := q.joins })
    (hgathered : Gathered appended q.joins)
    (hqualified : q.QualifiedUpTo (fun a b => c.forest.root a = c.forest.root b) q') :
    ∃ groups, t.written.GathersJoins (q'.scope c) parent appended own groups := by
  have hunqualified : q.isQualified = false := by
    rw [hq]
    exact hnew
  obtain ⟨owner, hmade⟩ := hqualified.made_by hunqualified
  have hroot := hmade.source.same_getD
  rw [← Option.some.inj (hw.occurrence.symm.trans hmade.source.alias?_eq)] at hroot
  have hjoins : JoinsQualifiedUnless false (fun a b => c.forest.root a = c.forest.root b) q.joins
      q'.joins := hmade.joins
  obtain ⟨groups, hgroups, hsites⟩ := hgathered.groups hw.placed hjoins
  refine ⟨groups, hgroups, ?_, ?_, fun hshows => ?_⟩
  · rw [Select.written, List.forall₂_map_right_iff]
    refine forall₂_comp ?_ hsites hw.joins
    rintro group site item ⟨m, hsite⟩ hitem
    exact hsite.isWritten hitem
  · have hclauses : q.clauses = parent.clauses := by rw [hq]
    have hitems : t.items = parent.clauses.selection.map
        (·.mapOwners fun o => (q'.scope c).written (some (o.getD own))) ++
        groups.flatMap fun group => (lastSelection group.members).map
          (·.mapOwners (group.shown (q'.scope c))) := by
      rw [← JoinGroup.selections_eq hsites hw.joins, hw.items_eq, Query.items_eq, hw.nodes_eq,
        List.flatMap_cons, List.map_append, hmade.clauses, hclauses, Clauses.selection_qualified,
        Scope.written_getD hroot, List.flatMap_map, List.map_flatMap]
    refine ⟨_, groups.map fun group => (lastSelection group.members).map
      fun i => (i.mapOwners (group.shown (q'.scope c))).fragment, ?_,
      SelectItem.isReadFrom_map _ parent.clauses.selection, ?_⟩
    · rw [Select.written, hitems, List.map_append, List.map_map, List.map_flatMap, List.flatMap_def]
      simp only [List.map_map]
      rfl
    · exact forall₂_map (fun group => SelectItem.isReadFrom_map _ _) groups
  · obtain ⟨name, hown, hname⟩ := Source.toFromItem_name hw.source hw.occurrence hshows
    exact ⟨name, hown, FromItem.getLast?_fragment hname⟩

/-- **Merging joins loses nothing that they ask for.** -/
theorem Query.selectStatement_gathersJoins (db : Schema) {parent q : Query} {appended : List Join}
    (hnew : parent.isQualified = false) (hparent : parent.joins = [])
    (hkeys : ∀ j ∈ appended, j.query.KeysDiffer) (happended : Appends parent appended q)
    {f g : Forest} {st : Statement} (hf : f.IsGrounded)
    (h : AliasM.Runs (q.selectStatement db) f st g) :
    ∃ q' c t own groups w, AliasM.Runs q.qualify f q' g ∧ Context.ofQuery g db q' = .ok c ∧
      q'.toSelect c = .ok t ∧ st = t.fragment.statement ∧ t.fragment = w.chunks ∧
      WrittenSelect.GathersJoins (q'.scope c) parent appended own groups w := by
  simp only [selectStatement, AliasM.runs_bind, AliasM.runs_pure, AliasM.runs_read] at h
  obtain ⟨q', f', hqualify, t, f'', ⟨hselect, rfl⟩, rfl, rfl⟩ := h
  obtain ⟨c, hc, ht⟩ := bind_eq_ok.1 hselect
  obtain ⟨⟨own, sites, hw⟩, -⟩ := Query.toSelect_isWritten ht
  obtain ⟨hgathered, hq⟩ := happended.gathered hparent hkeys
  have hqualified := q.qualify_sameRoot hf hqualify
  obtain ⟨rfl, -, -⟩ := Context.ofQuery_eq_ok hc
  obtain ⟨groups, hgroups⟩ := hw.gathersJoins hnew hq hgathered hqualified
  exact ⟨q', c, t, own, groups, t.written, hqualify, hc, ht, rfl, t.fragment_eq_chunks, hgroups⟩

/-- The authors of books with a given id, if there are any. -/
def authorWithId : Join :=
  ((Association.belongsTo "book" "author").withDestination
    ((Query.table "author").filter (.binary .eq (.col "id") (.value (.integer 1))))).toJoin
      .optional true

/-- The authors of books in a given country, by the column that holds the key. -/
def authorInCountry : Join :=
  (((Association.belongsTo "book" "author").heldBy ["AUTHORID"]).withDestination
    ((Query.table "author").filter (.binary .eq (.col "countryId") (.value (.integer 2))))).toJoin
      .required false

/-- The writers of books under a key of their own, if there are any. -/
def writer : Join :=
  ((Association.belongsTo "book" "author").withKey "writer").toJoin .optional false

set_option maxRecDepth 4000 in
/-- The required join is written under the key that it shares with an optional one, and the optional
one under the other key behind it. -/
theorem Query.selectStatement_gathersJoins_books : ∃ q st g q' c t own groups w,
    Appends (.table "book") [authorWithId, writer, authorInCountry] q ∧
    AliasM.Runs (q.selectStatement bookCatalog.schema) .empty st g ∧
    st = ⟨"SELECT \x22book\x22.*, \x22author1\x22.* FROM \x22book\x22 " ++
      "JOIN \x22author\x22 AS \x22author1\x22 " ++
      "ON \x22author1\x22.\x22id\x22 = \x22book\x22.\x22authorId\x22 " ++
      "AND \x22author1\x22.\x22id\x22 = ? AND \x22author1\x22.\x22countryId\x22 = ? " ++
      "LEFT JOIN \x22author\x22 AS \x22author2\x22 " ++
      "ON \x22author2\x22.\x22id\x22 = \x22book\x22.\x22authorId\x22",
      [.integer 1, .integer 2]⟩ ∧
    st = Fragment.statement (Select.fragment t) ∧ Select.fragment t = WrittenSelect.chunks w ∧
    w.GathersJoins (Query.scope c q') (.table "book") [authorWithId, writer, authorInCountry] own
      groups := by
  have hfirst : AliasM.Runs ((Query.table "book").withJoin "author" authorWithId) .empty
      { Query.table "book" with joins := [authorWithId] } .empty := rfl
  have hsecond : AliasM.Runs ({ Query.table "book" with joins := [authorWithId] }.withJoin "writer"
      writer) .empty { Query.table "book" with joins := [authorWithId, writer] } .empty := rfl
  have hthird : AliasM.Runs ({ Query.table "book" with joins := [authorWithId, writer] }.withJoin
      "author" authorInCountry) .empty _ .empty := rfl
  have happends : Appends (.table "book") [authorWithId, writer, authorInCountry] _ :=
    ((Appends.nil.step hfirst).step hsecond).step hthird
  have hkeys : ∀ j ∈ [authorWithId, writer, authorInCountry], j.query.KeysDiffer := by
    intro j hj
    apply Query.keysDiffer_of_joins_eq_nil
    simp only [List.mem_cons, List.not_mem_nil, or_false] at hj
    rcases hj with rfl | rfl | rfl <;> rfl
  obtain ⟨q', c, t, own, groups, w, -, -, -, ht, hw, hgathers⟩ :=
    Query.selectStatement_gathersJoins bookCatalog.schema rfl rfl hkeys happends
      Forest.isGrounded_empty rfl
  exact ⟨_, _, _, q', c, t, own, groups, w, happends, rfl, rfl, ht, hw, hgathers⟩

end SqlTree
