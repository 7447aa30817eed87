import Mathlib.Data.List.Nodup
import SqlTree.Proofs.Expr.Owners
import SqlTree.Proofs.Query.Nodes
import SqlTree.Statement.OfQuery

/-!
# Levels of a statement

A statement is written level by level. The joins of a level, at any depth, stand one behind the
other; each is joined to the request that it is a join of.

* `JoinSites` lists the joins of a level as they are written, each with what its parent is called
  and what it is called itself, where calling is by identity or by name.
* `Query.IsWritten` is all that one level of a statement says of its request, and
  `Query.toSelect_isWritten` says that every statement does so.
* `Level` reaches the requests nested in sources, each with the selection that it is written as.
-/

namespace SqlTree

/-! ## Sites -/

/-- A join at a level, with what its parent is called and what it is called. -/
structure Site (ρ : Type) where
  join : Join
  left : ρ
  right : ρ

/-- The request of a site. -/
def Site.query {ρ : Type} (site : Site ρ) : Query := site.join.query

/-- The joins of a parent called `left`, with the joins beneath each in front of those behind it. -/
inductive JoinSites {ρ : Type} : ρ → List Join → List (Site ρ) → Prop
  | nil {left : ρ} : JoinSites left [] []
  | cons {left right : ρ} {j : Join} {rest : List Join} {below behind : List (Site ρ)} :
      JoinSites right j.query.joins below → JoinSites left rest behind →
        JoinSites left (j :: rest) (⟨j, left, right⟩ :: (below ++ behind))

theorem JoinSites.queries {ρ : Type} {left : ρ} {joins : List Join} {sites : List (Site ρ)}
    (h : JoinSites left joins sites) : sites.map (·.query) = joinsNodes joins := by
  induction h with
  | nil => rfl
  | @cons left right j rest below behind _ _ ihBelow ihBehind =>
    have hnodes : joinNodes j = j.query :: joinsNodes j.query.joins := by
      rw [← Query.nodes_eq]
      cases j
      rfl
    rw [List.map_cons, List.map_append, ihBelow, ihBehind, joinsNodes, hnodes]
    rfl

/-- The site with its parent and itself called in another way. -/
def Site.map {ρ σ : Type} (m : ρ → σ) (site : Site ρ) : Site σ :=
  ⟨site.join, m site.left, m site.right⟩

theorem JoinSites.map {ρ σ : Type} (m : ρ → σ) {left : ρ} {joins : List Join}
    {sites : List (Site ρ)} (h : JoinSites left joins sites) :
    JoinSites (m left) joins (sites.map (·.map m)) := by
  induction h with
  | nil => exact .nil
  | cons _ _ ihBelow ihBehind =>
    rw [List.map_cons, List.map_append]
    exact .cons ihBelow ihBehind

theorem JoinSites.eq_nil_iff {ρ : Type} {left : ρ} {joins : List Join} {sites : List (Site ρ)}
    (h : JoinSites left joins sites) : sites = [] ↔ joins = [] := by
  cases h <;> simp

/-- The parent of a site is the parent of all joins or another site. -/
theorem JoinSites.left_mem {ρ : Type} {left : ρ} {joins : List Join} {sites : List (Site ρ)}
    (h : JoinSites left joins sites) : ∀ site ∈ sites, site.left ∈ left :: sites.map (·.right) := by
  induction h with
  | nil => simp
  | @cons left right j rest below behind _ _ ihBelow ihBehind =>
    intro site hsite
    simp only [List.map_cons, List.map_append, List.mem_cons, List.mem_append] at *
    rcases hsite with rfl | hsite | hsite
    · exact .inl rfl
    · rcases ihBelow site hsite with hleft | hleft
      · exact .inr (.inl hleft)
      · exact .inr (.inr (.inl hleft))
    · rcases ihBehind site hsite with hleft | hleft
      · exact .inl hleft
      · exact .inr (.inr (.inr hleft))

/-- The source and the joined sources of a selection. -/
def Select.fromItems (t : Select) : List FromItem := t.source :: t.joins.map (·.item)

/-- The name by which columns refer to a source, if there is one. -/
def FromItem.name? : FromItem → Option String
  | .table name none => some name
  | .table _ (some name) => some name
  | .select _ name? => name?

/-! ## What is written -/

/-- The terms of a condition that depends on the schema. -/
def filterTerms (db : Schema) : Option (Lookup (Expr Alias)) →
    Except CompileError (List (Expr Alias))
  | none => .ok []
  | some filter => (filter.resolve db).map (·.conjuncts)

/-- The expressions of a group that depends on the schema. -/
def groupTerms (db : Schema) : Option (Lookup (List (Expr Alias))) →
    Except CompileError (List (Expr Alias))
  | none => .ok []
  | some group => group.resolve db

/-- The level of a qualified request. -/
def Query.scope (c : Context) (q : Query) : Scope := .ofAliases c q.levelAliases

/-- What is written in front of a column, where the occurrence has a name. -/
def Scope.written (s : Scope) : Option Alias → Option String
  | none => none
  | some a => if s.showsNames then (s.context.name a).toOption else none

/-- What a join says of its site. -/
structure Site.IsWritten (s : Scope) (site : Site Alias) (item : JoinItem) : Prop where
  occurrence : site.query.source.alias? = some site.right
  kind : item.kind = site.join.kind
  source : site.query.source.toFromItem s.context s = .ok item.item
  on : s.on site.join.link site.left site.right site.query.clauses.filter? = .ok item.on
  agrees : site.join.link.checkMerged s.context.schema site.join.key site.join.mergedLinks = .ok ()
  joinable : site.query.clauses.unjoinable? = none

/-- What one level of a statement says of its request, the occurrence of its source and the sites of
its joins. -/
structure Query.IsWritten (c : Context) (q : Query) (own : Alias) (sites : List (Site Alias))
    (t : Select) : Prop where
  placed : JoinSites own q.joins sites
  occurrence : q.source.alias? = some own
  items : q.items.mapM (·.withOwners (q.scope c).owner?) = .ok t.items
  source : q.source.toFromItem c (q.scope c) = .ok t.source
  joins : List.Forall₂ (Site.IsWritten (q.scope c)) sites t.joins
  filter : Option.Rel (fun e e' => (q.scope c).filter e = .ok e') q.clauses.filter? t.filter?
  group : (q.scope c).group q.clauses.group? = .ok t.group
  having : Option.Rel (fun e e' => (q.scope c).expr e = .ok e') q.clauses.having? t.having?
  order : (q.scope c).order q.fullOrder = .ok t.order
  distinct : t.distinct = q.clauses.distinct
  limit : t.limit? = q.clauses.limit?

theorem Source.occurrence_eq_ok {s : Source} {a : Alias} :
    s.occurrence = .ok a ↔ s.alias? = some a := by
  rw [occurrence]
  cases s.alias? <;> simp

mutual

theorem joinsToItems_sites (s : Scope) : ∀ (joins : List Join) {left : Alias} {mayRequire : Bool}
    {items : List JoinItem}, joinsToItems s.context s left mayRequire joins = .ok items →
      ∃ sites, JoinSites left joins sites ∧ List.Forall₂ (Site.IsWritten s) sites items
  | [], left, mayRequire, items, h => by
    rw [joinsToItems, pure_eq_ok] at h
    subst h
    exact ⟨[], .nil, .nil⟩
  | j :: rest, left, mayRequire, items, h => by
    simp only [joinsToItems, bind_eq_ok, pure_eq_ok] at h
    obtain ⟨first, hfirst, behind, hbehind, rfl⟩ := h
    obtain ⟨right, item, below, belowItems, rfl, hitem, hbelow, hitems⟩ :=
      joinToItems_site s j hfirst
    obtain ⟨sites, hsites, hrest⟩ := joinsToItems_sites s rest hbehind
    exact ⟨_, .cons hbelow hsites, .cons hitem (List.rel_append hitems hrest)⟩

theorem joinToItems_site (s : Scope) : ∀ (j : Join) {left : Alias} {mayRequire : Bool}
    {items : List JoinItem}, j.toItems s.context s left mayRequire = .ok items →
      ∃ right item below belowItems, items = item :: belowItems ∧
        Site.IsWritten s ⟨j, left, right⟩ item ∧ JoinSites right j.query.joins below ∧
        List.Forall₂ (Site.IsWritten s) below belowItems
  | ⟨key, kind, link, mergedLinks, ⟨source, clauses, joins, isQualified⟩⟩, left, mayRequire, items,
      h => by
    rw [Join.toItems] at h
    split at h
    · simp at h
    · rename_i hjoinable
      simp only [bind_eq_ok] at h
      obtain ⟨_, hagrees, h⟩ := h
      split at h
      · simp at h
      · simp only [bind_eq_ok, pure_eq_ok] at h
        obtain ⟨item, hsource, right, hright, on, hon, belowItems, hbelow, rfl⟩ := h
        obtain ⟨below, hplaced, hitems⟩ := joinsToItems_sites s joins hbelow
        have hright := Source.occurrence_eq_ok.1 hright
        have hjoinable : clauses.unjoinable? = none := by
          cases hu : clauses.unjoinable? with
          | none => rfl
          | some clause => exact absurd hu (hjoinable clause)
        exact ⟨right, _, below, belowItems, rfl,
          ⟨hright, rfl, hsource, hon, hagrees, hjoinable⟩, hplaced, hitems⟩

end

/-- **A statement is written level by level.** -/
theorem Query.toSelect_isWritten {c : Context} {q : Query} {t : Select} (h : q.toSelect c = .ok t) :
    (∃ own sites, q.IsWritten c own sites t) ∧ t.items ≠ [] := by
  obtain ⟨source, clauses, joins, isQualified⟩ := q
  rw [toSelect] at h
  simp only [bind_eq_ok] at h
  obtain ⟨items, hitems, h⟩ := h
  split at h
  · simp at h
  · rename_i hsome
    simp only [bind_eq_ok, pure_eq_ok] at h
    obtain ⟨item, hsource, own, hown, joined, hjoined, filter?, hfilter, group, hgroup, having?,
      hhaving, order, horder, rfl⟩ := h
    obtain ⟨sites, hplaced, hsites⟩ :=
      joinsToItems_sites (scope c ⟨source, clauses, joins, isQualified⟩) joins hjoined
    have hown := Source.occurrence_eq_ok.1 hown
    refine ⟨⟨own, sites, hplaced, hown, hitems, hsource, hsites, ?_, hgroup, ?_, horder, rfl, rfl⟩,
      by simpa using hsome⟩
    · exact optionMapM_eq_ok.1 hfilter
    · exact optionMapM_eq_ok.1 hhaving

/-- A joined request has none of the clauses that a join has no place for. -/
theorem Clauses.of_joinable {c : Clauses} (h : c.unjoinable? = none) :
    c.group? = none ∧ c.having? = none ∧ c.limit? = none ∧ c.distinct = false := by
  rw [unjoinable?] at h
  split at h <;> try cases h
  rename_i hgroup
  split at h <;> try cases h
  rename_i hhaving
  split at h <;> try cases h
  rename_i hlimit
  split at h <;> try cases h
  rename_i hdistinct
  simp only [Option.not_isSome_iff_eq_none] at hgroup hhaving hlimit
  exact ⟨hgroup, hhaving, hlimit, by simpa using hdistinct⟩

/-! ## Expressions under names -/

theorem Expr.conjuncts_foldl_and {ρ : Type} (es : List (Expr ρ)) (e : Expr ρ) :
    (es.foldl Expr.and e).conjuncts = e.conjuncts ++ es.flatMap (·.conjuncts) := by
  induction es generalizing e with
  | nil => simp
  | cons e' es ih => rw [List.foldl_cons, ih, conjuncts_and, List.flatMap_cons, List.append_assoc]

theorem JoinLink.conjuncts_comparison {ρ : Type} (link : JoinLink) (left right : ρ)
    (p : String × String) :
    (link.comparison left right p).conjuncts = [link.comparison left right p] := by
  rw [comparison]
  split <;> rfl

theorem JoinLink.mapOwners_comparison {ρ σ : Type} {g : Option ρ → Option σ} {left right : ρ}
    {left' right' : σ} (hleft : g (some left) = some left') (hright : g (some right) = some right')
    (link : JoinLink) (p : String × String) :
    (link.comparison left right p).mapOwners g = link.comparison left' right' p := by
  rw [comparison, comparison]
  split <;> simp [Expr.mapOwners, Expr.colOf, hleft, hright]

theorem JoinLink.condition_eq_ok {db : Schema} {link : JoinLink} {left right : Alias}
    {e : Expr Alias} (h : link.condition db left right = .ok e) :
    ∃ pairs, link.key.resolve db = .ok pairs ∧ pairs ≠ [] ∧
      e.conjuncts = pairs.map (link.comparison left right) := by
  simp only [condition, bind_eq_ok] at h
  obtain ⟨pairs, hpairs, h⟩ := h
  refine ⟨pairs, hpairs, ?_⟩
  cases pairs with
  | nil => simp at h
  | cons p pairs =>
    refine ⟨List.cons_ne_nil p pairs, ?_⟩
    simp only [List.map_cons, pure_eq_ok] at h
    rw [← h, Expr.conjuncts_foldl_and, conjuncts_comparison, List.flatMap_map]
    simp only [conjuncts_comparison, List.map_cons, ← List.map_eq_flatMap]
    rfl

namespace Scope

variable {s : Scope}

theorem eq_written {o : Option Alias} {x : Option String} (h : s.owner? o = .ok x) :
    x = s.written o := by
  cases o with
  | none =>
    rw [owner?, pure_eq_ok] at h
    exact h.symm
  | some a =>
    simp only [owner?, bind_eq_ok, pure_eq_ok] at h
    obtain ⟨name, hname, rfl⟩ := h
    rw [written, hname]
    rfl

theorem filter_eq_ok {l : Lookup (Expr Alias)} {e' : Expr String} (h : s.filter l = .ok e') :
    ∃ e, l.resolve s.context.schema = .ok e ∧ e' = e.mapOwners s.written := by
  simp only [filter, bind_eq_ok] at h
  obtain ⟨e, he, h⟩ := h
  exact ⟨e, he, e.eq_mapOwners (fun _ _ => eq_written) h⟩

theorem group_eq_ok {group? : Option (Lookup (List (Expr Alias)))} {es' : List (Expr String)}
    (h : s.group group? = .ok es') :
    ∃ es, groupTerms s.context.schema group? = .ok es ∧ es' = es.map (·.mapOwners s.written) := by
  cases group? with
  | none =>
    rw [group, pure_eq_ok] at h
    subst h
    exact ⟨[], rfl, rfl⟩
  | some l =>
    simp only [group, bind_eq_ok] at h
    obtain ⟨es, hes, h⟩ := h
    exact ⟨es, hes, eq_map_of_mapM_eq_ok (fun e _ => e.eq_mapOwners fun _ _ => eq_written) h⟩

theorem order_eq_ok {o : SortOrder} {ts : List (SortTerm String)} (h : s.order o = .ok ts) :
    ts.map (·.expr) = o.exprs.map (·.mapOwners s.written) := by
  have hts : ts = o.terms.map (·.mapOwners s.written) :=
    eq_map_of_mapM_eq_ok (fun _ _ => SortTerm.eq_mapOwners fun _ _ => eq_written) h
  rw [hts, ← o.map_expr_terms, List.map_map, List.map_map]
  rfl

/-- The terms of the condition that a join is joined on: the comparisons of its link, and behind
them the terms of its filter. -/
theorem on_eq_ok {link : JoinLink} {left right : Alias} {filter? : Option (Lookup (Expr Alias))}
    {on : Expr String} (h : s.on link left right filter? = .ok on) :
    ∃ pairs terms, link.key.resolve s.context.schema = .ok pairs ∧ pairs ≠ [] ∧
      filterTerms s.context.schema filter? = .ok terms ∧
      on.conjuncts =
        (pairs.map (link.comparison left right) ++ terms).map (·.mapOwners s.written) := by
  simp only [Scope.on, bind_eq_ok] at h
  obtain ⟨condition, hcondition, h⟩ := h
  obtain ⟨pairs, hpairs, hsome, hconjuncts⟩ := JoinLink.condition_eq_ok hcondition
  cases filter? with
  | none =>
    have hon := condition.eq_mapOwners (fun _ _ => eq_written) h
    refine ⟨pairs, [], hpairs, hsome, rfl, ?_⟩
    rw [hon, Expr.conjuncts_mapOwners, hconjuncts, List.append_nil]
  | some l =>
    simp only [bind_eq_ok] at h
    obtain ⟨e, he, h⟩ := h
    have hon := (condition.and e).eq_mapOwners (fun _ _ => eq_written) h
    refine ⟨pairs, e.conjuncts, hpairs, hsome, by rw [filterTerms, he]; rfl, ?_⟩
    rw [hon, Expr.conjuncts_mapOwners, Expr.conjuncts_and, hconjuncts]

end Scope

/-! ## Sources under names -/

/-- At a level that shows names every source has one. -/
theorem Source.toFromItem_name {s : Scope} {source : Source} {item : FromItem} {a : Alias}
    (h : source.toFromItem s.context s = .ok item) (ha : source.alias? = some a)
    (hshows : s.showsNames = true) : ∃ n, s.context.name a = .ok n ∧ item.name? = some n := by
  cases source with
  | table name alias? =>
    obtain rfl : alias? = some a := ha
    simp only [toFromItem, Scope.tableName?, bind_eq_ok, pure_eq_ok] at h
    obtain ⟨_, ⟨n, hn, rfl⟩, rfl⟩ := h
    refine ⟨n, hn, ?_⟩
    split
    · rename_i hsame
      rw [hsame]
      rfl
    · rfl
  | nested query alias? =>
    obtain rfl : alias? = some a := ha
    simp only [toFromItem, Scope.nestedName?, hshows, Bool.or_true, if_true, bind_eq_ok,
      pure_eq_ok] at h
    obtain ⟨t, -, _, ⟨n, hn, rfl⟩, rfl⟩ := h
    exact ⟨n, hn, rfl⟩

namespace Query.IsWritten

variable {c : Context} {q : Query} {own : Alias} {sites : List (Site Alias)} {t : Select}

theorem items_eq (h : q.IsWritten c own sites t) :
    t.items = q.items.map (·.mapOwners (q.scope c).written) :=
  eq_map_of_mapM_eq_ok (fun _ _ => SelectItem.eq_mapOwners fun _ _ => Scope.eq_written) h.items

theorem nodes_eq (h : q.IsWritten c own sites t) : q.nodes = q :: sites.map (·.query) := by
  rw [Query.nodes_eq, h.placed.queries]

/-- The sources of a level, each with what it is written as. -/
theorem sources (h : q.IsWritten c own sites t) :
    List.Forall₂ (fun p item => Source.toFromItem c (q.scope c) p.source = .ok item) q.nodes
      t.fromItems := by
  rw [h.nodes_eq, Select.fromItems]
  refine .cons h.source ?_
  rw [List.forall₂_map_left_iff, List.forall₂_map_right_iff]
  exact h.joins.imp fun _ _ hsite => hsite.source

/-- The occurrences of the sources of a level. -/
theorem occurrences (h : q.IsWritten c own sites t) :
    List.Forall₂ (fun p a => Source.alias? p.source = some a) q.nodes (own :: sites.map (·.right)) := by
  rw [h.nodes_eq]
  refine .cons h.occurrence ?_
  rw [List.forall₂_map_left_iff, List.forall₂_map_right_iff, List.forall₂_same]
  intro site hsite
  obtain ⟨item, -, hitem⟩ := exists_of_forall₂ h.joins hsite
  exact hitem.occurrence

/-- At a level that shows names every source goes by the name of its occurrence. -/
theorem exposed (h : q.IsWritten c own sites t) (hshown : (q.scope c).showsNames = true) :
    List.Forall₂ (fun a item => ∃ x, c.name a = .ok x ∧ FromItem.name? item = some x)
      (own :: sites.map (·.right)) t.fromItems := by
  rw [Select.fromItems]
  refine .cons (Source.toFromItem_name h.source h.occurrence hshown) ?_
  rw [List.forall₂_map_left_iff, List.forall₂_map_right_iff]
  refine h.joins.imp fun site item hsite => ?_
  exact Source.toFromItem_name hsite.source hsite.occurrence hshown

theorem namedSources (h : q.IsWritten c own sites t) (hshown : (q.scope c).showsNames = true) :
    List.Forall₂ (fun p item => ∃ a x, Source.alias? p.source = some a ∧ c.name a = .ok x ∧
      FromItem.name? item = some x) q.nodes t.fromItems := by
  refine forall₂_comp ?_ h.occurrences (h.exposed hshown)
  rintro p a item ha ⟨x, hx⟩
  exact ⟨a, x, ha, hx⟩

theorem levelAliases_eq (h : q.IsWritten c own sites t) :
    q.levelAliases = own :: sites.map (·.right) := by
  have haliases : q.nodes.flatMap (·.source.alias?.toList) =
      (own :: sites.map (·.right)).flatMap ([·]) := by
    refine flatMap_eq_of_forall₂ (fun p a ha => ?_) h.occurrences
    rw [ha]
    rfl
  rw [Query.levelAliases_eq, haliases, List.flatMap_singleton']

end Query.IsWritten

theorem eraseDups_eq_self {α : Type} [BEq α] [LawfulBEq α] {as : List α} (h : as.Nodup) :
    as.eraseDups = as := by
  induction as with
  | nil => rfl
  | cons a as ih =>
    obtain ⟨ha, has⟩ := List.nodup_cons.1 h
    have hrest : as.filter (fun b => !b == a) = as := by
      refine List.filter_eq_self.2 fun b hb => ?_
      have hne : b ≠ a := fun hba => ha (hba ▸ hb)
      simp [hne]
    rw [List.eraseDups_cons, hrest, ih has]

/-- A level whose occurrences all differ shows names when it has joins. -/
theorem Query.IsWritten.showsNames_iff {c : Context} {q : Query} {own : Alias}
    {sites : List (Site Alias)} {t : Select} (h : q.IsWritten c own sites t)
    (hroots : (q.levelAliases.map c.forest.root).Nodup) :
    (q.scope c).showsNames = true ↔ q.joins ≠ [] := by
  have hshows : (q.scope c).showsNames = true ↔ sites ≠ [] := by
    have hlength : (q.levelAliases.map c.forest.root).eraseDups.length = sites.length + 1 := by
      rw [eraseDups_eq_self hroots, h.levelAliases_eq]
      simp
    rw [scope, Scope.ofAliases, hlength, decide_eq_true_eq, ← List.length_pos_iff]
    omega
  rw [hshows, Ne, h.placed.eq_nil_iff]

/-! ## Nested levels -/

/-- The levels of a statement: a request and the selection that it is written as, and those that are
nested in the sources of a level. -/
inductive Level : Query → Select → Query → Select → Prop
  | top {q : Query} {t : Select} : Level q t q t
  | nested {q p inner : Query} {t u v : Select} {alias? : Option Alias} {name? : Option String} :
      Level q t p u →
        (Source.nested inner alias?, FromItem.select v name?) ∈
          (p.nodes.map (·.source)).zip u.fromItems →
        Level q t inner v

/-- The selection of every level is what its request is written as. -/
theorem Level.toSelect {c : Context} {q p : Query} {t u : Select} (h : Level q t p u)
    (ht : q.toSelect c = .ok t) : p.toSelect c = .ok u := by
  induction h with
  | top => exact ht
  | @nested p inner t u v alias? name? _ hmem ih =>
    obtain ⟨⟨own, sites, hw⟩, -⟩ := Query.toSelect_isWritten (ih ht)
    have hsources : List.Forall₂ (fun s item => s.toFromItem c (p.scope c) = .ok item)
        (p.nodes.map (·.source)) u.fromItems := by
      rw [List.forall₂_map_left_iff]
      exact hw.sources
    have hinner := (List.forall₂_iff_zip.1 hsources).2 hmem
    simp only [Source.toFromItem, bind_eq_ok, pure_eq_ok] at hinner
    obtain ⟨v', hv', name', -, heq⟩ := hinner
    injection heq with hv
    rw [← hv]
    exact hv'

end SqlTree
