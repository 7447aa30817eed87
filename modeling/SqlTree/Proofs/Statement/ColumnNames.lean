import SqlTree.Proofs.Query.Qualified
import SqlTree.Proofs.Statement.Naming
import SqlTree.Statement.Compile

/-!
# What stands in front of columns

In a request without occurrences every column belongs to the source of the request that it is
written in. These modules of the compiler make that so in the statement: a new occurrence for every
source, its columns given to it, names for all occurrences, and the decision at every level whether
names are shown.

* `Query.IsPlain` is a request in whose tree no occurrence is mentioned.
* `Query.NamesLevel` says what one level of its statement looks like: which names its sources have,
  and which of them stands in front of which column.
* `Query.namesLevel_of_runs` is that every level of the statement looks so.
-/

namespace SqlTree

/-! ## Requests without occurrences -/

/-- No column that is written has an occurrence. -/
def Expr.IsBare (e : Expr Alias) : Prop := ∀ o ∈ e.owners, o = none

/-- Neither a star nor a column of an item has an occurrence. -/
def SelectItem.IsBare (i : SelectItem Alias) : Prop := ∀ o ∈ i.owners, o = none

/-- A request that was not qualified, on a source that is no occurrence, in whose clauses no column
has one. Filters and groups that depend on the schema count as what they are on the given one. -/
structure Query.IsPlainNode (db : Schema) (q : Query) : Prop where
  unnamed : q.IsUnnamed
  selection : ∀ i ∈ q.clauses.selection, i.IsBare
  filter : ∀ l ∈ q.clauses.filter?, ∀ e, l.resolve db = .ok e → e.IsBare
  group : ∀ es, groupTerms db q.clauses.group? = .ok es → ∀ e ∈ es, e.IsBare
  having : ∀ e ∈ q.clauses.having?, e.IsBare
  order : ∀ e ∈ q.clauses.order.exprs, e.IsBare

/-- A request in whose tree no occurrence is mentioned. -/
def Query.IsPlain (db : Schema) (q : Query) : Prop := q.Everywhere (Query.IsPlainNode db)

/-! ## Levels with names -/

/-- A table is written as itself, a nested request as a selection. -/
inductive Source.IsWrittenAs : Source → FromItem → Prop
  | table {name : String} {alias? : Option Alias} {name? : Option String} :
      Source.IsWrittenAs (.table name alias?) (.table name name?)
  | nested {query : Query} {alias? : Option Alias} {t : Select} {name? : Option String} :
      Source.IsWrittenAs (.nested query alias?) (.select t name?)

/-- What stands in front of the columns of a source at the level of `q`: its name when there are
joins, and nothing when the source is the only one. -/
def Query.shownName? (q : Query) (name : String) : Option String :=
  if q.joins.isEmpty then none else some name

/-- The requests of a level, each with the name of its source. -/
def Query.namedNodes (q : Query) (name : String) (sites : List (Site String)) :
    List (Query × String) :=
  (q, name) :: sites.map fun site => (site.query, site.right)

/-- What a level of a statement looks like, when `name` is the name of the source of its request and
`sites` are the joins with the names of their parents and their own.

The sources are written in order, and with joins they go by these names, which differ in more than
ASCII case. Every star and column stands behind what `Query.shownName?` gives for the request that
it is written in. A join is joined on the comparisons of its link, between its own source and that
of its parent, and behind them the terms of its filter; it has no group of its own. -/
structure Query.NamesLevel (db : Schema) (q : Query) (t : Select) (name : String)
    (sites : List (Site String)) : Prop where
  placed : JoinSites name q.joins sites
  sources : List.Forall₂ Source.IsWrittenAs (q.nodes.map (·.source)) t.fromItems
  exposed : q.joins ≠ [] →
    t.fromItems.map (·.name?) = (q.namedNodes name sites).map (some ·.2)
  distinct : (q.namedNodes name sites).Pairwise fun p p' =>
    Text.asciiLower p.2 ≠ Text.asciiLower p'.2
  items : t.items = (q.namedNodes name sites).flatMap fun p =>
    p.1.clauses.selection.map (·.mapOwners fun _ => q.shownName? p.2)
  filter : Option.Rel (fun l e' => ∃ e, l.resolve db = .ok e ∧
    e' = e.mapOwners fun _ => q.shownName? name) q.clauses.filter? t.filter?
  group : ∃ es, groupTerms db q.clauses.group? = .ok es ∧
    t.group = es.map (·.mapOwners fun _ => q.shownName? name)
  having : t.having? = q.clauses.having?.map (·.mapOwners fun _ => q.shownName? name)
  order : t.order.map (·.expr) = (q.namedNodes name sites).flatMap fun p =>
    p.1.clauses.order.exprs.map (·.mapOwners fun _ => q.shownName? p.2)
  joins : List.Forall₂ (fun site item => ∃ pairs terms,
    site.join.link.key.resolve db = .ok pairs ∧ pairs ≠ [] ∧
    filterTerms db site.query.clauses.filter? = .ok terms ∧
    item.on.conjuncts = pairs.map (site.join.link.comparison site.left site.right) ++
      terms.map (·.mapOwners fun _ => some site.right)) sites t.joins
  ungrouped : ∀ site ∈ sites,
    site.query.clauses.group? = none ∧ site.query.clauses.having? = none

/-! ## Columns of a plain request -/

theorem Expr.IsBare.mapOwners_qualified {e : Expr Alias} (he : e.IsBare) (owner : Alias)
    (g : Option Alias → Option String) :
    (e.qualified owner).mapOwners g = e.mapOwners fun _ => g (some owner) := by
  rw [e.mapOwners_qualified]
  refine e.mapOwners_congr fun o ho => ?_
  rw [he o ho]
  rfl

theorem SelectItem.IsBare.mapOwners_qualified {i : SelectItem Alias} (hi : i.IsBare) (owner : Alias)
    (g : Option Alias → Option String) :
    (i.qualified owner).mapOwners g = i.mapOwners fun _ => g (some owner) := by
  rw [i.mapOwners_qualified]
  refine i.mapOwners_congr fun o ho => ?_
  rw [hi o ho]
  rfl

theorem Expr.mem_owners_of_mem_list {es : List (Expr Alias)} {e : Expr Alias} {o : Option Alias}
    (he : e ∈ es) (ho : o ∈ e.owners) : o ∈ listOwners es := by
  induction es with
  | nil => cases he
  | cons e' es ih =>
    rw [listOwners, List.mem_append]
    rcases List.mem_cons.1 he with rfl | he
    · exact .inl ho
    · exact .inr (ih he)

theorem Expr.IsBare.conjuncts {e : Expr Alias} (he : e.IsBare) : ∀ t ∈ e.conjuncts, t.IsBare := by
  intro t ht o ho
  cases e with
  | conj terms => exact he o (mem_owners_of_mem_list ht ho)
  | _ =>
    obtain rfl := List.mem_singleton.1 ht
    exact he o ho

theorem map_mapOwners_qualified {es : List (Expr Alias)} (hes : ∀ e ∈ es, e.IsBare) (owner : Alias)
    (g : Option Alias → Option String) :
    (es.map (·.qualified owner)).map (·.mapOwners g) =
      es.map (·.mapOwners fun _ => g (some owner)) := by
  rw [List.map_map]
  exact List.map_congr_left fun e he => (hes e he).mapOwners_qualified owner g

/-! ## Nodes of a plain request -/

namespace Query.IsPlainNode

variable {db : Schema} {p p' : Query} {owner : Alias}

theorem owner_eq (hp : p.IsPlainNode db) (h : p.QualifiedBy owner p') :
    p'.source.alias? = some owner := by
  rw [h.source.alias?_eq, hp.unnamed.2]
  rfl

variable (g : Option Alias → Option String)

theorem selection_eq (hp : p.IsPlainNode db) (h : p.QualifiedBy owner p') :
    p'.clauses.selection.map (·.mapOwners g) =
      p.clauses.selection.map (·.mapOwners fun _ => g (some owner)) := by
  rw [h.clauses, Clauses.qualified, List.map_map]
  exact List.map_congr_left fun i hi => (hp.selection i hi).mapOwners_qualified owner g

theorem order_eq (hp : p.IsPlainNode db) (h : p.QualifiedBy owner p') :
    p'.clauses.order.exprs.map (·.mapOwners g) =
      p.clauses.order.exprs.map (·.mapOwners fun _ => g (some owner)) := by
  rw [h.clauses, Clauses.qualified, SortOrder.exprs_qualified,
    map_mapOwners_qualified hp.order owner g]

theorem having_eq (hp : p.IsPlainNode db) (h : p.QualifiedBy owner p') :
    p'.clauses.having?.map (·.mapOwners g) =
      p.clauses.having?.map (·.mapOwners fun _ => g (some owner)) := by
  have hbare := hp.having
  rw [h.clauses, Clauses.qualified]
  cases hhaving : p.clauses.having? with
  | none => rfl
  | some e =>
    rw [hhaving] at hbare
    simp only [Option.map_some, (hbare e rfl).mapOwners_qualified owner g]

/-- The filter of a node is what its columns are qualified to. -/
theorem filter_rel (hp : p.IsPlainNode db) (h : p.QualifiedBy owner p')
    {filter? : Option (Expr String)}
    (hfilter : Option.Rel (fun l e' => ∃ e, l.resolve db = .ok e ∧ e' = e.mapOwners g)
      p'.clauses.filter? filter?) :
    Option.Rel (fun l e' => ∃ e, l.resolve db = .ok e ∧ e' = e.mapOwners fun _ => g (some owner))
      p.clauses.filter? filter? := by
  have hbare := hp.filter
  rw [h.clauses, Clauses.qualified] at hfilter
  cases hl : p.clauses.filter? with
  | none =>
    rw [hl] at hfilter
    cases hfilter
    exact .none
  | some l =>
    rw [hl] at hfilter hbare
    cases hfilter with
    | some hrel =>
      obtain ⟨e, he, rfl⟩ := hrel
      rw [Lookup.resolve_map] at he
      obtain ⟨e, hresolve, rfl⟩ := map_eq_ok.1 he
      exact .some ⟨e, hresolve, (hbare l rfl e hresolve).mapOwners_qualified owner g⟩

theorem filterTerms_eq (hp : p.IsPlainNode db) (h : p.QualifiedBy owner p')
    {terms' : List (Expr Alias)} (hterms : filterTerms db p'.clauses.filter? = .ok terms') :
    ∃ terms, filterTerms db p.clauses.filter? = .ok terms ∧
      terms'.map (·.mapOwners g) = terms.map (·.mapOwners fun _ => g (some owner)) := by
  rw [h.clauses, Clauses.filterTerms_qualified] at hterms
  obtain ⟨terms, hresolved, rfl⟩ := map_eq_ok.1 hterms
  refine ⟨terms, hresolved, map_mapOwners_qualified ?_ owner g⟩
  cases hl : p.clauses.filter? with
  | none =>
    rw [hl] at hresolved
    obtain rfl := Except.ok.inj hresolved
    simp
  | some l =>
    rw [hl] at hresolved
    obtain ⟨e, he, rfl⟩ := map_eq_ok.1 hresolved
    exact (hp.filter l hl e he).conjuncts

theorem group_eq (hp : p.IsPlainNode db) (h : p.QualifiedBy owner p') {es' : List (Expr Alias)}
    (hgroup : groupTerms db p'.clauses.group? = .ok es') :
    ∃ es, groupTerms db p.clauses.group? = .ok es ∧
      es'.map (·.mapOwners g) = es.map (·.mapOwners fun _ => g (some owner)) := by
  have hbare := hp.group
  rw [h.clauses, Clauses.qualified] at hgroup
  cases hl : p.clauses.group? with
  | none =>
    rw [hl] at hgroup
    obtain rfl := Except.ok.inj hgroup
    exact ⟨[], rfl, rfl⟩
  | some l =>
    rw [hl] at hgroup hbare
    obtain ⟨es, hes, rfl⟩ := map_eq_ok.1 hgroup
    exact ⟨es, hes, map_mapOwners_qualified (hbare es hes) owner g⟩

end Query.IsPlainNode

/-! ## One level -/

/-- The name of an occurrence in the statement, and the empty text for one that has none. -/
def Context.nameOf (c : Context) (a : Alias) : String := (c.name a).toOption.getD ""

theorem Context.name_eq_nameOf {c : Context} {a : Alias} {x : String} (h : c.name a = .ok x) :
    c.nameOf a = x := by
  rw [nameOf, h]
  rfl

/-- Different occurrences are known by different names. -/
def Context.IsDistinct (c : Context) : Prop :=
  ∀ a b x y, c.forest.root a ≠ c.forest.root b → c.name a = .ok x → c.name b = .ok y →
    Text.asciiLower x ≠ Text.asciiLower y

section

variable {c : Context} {q q' : Query} {own : Alias} {sites sites' : List (Site Alias)} {t : Select}

/-- Shown at a level is the name of the occurrence, and it is shown when there are joins. -/
theorem Query.IsWritten.written_eq (hw : q'.IsWritten c own sites' t)
    (hroots : (q'.levelAliases.map c.forest.root).Nodup) (hjoins : q.joins = [] ↔ q'.joins = [])
    (a : Alias) (hname : q.joins ≠ [] → ∃ x, c.name a = .ok x) :
    (q'.scope c).written (some a) = q.shownName? (c.nameOf a) := by
  have hshows := hw.showsNames_iff hroots
  by_cases hq : q.joins = []
  · have hhidden : (q'.scope c).showsNames = false := by
      have hnot : ¬ (q'.scope c).showsNames = true := fun h => hshows.1 h (hjoins.1 hq)
      simpa using hnot
    rw [Scope.written, hhidden, shownName?, hq]
    rfl
  · obtain ⟨x, hx⟩ := hname hq
    have hshown : (q'.scope c).showsNames = true := hshows.2 (hjoins.not.1 hq)
    have hcontext : (q'.scope c).context.name a = .ok x := hx
    have hsome : ¬ q.joins.isEmpty := by simpa using hq
    rw [Scope.written, if_pos hshown, hcontext, shownName?, if_neg hsome, c.name_eq_nameOf hx]
    rfl

theorem Source.isWrittenAs {s s' : Source} {sc : Scope} {item : FromItem} {owner : Alias}
    (hs : s.Qualified owner s') (h : s'.toFromItem c sc = .ok item) : s.IsWrittenAs item := by
  cases hs with
  | table =>
    simp only [toFromItem, bind_eq_ok, pure_eq_ok] at h
    obtain ⟨name?, -, rfl⟩ := h
    exact .table
  | nested =>
    simp only [toFromItem, bind_eq_ok, pure_eq_ok] at h
    obtain ⟨t, -, name?, -, rfl⟩ := h
    exact .nested

theorem Query.namedNodes_names (q : Query) (m : Alias → String) (own : Alias)
    (sites : List (Site Alias)) :
    (q.namedNodes (m own) (sites.map (·.map m))).map (·.2) =
      (own :: sites.map (·.right)).map m := by
  simp [namedNodes, Site.map, Function.comp_def]

/-- A site of a plain request, and what qualifying made of it. -/
structure Site.PlainQualified (db : Schema) (site site' : Site Alias) : Prop where
  left : site'.left = site.left
  right : site'.right = site.right
  link : site'.join.link = site.join.link
  plain : site.query.IsPlainNode db
  made : site.query.QualifiedBy site.right site'.query

/-- A level of a plain request, and what qualifying made of it. -/
structure PlainLevel (c : Context) (q q' : Query) (own : Alias) (sites sites' : List (Site Alias))
    (t : Select) : Prop where
  written : q'.IsWritten c own sites' t
  plain : q.IsPlainNode c.schema
  made : q.QualifiedBy own q'
  placed : JoinSites own q.joins sites
  sites : List.Forall₂ (Site.PlainQualified c.schema) sites sites'
  roots : (q'.levelAliases.map c.forest.root).Nodup

/-- The level of a plain request is a plain level. -/
theorem Query.IsWritten.plainLevel (hw : q'.IsWritten c own sites' t) (hq : q.Qualified q')
    (hplain : q.IsPlain c.schema) (hroots : (q'.levelAliases.map c.forest.root).Nodup) :
    ∃ sites, PlainLevel c q q' own sites sites' t := by
  obtain ⟨owner, hmade⟩ := hq.made_by hplain.self.unnamed.1
  have howner := hplain.self.owner_eq hmade
  obtain rfl : own = owner := Option.some.inj (hw.occurrence.symm.trans howner)
  have hunnamed : joinsEverywhere IsUnnamed q.joins :=
    joinsEverywhere_mono (fun _ h => h.unnamed) q.joins hplain.joins
  obtain ⟨sites, hplaced, hsites⟩ := JoinsQualified.sites hw.placed hmade.joins hunnamed
  refine ⟨sites, hw, hplain.self, hmade, hplaced, ?_, hroots⟩
  have hplainSites : ∀ site ∈ sites, site.query.IsPlainNode c.schema := by
    intro site hsite
    have hnode : site.query ∈ joinsNodes q.joins := by
      rw [← hplaced.queries]
      exact List.mem_map_of_mem hsite
    exact (joinsEverywhere_of_mem_nodes q.joins hplain.joins _ hnode).self
  have hoccurrences : ∀ site' ∈ sites', site'.query.source.alias? = some site'.right := by
    intro site' hsite'
    obtain ⟨item, -, hitem⟩ := exists_of_forall₂ hw.joins hsite'
    exact hitem.occurrence
  have hboth := (List.forall₂_and_left sites sites').2 ⟨hplainSites, hsites⟩
  have hall := (List.forall₂_and_left sites' sites).2 ⟨hoccurrences, hboth.flip⟩
  refine hall.flip.imp fun site site' ⟨hoccurrence, hp, hqualified⟩ => ?_
  obtain ⟨owner, hby⟩ := hqualified.query.made_by hp.unnamed.1
  have hown := hp.owner_eq hby
  obtain rfl : site'.right = owner := Option.some.inj (hoccurrence.symm.trans hown)
  have hright := hqualified.right
  refine ⟨hqualified.left, hright, ?_, hp, hright ▸ hby⟩
  rw [hqualified.join]

namespace PlainLevel

variable (h : PlainLevel c q q' own sites sites' t)

include h

theorem rights_eq : sites'.map (·.right) = sites.map (·.right) :=
  (map_eq_of_forall₂ (h.sites.imp fun _ _ hsite => hsite.right.symm)).symm

theorem named (hq : q.joins ≠ []) :
    List.Forall₂ (fun a item => ∃ x, c.name a = .ok x ∧ item.name? = some x)
      (own :: sites.map (·.right)) t.fromItems := by
  have hshown := (h.written.showsNames_iff h.roots).2 (h.made.joins.eq_nil_iff.not.1 hq)
  rw [← h.rights_eq]
  exact h.written.exposed hshown

theorem written_eq : ∀ a ∈ own :: sites.map (·.right),
    (q'.scope c).written (some a) = q.shownName? (c.nameOf a) := by
  intro a ha
  refine h.written.written_eq h.roots h.made.joins.eq_nil_iff a fun hq => ?_
  obtain ⟨item, -, x, hx, -⟩ := exists_of_forall₂ (h.named hq) ha
  exact ⟨x, hx⟩

/-- The nodes of a level with the names of their sources, and what qualifying made of them. -/
theorem nodes : List.Forall₂ (fun (p : Query × String) p' => ∃ a, p.1.IsPlainNode c.schema ∧
    p.1.QualifiedBy a p' ∧ (q'.scope c).written (some a) = q.shownName? p.2)
      (q.namedNodes (c.nameOf own) (sites.map (·.map c.nameOf))) q'.nodes := by
  have hwritten := h.written_eq
  have hown := hwritten own List.mem_cons_self
  rw [h.written.nodes_eq, Query.namedNodes]
  refine .cons ⟨own, h.plain, h.made, hown⟩ ?_
  rw [List.map_map, List.forall₂_map_left_iff, List.forall₂_map_right_iff]
  have hshown : ∀ site ∈ sites,
      (q'.scope c).written (some site.right) = q.shownName? (c.nameOf site.right) :=
    fun site hsite => hwritten _ (List.mem_cons_of_mem _ (List.mem_map_of_mem hsite))
  have hboth := (List.forall₂_and_left sites sites').2 ⟨hshown, h.sites⟩
  refine hboth.imp fun site site' ⟨hsite, hqualified⟩ => ?_
  exact ⟨site.right, hqualified.plain, hqualified.made, hsite⟩

theorem exposed (hq : q.joins ≠ []) : t.fromItems.map (·.name?) =
    (q.namedNodes (c.nameOf own) (sites.map (·.map c.nameOf))).map (some ·.2) := by
  have hnames := q.namedNodes_names c.nameOf own sites
  have hall := h.named hq
  have hitems : ∀ {as : List Alias} {items : List FromItem},
      List.Forall₂ (fun a item => ∃ x, c.name a = .ok x ∧ item.name? = some x) as items →
        items.map (·.name?) = (as.map c.nameOf).map some := by
    intro as items hrel
    induction hrel with
    | nil => rfl
    | cons hx _ ih =>
      obtain ⟨x, hname, hitem⟩ := hx
      rw [List.map_cons, List.map_cons, List.map_cons, ih, hitem, Context.name_eq_nameOf hname]
  rw [hitems hall, ← hnames, List.map_map]
  rfl

theorem distinct (hc : c.IsDistinct) :
    (q.namedNodes (c.nameOf own) (sites.map (·.map c.nameOf))).Pairwise fun p p' =>
      Text.asciiLower p.2 ≠ Text.asciiLower p'.2 := by
  have hroots := h.roots
  rw [h.written.levelAliases_eq, h.rights_eq] at hroots
  have hpairs : (own :: sites.map (·.right)).Pairwise
      fun a b => c.forest.root a ≠ c.forest.root b := List.pairwise_map.1 hroots
  have hnames : ((own :: sites.map (·.right)).map c.nameOf).Pairwise fun x y =>
      Text.asciiLower x ≠ Text.asciiLower y := by
    rw [List.pairwise_map]
    by_cases hq : q.joins = []
    · rw [h.placed.eq_nil_iff.2 hq]
      exact List.pairwise_singleton _ own
    · refine hpairs.imp_of_mem fun {a b} ha hb hne => ?_
      obtain ⟨_, -, x, hx, -⟩ := exists_of_forall₂ (h.named hq) ha
      obtain ⟨_, -, y, hy, -⟩ := exists_of_forall₂ (h.named hq) hb
      rw [Context.name_eq_nameOf hx, Context.name_eq_nameOf hy]
      exact hc a b x y hne hx hy
  rw [← q.namedNodes_names, List.pairwise_map] at hnames
  exact hnames

/-- The nodes of a level, each with what qualifying made of it and what its source is written
as. -/
theorem nodeSources : List.Forall₂ (fun p item => ∃ a p', p' ∈ q'.nodes ∧
    Query.QualifiedBy a p p' ∧ p'.source.toFromItem c (q'.scope c) = .ok item)
      q.nodes t.fromItems := by
  have hq : q.nodes = q :: sites.map (·.query) := by
    rw [Query.nodes_eq, h.placed.queries]
  have hnodes : List.Forall₂ (fun p p' => ∃ a, Query.QualifiedBy a p p') q.nodes q'.nodes := by
    rw [hq, h.written.nodes_eq]
    refine .cons ⟨own, h.made⟩ ?_
    rw [List.forall₂_map_left_iff, List.forall₂_map_right_iff]
    exact h.sites.imp fun site _ hsite => ⟨site.right, hsite.made⟩
  have hsources := (List.forall₂_and_left q'.nodes t.fromItems).2 ⟨fun _ hp => hp, h.written.sources⟩
  refine forall₂_comp ?_ hnodes hsources
  rintro p p' item ⟨a, hby⟩ ⟨hp', hitem⟩
  exact ⟨a, p', hp', hby, hitem⟩

theorem sources : List.Forall₂ Source.IsWrittenAs (q.nodes.map (·.source)) t.fromItems := by
  rw [List.forall₂_map_left_iff]
  apply h.nodeSources.imp
  rintro p item ⟨a, p', -, hby, hitem⟩
  exact Source.isWrittenAs hby.source hitem

theorem items : t.items = (q.namedNodes (c.nameOf own) (sites.map (·.map c.nameOf))).flatMap
    fun p => p.1.clauses.selection.map (·.mapOwners fun _ => q.shownName? p.2) := by
  rw [h.written.items_eq, Query.items_eq, List.map_flatMap]
  symm
  refine flatMap_eq_of_forall₂ ?_ h.nodes
  rintro p p' ⟨a, hplain, hby, hshown⟩
  rw [hplain.selection_eq _ hby, hshown]

theorem order : t.order.map (·.expr) =
    (q.namedNodes (c.nameOf own) (sites.map (·.map c.nameOf))).flatMap
      fun p => p.1.clauses.order.exprs.map (·.mapOwners fun _ => q.shownName? p.2) := by
  rw [Scope.order_eq_ok h.written.order, Query.fullOrder_exprs, List.map_flatMap]
  symm
  refine flatMap_eq_of_forall₂ ?_ h.nodes
  rintro p p' ⟨a, hplain, hby, hshown⟩
  rw [hplain.order_eq _ hby, hshown]

/-- What a join of a level is joined on. -/
theorem joins : List.Forall₂ (fun site item => ∃ pairs terms,
    site.join.link.key.resolve c.schema = .ok pairs ∧ pairs ≠ [] ∧
    filterTerms c.schema site.query.clauses.filter? = .ok terms ∧
    item.on.conjuncts = pairs.map (site.join.link.comparison site.left site.right) ++
      terms.map (·.mapOwners fun _ => some site.right))
      (sites.map (·.map c.nameOf)) t.joins := by
  have hshown : ∀ site ∈ sites, (q'.scope c).written (some site.left) = some (c.nameOf site.left) ∧
      (q'.scope c).written (some site.right) = some (c.nameOf site.right) := by
    intro site hsite
    have hq : ¬ q.joins.isEmpty := by
      have hne : q.joins ≠ [] := fun hq => by
        rw [h.placed.eq_nil_iff.2 hq] at hsite
        cases hsite
      simpa using hne
    have hright : site.right ∈ own :: sites.map (·.right) :=
      List.mem_cons_of_mem _ (List.mem_map_of_mem hsite)
    rw [h.written_eq _ (h.placed.left_mem site hsite), h.written_eq _ hright, Query.shownName?,
      Query.shownName?, if_neg hq, if_neg hq]
    exact ⟨rfl, rfl⟩
  rw [List.forall₂_map_left_iff]
  have hboth := (List.forall₂_and_left sites sites').2 ⟨hshown, h.sites⟩
  refine forall₂_comp ?_ hboth h.written.joins
  rintro site site' item ⟨⟨hleft, hright⟩, hqualified⟩ hitem
  obtain ⟨pairs, terms', hpairs, hsome, hterms', hconjuncts⟩ := Scope.on_eq_ok hitem.on
  obtain ⟨terms, hterms, hmapped⟩ :=
    hqualified.plain.filterTerms_eq (q'.scope c).written hqualified.made hterms'
  refine ⟨pairs, terms, ?_, hsome, hterms, ?_⟩
  · rw [← hpairs, hqualified.link]
    rfl
  · have hcomparison : ∀ p, (site.join.link.comparison site.left site.right p).mapOwners
        (q'.scope c).written =
          site.join.link.comparison (c.nameOf site.left) (c.nameOf site.right) p :=
      fun p => JoinLink.mapOwners_comparison hleft hright site.join.link p
    rw [hconjuncts, List.map_append, hmapped, hqualified.left, hqualified.right, hqualified.link,
      hright, List.map_map]
    congr 1
    exact List.map_congr_left fun p _ => hcomparison p

theorem ungrouped : ∀ site ∈ sites.map (·.map c.nameOf),
    site.query.clauses.group? = none ∧ site.query.clauses.having? = none := by
  intro named hnamed
  obtain ⟨site, hsite, rfl⟩ := List.mem_map.1 hnamed
  obtain ⟨site', hsite', hqualified⟩ := exists_of_forall₂ h.sites hsite
  obtain ⟨item, -, hitem⟩ := exists_of_forall₂ h.written.joins hsite'
  have hjoinable := hitem.joinable
  rw [hqualified.made.clauses] at hjoinable
  obtain ⟨hgroup, hhaving, -⟩ := Clauses.of_joinable hjoinable
  exact ⟨Option.map_eq_none_iff.1 hgroup, Option.map_eq_none_iff.1 hhaving⟩

/-- **One level of the statement of a plain request.** -/
theorem namesLevel (hc : c.IsDistinct) :
    q.NamesLevel c.schema t (c.nameOf own) (sites.map (·.map c.nameOf)) := by
  have hown := h.written_eq own List.mem_cons_self
  refine ⟨h.placed.map c.nameOf, h.sources, h.exposed, h.distinct hc, h.items, ?_, ?_, ?_, h.order,
    h.joins, h.ungrouped⟩
  · have hfilter := h.plain.filter_rel (q'.scope c).written h.made
      (optionRel_imp (fun _ _ => Scope.filter_eq_ok) h.written.filter)
    rw [hown] at hfilter
    exact hfilter
  · obtain ⟨es', hes', hgroup⟩ := Scope.group_eq_ok h.written.group
    obtain ⟨es, hes, hmapped⟩ := h.plain.group_eq (q'.scope c).written h.made hes'
    rw [hown] at hmapped
    exact ⟨es, hes, hgroup.trans hmapped⟩
  · have hhaving : t.having? = q'.clauses.having?.map (·.mapOwners (q'.scope c).written) := by
      refine eq_map_of_optionRel (fun e e' he => ?_) h.written.having
      exact e.eq_mapOwners (fun _ _ => Scope.eq_written) he
    rw [hhaving, h.plain.having_eq _ h.made, hown]

end PlainLevel

end

/-! ## All levels -/

/-- A level of the statement of a plain request: what qualifying made of its request is written as
it, and the occurrences in there are some of those of the statement. -/
structure ReachedLevel (c : Context) (top' p : Query) (u : Select) (p' : Query) : Prop where
  plain : p.IsPlain c.schema
  qualified : p.Qualified p'
  written : p'.toSelect c = .ok u
  aliases : p'.statementAliases.Sublist top'.statementAliases

section

variable {c : Context} {top top' p p' : Query} {t u : Select}

theorem ReachedLevel.plainLevel (h : ReachedLevel c top' p u p')
    (hroots : (top'.statementAliases.map c.forest.root).Nodup) :
    ∃ own sites sites', PlainLevel c p p' own sites sites' u := by
  obtain ⟨⟨own, sites', hw⟩, -⟩ := Query.toSelect_isWritten h.written
  have hlevel := (p'.levelAliases_sublist.trans h.aliases).map c.forest.root
  obtain ⟨sites, hplain⟩ := hw.plainLevel h.qualified h.plain (hlevel.nodup hroots)
  exact ⟨own, sites, sites', hplain⟩

/-- From level to nested level. -/
theorem ReachedLevel.nested (h : ReachedLevel c top' p u p')
    (hroots : (top'.statementAliases.map c.forest.root).Nodup) {inner : Query} {v : Select}
    {alias? : Option Alias} {name? : Option String}
    (hmem : (Source.nested inner alias?, FromItem.select v name?) ∈
      (p.nodes.map (·.source)).zip u.fromItems) :
    ∃ inner', ReachedLevel c top' inner v inner' := by
  obtain ⟨own, sites, sites', hlevel⟩ := h.plainLevel hroots
  have hnodes := (List.forall₂_and_left p.nodes u.fromItems).2
    ⟨Query.Everywhere.of_mem_nodes p h.plain, hlevel.nodeSources⟩
  have hsources : List.Forall₂ (fun s item => s.Everywhere (Query.IsPlainNode c.schema) ∧
      ∃ a p₁, p₁ ∈ p'.nodes ∧ s.Qualified a p₁.source ∧
        p₁.source.toFromItem c (p'.scope c) = .ok item) (p.nodes.map (·.source)) u.fromItems := by
    rw [List.forall₂_map_left_iff]
    apply hnodes.imp
    rintro node item ⟨hplain, a, p₁, hp₁, hby, hitem⟩
    exact ⟨hplain.source, a, p₁, hp₁, hby.source, hitem⟩
  obtain ⟨hplain, a, p₁, hp₁, hqualified, hitem⟩ := (List.forall₂_iff_zip.1 hsources).2 hmem
  cases hsource : p₁.source with
  | table name own? =>
    rw [hsource] at hqualified
    cases hqualified
  | nested inner' own? =>
    rw [hsource] at hqualified hitem
    simp only [Source.toFromItem, bind_eq_ok, pure_eq_ok] at hitem
    obtain ⟨v', hv', name', -, heq⟩ := hitem
    injection heq with hv
    subst hv
    refine ⟨inner', hplain, ?_, hv', (Query.nested_sublist hp₁ hsource).trans h.aliases⟩
    cases hqualified with
    | nested _ hinner => exact hinner

/-- From the top level to every level. -/
theorem Level.reached (hroots : (top'.statementAliases.map c.forest.root).Nodup)
    (htop : ReachedLevel c top' top t top') (h : Level top t p u) :
    ∃ p', ReachedLevel c top' p u p' := by
  induction h with
  | top => exact ⟨_, htop⟩
  | nested _ hmem ih =>
    obtain ⟨p', hp'⟩ := ih htop
    exact hp'.nested hroots hmem

end

/-- **Every level of the statement of a request without occurrences shows the names of its sources,
and only where there are several.** -/
theorem Query.namesLevel_of_runs {db : Schema} {q : Query} (hq : q.IsPlain db)
    {f g : Forest} {st : Statement} (h : AliasM.Runs (q.selectStatement db) f st g) :
    ∃ t : Select, st = t.fragment.statement ∧
      ∀ p u, Level q t p u → ∃ name sites, p.NamesLevel db u name sites := by
  simp only [selectStatement, AliasM.runs_bind, AliasM.runs_pure, AliasM.runs_read] at h
  obtain ⟨q', f', hqualify, t, f'', ⟨hselect, rfl⟩, rfl, rfl⟩ := h
  obtain ⟨c, hc, ht⟩ := bind_eq_ok.1 hselect
  obtain ⟨rfl, rfl, -⟩ := Context.ofQuery_eq_ok hc
  have hdistinct : c.IsDistinct := fun a b x y hne ha hb => Context.name_ne hc hne ha hb
  have hgrows := q.qualify_grows (Everywhere.mono (fun _ hp => hp.unnamed) q hq) hqualify
  have hroots : (q'.statementAliases.map c.forest.root).Nodup := by
    rw [List.map_congr_left fun a ha => hgrows.root_eq ha, List.map_id']
    exact hgrows.nodup
  have htop : ReachedLevel c q' q t q' :=
    ⟨hq, q.qualify_qualified hqualify, ht, List.Sublist.refl _⟩
  refine ⟨t, rfl, fun p u hlevel => ?_⟩
  obtain ⟨p', hp'⟩ := hlevel.reached hroots htop
  obtain ⟨own, sites, sites', hplain⟩ := hp'.plainLevel hroots
  exact ⟨_, _, hplain.namesLevel hdistinct⟩

/-- A request with a selection, a filter and joins is plain when its columns are. -/
theorem Query.isPlainNode_of_items {db : Schema} {source : Source} {items : List (SelectItem Alias)}
    {filter? : Option (Expr Alias)} (joins : List Join) (hsource : source.alias? = none)
    (hitems : ∀ i ∈ items, i.IsBare) (hfilter : ∀ e ∈ filter?, e.IsBare) :
    Query.IsPlainNode db
      ⟨source, { selection := items, filter? := filter?.map .const }, joins, false⟩ := by
  refine ⟨⟨rfl, hsource⟩, hitems, ?_, ?_, ?_, ?_⟩
  · intro l hl e he
    obtain ⟨e', he', rfl⟩ := Option.map_eq_some_iff.1 hl
    obtain rfl := Except.ok.inj he
    exact hfilter e' he'
  · intro es hes
    obtain rfl := Except.ok.inj hes
    simp
  · simp
  · simp [SortOrder.empty, SortOrder.exprs, SortOrder.elementsExprs]

theorem Query.booksOfSameAuthor_isPlain (db : Schema) : booksOfSameAuthor.IsPlain db := by
  have hstar : ∀ i ∈ [SelectItem.star none], i.IsBare := by
    simp [SelectItem.IsBare, SelectItem.owners]
  have htitle : ∀ i ∈ [SelectItem.expr (.col "title") none], i.IsBare := by
    simp [SelectItem.IsBare, SelectItem.owners, Expr.col, Expr.owners]
  have hfilter : ∀ e ∈ some (Expr.binary .eq (.col "title") (.value (.text "Emma"))), e.IsBare := by
    simp [Expr.IsBare, Expr.col, Expr.owners]
  have hnone : ∀ e ∈ (none : Option (Expr Alias)), e.IsBare := by simp
  refine ⟨isPlainNode_of_items _ rfl hstar hfilter, ⟨isPlainNode_of_items _ rfl hstar hnone, trivial,
    ⟨isPlainNode_of_items _ rfl (by simp) hnone, trivial,
      ⟨isPlainNode_of_items _ rfl htitle hnone, trivial, trivial⟩, trivial⟩, trivial⟩, trivial⟩

end SqlTree
