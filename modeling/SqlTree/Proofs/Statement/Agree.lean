import SqlTree.Proofs.Query.Count
import SqlTree.Proofs.Query.Over
import SqlTree.Proofs.Query.Skip
import SqlTree.Proofs.Row.LaidOut
import SqlTree.Proofs.Statement.Mentions
import SqlTree.Proofs.Statement.Rename

/-!
# Statements in forests that agree

A statement is compiled against a forest and the names of its sources there. Where two forests agree
on the identities of a request, its sources get the same names in both, and the request becomes the
same statement, or none for the same reason.

* `Forest.Agree.occurrences` and `Context.agree_ofQuery`: names of the same sources are the same.
* `Query.toSelect_agree`, `Query.toDelete_agree` and `Query.laidOutAs_relabel`: what is written with
  these names is the same, and so is the layout of the rows.
* `Query.selectStatement_agrees`, `Query.deleteStatement_agrees` and `Query.prepare_agrees` put
  qualifying in front: a request over known identities compiles to one result in forests that agree
  on them.
-/

namespace SqlTree

variable {m : Alias → Alias} {known : Alias → Prop} {f g : Forest} {db : Schema} {q : Query}

/-! ## Names of the same sources -/

/-- Roots in two forests that tell apart the same identities are listed alike. -/
theorem forall₂_eraseDups {r s : Alias → Alias} : ∀ as : List Alias,
    (∀ a ∈ as, ∀ b ∈ as, s a = s b ↔ r a = r b) →
      List.Forall₂ (fun x y => ∃ a ∈ as, x = r a ∧ y = s a) (as.map r).eraseDups
        (as.map s).eraseDups
  | [], _ => .nil
  | a :: as, h => by
    have hothers : as.filter (fun b => !s b == s a) = as.filter (fun b => !r b == r a) := by
      refine List.filter_congr fun b hb => ?_
      rw [Bool.not_inj_iff, Bool.eq_iff_iff, beq_iff_eq, beq_iff_eq]
      exact h b (List.mem_cons_of_mem a hb) a List.mem_cons_self
    have hrest := forall₂_eraseDups (r := r) (s := s) (as.filter fun b => !r b == r a)
      fun b hb c hc => h b (List.mem_cons_of_mem a (List.mem_of_mem_filter hb)) c
        (List.mem_cons_of_mem a (List.mem_of_mem_filter hc))
    rw [List.map_cons, List.map_cons, List.eraseDups_cons, List.eraseDups_cons, List.filter_map,
      List.filter_map]
    refine .cons ⟨a, List.mem_cons_self, rfl, rfl⟩ ?_
    change List.Forall₂ _ ((as.filter fun b => !r b == r a).map r).eraseDups
      ((as.filter fun b => !s b == s a).map s).eraseDups
    rw [hothers]
    refine hrest.imp ?_
    rintro x y ⟨b, hb, hx, hy⟩
    exact ⟨b, List.mem_cons_of_mem a (List.mem_of_mem_filter hb), hx, hy⟩
termination_by as => as.length
decreasing_by exact Nat.lt_succ_of_le (List.length_filter_le _ _)

/-- Occurrences in two forests that are named alike: they go by one name, which the user gave to
both or to none, and they are those of one identity. -/
structure Occurrence.Alike (m : Alias → Alias) (f g : Forest) (as : List Alias)
    (o o' : Occurrence) : Prop where
  name : o.name = o'.name
  isUserGiven : o.isUserGiven = o'.isUserGiven
  root : ∃ a ∈ as, o.root = f.root a ∧ o'.root = g.root (m a)

theorem Forest.Agree.tableName?_eq (h : Forest.Agree m known [] f g) {a : Alias} (ha : known a) :
    g.tableName? (m a) = f.tableName? a := by
  have htable := h.tableName? ha
  rwa [firstBinding, List.find?_nil, Option.map_none, Option.or_none, Option.or_none] at htable

theorem Forest.Agree.identityName?_eq (h : Forest.Agree m known [] f g) {a : Alias}
    (ha : known a) : g.identityName? (m a) = f.identityName? a := by
  rw [identityName?, identityName?, h.userName? ha, h.tableName?_eq ha]

/-- **Sources are listed alike in forests that agree.** -/
theorem Forest.Agree.occurrences (h : Forest.Agree m known [] f g) {as : List Alias}
    (has : ∀ a ∈ as, known a) :
    List.Forall₂ (Occurrence.Alike m f g as) (f.occurrences as) (g.occurrences (as.map m)) := by
  have hroots := forall₂_eraseDups (r := f.root) (s := fun a => g.root (m a)) as fun a ha b hb =>
    h.same (has a ha) (has b hb)
  rw [Forest.occurrences, Forest.occurrences, List.map_map, List.forall₂_map_left_iff,
    List.forall₂_map_right_iff]
  refine hroots.imp ?_
  rintro _ _ ⟨a, ha, rfl, rfl⟩
  have hf : f.entry (f.root a) = f.entry a := Forest.entry_root h.grounded a
  have hg : g.entry (g.root (m a)) = g.entry (m a) := Forest.entry_root h.grounded' (m a)
  have huser : g.userName? (g.root (m a)) = f.userName? (f.root a) :=
    (congrArg Entry.userName? hg).trans
      ((h.userName? (has a ha)).trans (congrArg Entry.userName? hf).symm)
  have htable : g.tableName? (g.root (m a)) = f.tableName? (f.root a) :=
    (congrArg Entry.tableName? hg).trans
      ((h.tableName?_eq (has a ha)).trans (congrArg Entry.tableName? hf).symm)
  refine ⟨?_, ?_, a, ha, rfl, rfl⟩
  · simp only [Forest.occurrence, Forest.identityName?, huser, htable]
  · simp only [Forest.occurrence, huser]

/-- What occurrences are called depends on the names they go by. -/
theorem namesFrom_alike {as : List Alias} {os os' : List Occurrence} {all : List String}
    (h : List.Forall₂ (Occurrence.Alike m f g as) os os') : ∀ {taken : List String},
      List.Forall₂ (fun p p' => p'.2 = p.2 ∧ ∃ a ∈ as, p.1 = f.root a ∧ p'.1 = g.root (m a))
        (namesFrom all taken os) (namesFrom all taken os') := by
  induction h with
  | nil => exact .nil
  | cons ho _ ih =>
    intro taken
    rw [namesFrom, namesFrom, ← ho.name, ← ho.isUserGiven]
    split
    · exact .cons ⟨rfl, ho.root⟩ ih
    · exact .cons ⟨rfl, ho.root⟩ ih

theorem lookup_eq_of_forall₂ {x y : Alias} {ps ps' : List (Alias × String)}
    (h : List.Forall₂ (fun p p' => p'.2 = p.2 ∧ (p'.1 = y ↔ p.1 = x)) ps ps') :
    ps'.lookup y = ps.lookup x := by
  induction h with
  | nil => rfl
  | @cons p p' ps ps' hp _ ih =>
    obtain ⟨a, n⟩ := p
    obtain ⟨b, n'⟩ := p'
    obtain ⟨rfl, hkey⟩ := hp
    have hbeq : (y == b) = (x == a) := by
      rw [Bool.eq_iff_iff, beq_iff_eq, beq_iff_eq]
      exact ⟨fun h => (hkey.1 h.symm).symm, fun h => (hkey.2 h.symm).symm⟩
    rw [List.lookup_cons, List.lookup_cons, hbeq, ih]

/-! ## Contexts and levels -/

/-- The contexts tell apart the same of the known identities, which `m` gives in the second one, and
these have the same names in both, or fail to have one in the same way. -/
structure Context.Agree (m : Alias → Alias) (known : Alias → Prop) (c c' : Context) : Prop where
  schema : c'.schema = c.schema
  same : ∀ {a b}, known a → known b →
    (c'.forest.root (m a) = c'.forest.root (m b) ↔ c.forest.root a = c.forest.root b)
  userName? : ∀ {a}, known a → c'.forest.userName? (m a) = c.forest.userName? a
  name : ∀ {a}, known a → c'.name (m a) = c.name a

/-- The levels are in contexts that agree, and both show names or none does. -/
structure Scope.Agree (m : Alias → Alias) (known : Alias → Prop) (s s' : Scope) : Prop where
  context : Context.Agree m known s.context s'.context
  showsNames : s'.showsNames = s.showsNames

/-- Sources that are named alike are known by the same names. -/
theorem Context.agree_of_names (h : Forest.Agree m known [] f g) {as : List Alias}
    (has : ∀ a ∈ as, known a) {names names' : List (Alias × String)}
    (hnames : List.Forall₂
      (fun p p' => p'.2 = p.2 ∧ ∃ a ∈ as, p.1 = f.root a ∧ p'.1 = g.root (m a)) names names') :
    Context.Agree m known ⟨f, db, names⟩ ⟨g, db, names'⟩ := by
  refine ⟨rfl, h.same, h.userName?, fun {a} ha => ?_⟩
  have hlookup : names'.lookup (g.root (m a)) = names.lookup (f.root a) := by
    refine lookup_eq_of_forall₂ (hnames.imp ?_)
    rintro p p' ⟨hname, b, hb, hp, hp'⟩
    rw [hp, hp']
    exact ⟨hname, h.same (has b hb) ha⟩
  rw [Context.name, Context.name, hlookup, h.identityName?_eq ha]

/-- **Statements of a request over known identities name their sources alike.** -/
theorem Context.agree_ofQuery (h : Forest.Agree m known [] f g)
    (hq : ∀ a ∈ q.statementAliases, known a) : FailsAlike (Context.Agree m known)
      (Context.ofQuery f db q) (Context.ofQuery g db (q.relabel m)) := by
  have hos := h.occurrences hq
  have hrepeated := repeatedName?_congr (hos.imp fun _ _ ho => ⟨ho.name, ho.isUserGiven⟩) []
  have hlower : List.Forall₂ (fun o o' : Occurrence => Text.lower o.name = Text.lower o'.name)
      (f.occurrences q.statementAliases) (g.occurrences (q.statementAliases.map m)) :=
    hos.imp fun _ _ ho => by rw [ho.name]
  have hall := map_eq_of_forall₂ hlower
  have hassigned : FailsAlike
      (List.Forall₂ (fun p p' => p'.2 = p.2 ∧
        ∃ a ∈ q.statementAliases, p.1 = f.root a ∧ p'.1 = g.root (m a)))
      (assignNames (f.occurrences q.statementAliases))
      (assignNames (g.occurrences (q.statementAliases.map m))) := by
    rw [assignNames, assignNames, ← hrepeated, ← hall]
    cases repeatedName? [] (f.occurrences q.statementAliases) with
    | some name => exact .failures _
    | none => exact .results (namesFrom_alike hos)
  rw [Context.ofQuery, Context.ofQuery, Query.statementAliases_relabel]
  exact hassigned.map fun names names' hnames => Context.agree_of_names h hq hnames

theorem Context.Agree.scope {c c' : Context} (h : Context.Agree m known c c') {as : List Alias}
    (has : ∀ a ∈ as, known a) : Scope.Agree m known (.ofAliases c as) (.ofAliases c' (as.map m)) := by
  refine ⟨h, ?_⟩
  have hlength := (forall₂_eraseDups (r := c.forest.root) (s := fun a => c'.forest.root (m a)) as
    fun a ha b hb => h.same (has a ha) (has b hb)).length_eq
  rw [Scope.ofAliases, Scope.ofAliases, List.map_map, hlength]
  rfl

/-! ## Clauses -/

theorem Expr.IsOver.owners {e : Expr Alias} (he : e.IsOver known) :
    ∀ o ∈ e.owners, ∀ a ∈ o, known a := by
  intro o ho a ha
  obtain ⟨c, hc, rfl⟩ := List.mem_map.1 (e.owners_subset_columns ho)
  exact he c hc a ha

/-- The condition of a link between occurrences with other identities. -/
theorem JoinLink.condition_relabel_eq (db : Schema) (link : JoinLink) (left right : Alias)
    (m : Alias → Alias) : link.condition db (m left) (m right) =
      (·.relabel m) <$> link.condition db left right := by
  cases h : link.condition db left right with
  | ok e => exact JoinLink.condition_relabel h m
  | error e =>
    rw [condition] at h ⊢
    cases hpairs : link.key.resolve db with
    | error e' =>
      rw [hpairs] at h
      exact h
    | ok pairs =>
      rw [hpairs] at h
      cases pairs with
      | nil => exact h
      | cons p pairs => cases h

namespace Scope.Agree

variable {s s' : Scope}

theorem owner? (h : Scope.Agree m known s s') {o : Option Alias} (ho : ∀ a ∈ o, known a) :
    s'.owner? (o.map m) = s.owner? o := by
  cases o with
  | none => rfl
  | some a =>
    rw [Option.map_some, Scope.owner?, Scope.owner?, h.context.name (ho a rfl), h.showsNames]

theorem written (h : Scope.Agree m known s s') {e : Expr Alias}
    (he : ∀ o ∈ e.owners, ∀ a ∈ o, known a) : s'.expr (e.relabel m) = s.expr e := by
  rw [Scope.expr, Scope.expr, e.withOwners_relabel_eq]
  exact e.withOwners_congr fun o ho => h.owner? (he o ho)

theorem expr (h : Scope.Agree m known s s') {e : Expr Alias} (he : e.IsOver known) :
    s'.expr (e.relabel m) = s.expr e := h.written he.owners

theorem item (h : Scope.Agree m known s s') {i : SelectItem Alias} (hi : i.IsOver known) :
    (i.relabel m).withOwners s'.owner? = i.withOwners s.owner? := by
  cases i with
  | star owner? =>
    rw [SelectItem.relabel, SelectItem.withOwners, SelectItem.withOwners, h.owner? hi]
  | expr e name? =>
    have he := h.expr (e := e) hi
    rw [Scope.expr, Scope.expr] at he
    rw [SelectItem.relabel, SelectItem.withOwners, SelectItem.withOwners, he]

theorem filter (h : Scope.Agree m known s s') {l : Lookup (Expr Alias)}
    (hl : ∀ db e, l.resolve db = .ok e → e.IsOver known) :
    s'.filter (l.map (·.relabel m)) = s.filter l := by
  rw [Scope.filter, Scope.filter, h.context.schema, Lookup.resolve_map]
  exact map_bind_congr fun e he => h.expr (hl _ e he)

theorem group (h : Scope.Agree m known s s') {group? : Option (Lookup (List (Expr Alias)))}
    (hgroup : ∀ l ∈ group?, ∀ db es, l.resolve db = .ok es → ∀ e ∈ es, e.IsOver known) :
    s'.group (group?.map (·.map (·.map (·.relabel m)))) = s.group group? := by
  cases group? with
  | none => rfl
  | some l =>
    rw [Option.map_some, Scope.group, Scope.group, h.context.schema, Lookup.resolve_map]
    exact map_bind_congr fun es hes => mapM_map_congr fun e he =>
      h.expr (hgroup l rfl _ es hes e he)

theorem order (h : Scope.Agree m known s s') {o : SortOrder}
    (ho : ∀ e ∈ o.exprs, e.IsOver known) : s'.order (o.relabel m) = s.order o := by
  rw [Scope.order, Scope.order, SortOrder.terms_relabel]
  refine mapM_map_congr fun t ht => ?_
  have he := h.expr (ho t.expr (o.map_expr_terms ▸ List.mem_map_of_mem ht))
  rw [Scope.expr, Scope.expr] at he
  rw [SortTerm.relabel, SortTerm.withOwners, SortTerm.withOwners, he]

theorem on (h : Scope.Agree m known s s') {link : JoinLink} {left right : Alias}
    (hleft : known left) (hright : known right) {filter? : Option (Lookup (Expr Alias))}
    (hfilter : ∀ l ∈ filter?, ∀ db e, l.resolve db = .ok e → e.IsOver known) :
    s'.on link (m left) (m right) (filter?.map (·.map (·.relabel m))) =
      s.on link left right filter? := by
  rw [Scope.on, Scope.on, h.context.schema, JoinLink.condition_relabel_eq]
  refine map_bind_congr fun condition hcondition => ?_
  have howners : ∀ o ∈ condition.owners, ∀ a ∈ o, known a := by
    intro o ho a ha
    obtain rfl := ha
    rcases (JoinLink.mem_owners_condition hcondition (some a)).1 ho with ho | ho
    · exact Option.some.inj ho ▸ hleft
    · exact Option.some.inj ho ▸ hright
  cases filter? with
  | none => exact h.written howners
  | some l =>
    simp only [Option.map_some, Lookup.resolve_map]
    refine map_bind_congr fun e he => ?_
    rw [← Expr.and_relabel]
    refine h.written ?_
    rw [Expr.owners_and]
    exact List.forall_mem_append.2 ⟨howners, (hfilter l rfl _ e he).owners⟩

theorem tableName? (h : Scope.Agree m known s s') (name : String) {a? : Option Alias}
    (ha : ∀ a ∈ a?, known a) : s'.tableName? name (a?.map m) = s.tableName? name a? := by
  cases a? with
  | none => rfl
  | some a => rw [Option.map_some, Scope.tableName?, Scope.tableName?, h.context.name (ha a rfl)]

theorem nestedName? (h : Scope.Agree m known s s') {a? : Option Alias} (ha : ∀ a ∈ a?, known a) :
    s'.nestedName? (a?.map m) = s.nestedName? a? := by
  cases a? with
  | none => rfl
  | some a =>
    rw [Option.map_some, Scope.nestedName?, Scope.nestedName?, h.context.userName? (ha a rfl),
      h.showsNames, h.context.name (ha a rfl)]

theorem deleteTail (h : Scope.Agree m known s s') {clauses : Clauses}
    (horder : ∀ e ∈ clauses.order.exprs, e.IsOver known) :
    s'.deleteTail (clauses.relabel m) = s.deleteTail clauses := by
  rw [Scope.deleteTail, Scope.deleteTail, h.context.schema, Clauses.relabel, h.order horder]

end Scope.Agree

theorem Source.occurrence_relabel_eq (source : Source) (m : Alias → Alias) :
    (source.relabel m).occurrence = m <$> source.occurrence := by
  cases source with
  | table name alias? => cases alias? <;> rfl
  | nested query alias? => cases alias? <;> rfl

/-! ## What is collected along the joins -/

section

variable {joins : List Join}

theorem joinsLevelAliases_known (h : joinsEverywhere (Query.IsNodeOver known) joins) :
    ∀ a ∈ joinsLevelAliases joins, known a := by
  intro a ha
  rw [joinsLevelAliases_eq] at ha
  obtain ⟨p, hp, ha⟩ := List.mem_flatMap.1 ha
  exact (joinsEverywhere_of_mem_nodes joins h p hp).self.source a (by simpa using ha)

theorem joinsItems_isOver (h : joinsEverywhere (Query.IsNodeOver known) joins) :
    ∀ i ∈ joinsItems joins, i.IsOver known := by
  intro i hi
  rw [joinsItems_eq] at hi
  obtain ⟨p, hp, hi⟩ := List.mem_flatMap.1 hi
  exact (joinsEverywhere_of_mem_nodes joins h p hp).self.selection i hi

theorem pushOrders_isOver (h : joinsEverywhere (Query.IsNodeOver known) joins) {o : SortOrder}
    (ho : ∀ e ∈ o.exprs, e.IsOver known) : ∀ e ∈ (pushOrders o joins).exprs, e.IsOver known := by
  rw [pushOrders_exprs]
  refine List.forall_mem_append.2 ⟨ho, fun e he => ?_⟩
  obtain ⟨p, hp, he⟩ := List.mem_flatMap.1 he
  exact (joinsEverywhere_of_mem_nodes joins h p hp).self.order e he

end

theorem Query.IsOver.statementAliases : ∀ {q : Query}, q.IsOver known →
    ∀ a ∈ q.statementAliases, known a := by
  refine fun {q} => q.nestedInduction (P := fun q => q.IsOver known →
    ∀ a ∈ q.statementAliases, known a) fun q ih hq a ha => ?_
  rw [Query.statementAliases_eq] at ha
  obtain ⟨p, hp, ha⟩ := List.mem_flatMap.1 ha
  have hover := Query.Everywhere.of_mem_nodes q hq p hp
  cases hsource : p.source with
  | table name alias? =>
    rw [hsource, Source.statementAliases, Option.mem_toList] at ha
    refine hover.self.source a ?_
    rw [hsource]
    exact ha
  | nested inner alias? =>
    rw [hsource, Source.statementAliases, List.mem_append, Option.mem_toList] at ha
    rcases ha with ha | ha
    · refine hover.self.source a ?_
      rw [hsource]
      exact ha
    · have hinner := hover.source
      rw [hsource] at hinner
      exact ih p hp inner alias? hsource hinner a ha

/-! ## Statements -/

mutual

/-- **A request over known identities is written alike in contexts that agree.** -/
theorem Query.toSelect_agree {c c' : Context} (hc : Context.Agree m known c c') : ∀ q : Query,
    q.IsOver known → (q.relabel m).toSelect c' = q.toSelect c
  | ⟨source, clauses, joins, isQualified⟩, hq => by
    have haliases : ∀ a ∈ source.alias?.toList ++ joinsLevelAliases joins, known a :=
      List.forall_mem_append.2 ⟨fun a ha => hq.self.source a (Option.mem_toList.1 ha),
        joinsLevelAliases_known hq.joins⟩
    have hitems : ∀ i ∈ clauses.selection ++ joinsItems joins, i.IsOver known :=
      List.forall_mem_append.2 ⟨hq.self.selection, joinsItems_isOver hq.joins⟩
    have hs := hc.scope haliases
    rw [List.map_append, ← Option.toList_map, ← Source.alias?_relabel,
      ← joinsLevelAliases_relabel] at hs
    rw [Query.relabel, Query.toSelect, Query.toSelect, joinsItems_relabel, Clauses.relabel,
      ← List.map_append, pushOrders_relabel]
    generalize Scope.ofAliases c (source.alias?.toList ++ joinsLevelAliases joins) = s at hs ⊢
    generalize Scope.ofAliases c' ((source.relabel m).alias?.toList ++
      joinsLevelAliases (relabelJoins m joins)) = s' at hs ⊢
    refine bind_eq_bind (mapM_map_congr fun i hi => hs.item (hitems i hi)) fun items _ => ?_
    refine ite_congr rfl (fun _ => throw_bind_congr _ _ _) fun _ => ?_
    refine bind_eq_bind (Source.toFromItem_agree hc hs source hq.self.source hq.source)
      fun item _ => ?_
    rw [Source.occurrence_relabel_eq]
    refine map_bind_congr fun left hleft => ?_
    have hknown := hq.self.source left (Source.occurrence_eq_ok.1 hleft)
    refine bind_eq_bind (joinsToItems_agree hc hs hknown true joins hq.joins) fun joined _ => ?_
    refine bind_eq_bind (optionMapM_map_congr fun l hl => hs.filter (hq.self.filter l hl))
      fun filter? _ => ?_
    refine bind_eq_bind (hs.group hq.self.group) fun group _ => ?_
    refine bind_eq_bind (optionMapM_map_congr fun e he => hs.expr (hq.self.having e he))
      fun having? _ => ?_
    exact bind_eq_bind (hs.order (pushOrders_isOver hq.joins hq.self.order)) fun order _ => rfl

theorem Source.toFromItem_agree {c c' : Context} (hc : Context.Agree m known c c')
    {s s' : Scope} (hs : Scope.Agree m known s s') : ∀ source : Source,
      (∀ a ∈ source.alias?, known a) → source.Everywhere (Query.IsNodeOver known) →
        (source.relabel m).toFromItem c' s' = source.toFromItem c s
  | .table name alias?, ha, _ => by
    rw [Source.relabel, Source.toFromItem, Source.toFromItem]
    exact bind_eq_bind (hs.tableName? name ha) fun _ _ => rfl
  | .nested query alias?, ha, hq => by
    rw [Source.relabel, Source.toFromItem, Source.toFromItem]
    refine bind_eq_bind (Query.toSelect_agree hc query hq) fun t _ => ?_
    exact bind_eq_bind (hs.nestedName? ha) fun _ _ => rfl

theorem Join.toItems_agree {c c' : Context} (hc : Context.Agree m known c c') {s s' : Scope}
    (hs : Scope.Agree m known s s') {left : Alias} (hleft : known left) (mayRequire : Bool) :
    ∀ j : Join, joinEverywhere (Query.IsNodeOver known) j →
      (j.relabel m).toItems c' s' (m left) mayRequire = j.toItems c s left mayRequire
  | ⟨key, kind, link, mergedLinks, ⟨source, clauses, joins, isQualified⟩⟩, hj => by
    have hq : Query.IsOver known ⟨source, clauses, joins, isQualified⟩ := joinEverywhere_iff.1 hj
    rw [Join.relabel, Query.relabel, Join.toItems, Join.toItems, hc.schema,
      Clauses.unjoinable?_relabel]
    cases clauses.unjoinable? with
    | some clause => exact throw_bind_congr _ _ _
    | none =>
      refine bind_congr_ok fun _ _ => ite_congr rfl (fun _ => throw_bind_congr _ _ _) fun _ => ?_
      refine bind_eq_bind (Source.toFromItem_agree hc hs source hq.self.source hq.source)
        fun item _ => ?_
      rw [Source.occurrence_relabel_eq]
      refine map_bind_congr fun right hright => ?_
      have hknown := hq.self.source right (Source.occurrence_eq_ok.1 hright)
      refine bind_eq_bind (hs.on hleft hknown hq.self.filter) fun on _ => ?_
      exact bind_eq_bind (joinsToItems_agree hc hs hknown (kind == .required) joins hq.joins)
        fun rest _ => rfl

theorem joinsToItems_agree {c c' : Context} (hc : Context.Agree m known c c') {s s' : Scope}
    (hs : Scope.Agree m known s s') {left : Alias} (hleft : known left) (mayRequire : Bool) :
    ∀ joins : List Join, joinsEverywhere (Query.IsNodeOver known) joins →
      joinsToItems c' s' (m left) mayRequire (relabelJoins m joins) =
        joinsToItems c s left mayRequire joins
  | [], _ => by rw [relabelJoins, joinsToItems, joinsToItems]
  | j :: rest, hj => by
    rw [relabelJoins, joinsToItems, joinsToItems]
    refine bind_eq_bind (Join.toItems_agree hc hs hleft mayRequire j hj.1) fun items _ => ?_
    exact bind_eq_bind (joinsToItems_agree hc hs hleft mayRequire rest hj.2) fun _ _ => rfl

end

theorem Query.source_relabel (m : Alias → Alias) (q : Query) :
    (q.relabel m).source = q.source.relabel m := by
  cases q
  rfl

theorem Query.clauses_relabel (m : Alias → Alias) (q : Query) :
    (q.relabel m).clauses = q.clauses.relabel m := by
  cases q
  rfl

theorem Query.deleteObstacle?_relabel (m : Alias → Alias) (q : Query) :
    (q.relabel m).deleteObstacle? = q.deleteObstacle? := by
  obtain ⟨source, clauses, joins, isQualified⟩ := q
  rw [relabel, deleteObstacle?, deleteObstacle?, Clauses.relabel]
  cases joins <;> simp only [Option.isSome_map] <;> rfl

theorem Query.toDelete_agree {c c' : Context} (hc : Context.Agree m known c c') {q : Query}
    (hq : q.IsOver known) : (q.relabel m).toDelete c' = q.toDelete c := by
  have haliases : ∀ a ∈ q.levelAliases, known a := fun a ha =>
    hq.statementAliases a (q.levelAliases_sublist.subset ha)
  have hs := hc.scope haliases
  rw [toDelete, toDelete, Query.deleteObstacle?_relabel, Query.source_relabel,
    Query.clauses_relabel, Query.levelAliases_relabel]
  split
  · exact throw_bind_congr _ _ _
  · cases hsource : q.source with
    | nested query alias? => rfl
    | table table alias? =>
      have halias : ∀ a ∈ alias?, known a := by
        intro a ha
        refine hq.self.source a ?_
        rw [hsource]
        exact ha
      have hfilter : (q.clauses.relabel m).filter?.mapM _ = q.clauses.filter?.mapM _ :=
        optionMapM_map_congr fun l hl => hs.filter (hq.self.filter l hl)
      simp only [Source.relabel, hs.tableName? table halias, hfilter,
        hs.deleteTail hq.self.order]

/-! ## Layouts -/

theorem SelectItem.width_agree (h : Forest.Agree m known [] f g) {own? : Option Alias}
    (hown : ∀ a ∈ own?, known a) {i : SelectItem Alias} (hi : i.IsOver known)
    (width : Except CompileError Nat) :
    (i.relabel m).width g db (own?.map m) width = i.width f db own? width := by
  match i with
  | expr e name? => rfl
  | star none => rfl
  | star (some owner) =>
    have howner : known owner := hi owner rfl
    have hany : (own?.map m).any (g.isSame · (m owner)) = own?.any (f.isSame · owner) := by
      cases own? with
      | none => rfl
      | some own => exact h.isSame_eq (hown own rfl) howner
    rw [SelectItem.relabel, Option.map_some, SelectItem.width, SelectItem.width, hany,
      h.tableName?_eq howner]

theorem itemsWidth_agree (h : Forest.Agree m known [] f g) {own? : Option Alias}
    (hown : ∀ a ∈ own?, known a) (width : Except CompileError Nat) :
    ∀ {items : List (SelectItem Alias)}, (∀ i ∈ items, i.IsOver known) →
      itemsWidth g db (own?.map m) width (items.map (·.relabel m)) =
        itemsWidth f db own? width items
  | [], _ => rfl
  | i :: items, hi => by
    rw [List.map_cons, itemsWidth, itemsWidth,
      SelectItem.width_agree h hown (hi i List.mem_cons_self),
      itemsWidth_agree h hown width fun i hmem => hi i (List.mem_cons_of_mem _ hmem)]

mutual

/-- **A request over known identities is laid out alike in forests that agree.** -/
theorem Query.laidOutAs_relabel (h : Forest.Agree m known [] f g) : ∀ q : Query,
    q.IsOver known → q.LaidOutAs f g db (q.relabel m)
  | ⟨source, clauses, joins, _⟩, hq => by
    refine .node ?_ (joinsLaidOutAs_relabel h joins hq.joins)
    rw [Source.alias?_relabel, Source.width_agree h source hq.source]
    exact itemsWidth_agree h hq.self.source _ hq.self.selection

theorem Source.width_agree (h : Forest.Agree m known [] f g) : ∀ s : Source,
    s.Everywhere (Query.IsNodeOver known) → (s.relabel m).width g db = s.width f db
  | .table name _, _ => by rw [Source.relabel, Source.width, Source.width]
  | .nested query _, hq => by
    rw [Source.relabel, Source.width, Source.width, (Query.laidOutAs_relabel h query hq).width_eq]

theorem joinsLaidOutAs_relabel (h : Forest.Agree m known [] f g) : ∀ joins : List Join,
    joinsEverywhere (Query.IsNodeOver known) joins →
      JoinsLaidOutAs f g db joins (relabelJoins m joins)
  | [], _ => .nil
  | ⟨_, _, _, _, query⟩ :: rest, hj =>
    .cons (Query.laidOutAs_relabel h query hj.1) (joinsLaidOutAs_relabel h rest hj.2)

end

/-! ## Compiling -/

/-- How a qualified request is selected in forests that agree. -/
theorem Query.selectIn_agree (h : Forest.Agree m known [] f g) (hq : q.IsOver known) :
    (q.relabel m).selectIn g db = q.selectIn f db :=
  (Context.agree_ofQuery h hq.statementAliases).bind_eq fun _ _ hc => Query.toSelect_agree hc q hq

theorem Query.deleteIn_agree (h : Forest.Agree m known [] f g) (hq : q.IsOver known) :
    (q.relabel m).deleteIn g db = q.deleteIn f db :=
  (Context.agree_ofQuery h hq.statementAliases).bind_eq fun _ _ hc => Query.toDelete_agree hc hq

section

variable {d : Nat}

/-- A request is qualified alike in a forest that agrees on its identities and has more of them. -/
theorem Query.qualify_agrees_shift (hq : q.IsOver known) (hwithin : q.IsWithin f)
    (h : Forest.Agree (Alias.shift f.cells.length d) known (q.openTables ++ []) f g) :
    q.qualify.Agrees q.qualify (fun q' q'' f' g' =>
      q'' = q'.relabel (Alias.shift f.cells.length d) ∧ q'.IsOver known ∧
        Forest.Agree (Alias.shift f.cells.length d) known [] f' g') f g := by
  have hagrees := q.qualify_agrees hq hwithin h
  rw [Query.IsWithin.relabel_eq_self (fun a ha => Alias.shift_of_lt ha) q hwithin] at hagrees
  exact hagrees.imp fun q' q'' f' g' _ _ hR => ⟨hR.1, hR.2.1, hR.2.2.1⟩

/-- **A request over known identities is selected by one statement in forests that agree**, or by
none for one reason. -/
theorem Query.selectStatement_agrees (hq : q.IsOver known) (hwithin : q.IsWithin f)
    (h : Forest.Agree (Alias.shift f.cells.length d) known (q.openTables ++ []) f g) :
    (q.selectStatement db).Agrees (q.selectStatement db) (fun s s' _ _ => s' = s) f g := by
  refine (Query.qualify_agrees_shift hq hwithin h).bind ?_
  rintro q' _ f' g' ⟨rfl, hover, hagree⟩
  refine (AliasM.Agrees.read (Query.selectIn_agree hagree hover)).bind ?_
  rintro s _ _ _ ⟨rfl, -, -⟩
  exact .pure rfl

theorem Query.deleteStatement_agrees (hq : q.IsOver known) (hwithin : q.IsWithin f)
    (h : Forest.Agree (Alias.shift f.cells.length d) known (q.openTables ++ []) f g) :
    (q.deleteStatement db).Agrees (q.deleteStatement db) (fun s s' _ _ => s' = s) f g := by
  refine (Query.qualify_agrees_shift hq hwithin h).bind ?_
  rintro q' _ f' g' ⟨rfl, hover, hagree⟩
  refine (AliasM.Agrees.read (Query.deleteIn_agree hagree hover)).bind ?_
  rintro s _ _ _ ⟨rfl, -, -⟩
  exact .pure rfl

/-- Preparing a request is selecting the qualified one and laying out its rows. -/
theorem Query.prepare_agrees (hq : q.IsOver known) (hwithin : q.IsWithin f)
    (h : Forest.Agree (Alias.shift f.cells.length d) known (q.openTables ++ []) f g) :
    (q.prepare db).Agrees (q.prepare db) (fun p p' _ _ => p' = p) f g := by
  have hqualified : q.qualify.Agrees q.qualify (fun q' q'' f' g' => q'.qualify = pure q' ∧
      q''.qualify = pure q'' ∧ q'' = q'.relabel (Alias.shift f.cells.length d) ∧
      q'.IsOver known ∧ Forest.Agree (Alias.shift f.cells.length d) known [] f' g') f g := by
    refine (Query.qualify_agrees_shift hq hwithin h).imp fun q' q'' f' g' hruns hruns' hR => ?_
    exact ⟨(q.qualify_qualified hruns).qualify_eq, (q.qualify_qualified hruns').qualify_eq, hR⟩
  refine hqualified.bind ?_
  rintro q' q'' f' g' ⟨hqualify, hqualify', rfl, hover, hagree⟩
  rw [selectStatement, selectStatement, hqualify, hqualify', pure_bind, pure_bind, bind_assoc,
    bind_assoc]
  refine (AliasM.Agrees.read (Query.selectIn_agree hagree hover)).bind ?_
  rintro s _ _ _ ⟨rfl, rfl, rfl⟩
  rw [pure_bind, pure_bind]
  refine (AliasM.Agrees.read (Query.laidOutAs_relabel hagree q' hover).rowLayout?_eq).bind ?_
  rintro layout? _ _ _ ⟨rfl, -, -⟩
  exact .pure rfl

end

end SqlTree
