import SqlTree.Proofs.Query.MergedLinks
import SqlTree.Proofs.Query.Unnamed
import SqlTree.Proofs.Statement.ColumnNames
import SqlTree.Proofs.Statement.Mentions

/-!
# Requests that can be selected

Whether a request can be written as a selection is decided level by level. A level has to select
something, and each of its joins has to ask for what a join has a place for: no group and no limit,
nothing required behind something optional, and links that all compare the same columns.

* `Query.IsWritable` says so of a level, `Query.Obstacle` are the failures that a level gives rise
  to where it is not so.
* `Settles Q E x`: the work `x` has a result only if `Q` holds, and fails only for reasons in `E`.
  `Query.toSelect_settles` says of a qualified request, in which nothing else can be missing, that
  its selection settles in this way whether its levels are writable.
* `Query.selectStatement_succeeds_iff` says it of every request without occurrences.
-/

namespace SqlTree

variable {α β ε : Type}

/-! ## Obstacles -/

/-- The clauses that a join has no place for. -/
def Clauses.Has (c : Clauses) : Token → Prop
  | .groupBy => c.group?.isSome
  | .having => c.having?.isSome
  | .limit => c.limit?.isSome
  | .distinct => c.distinct = true
  | _ => False

/-- Two links compare the same columns of the same tables, up to ASCII case and the order of the
columns. Of links that were merged the tables are always the same
(`Query.withJoin_linksSameTables`). -/
structure JoinLink.AgreesWith (db : Schema) (a b : JoinLink) : Prop where
  tables : a.isBetweenSameTables b = true
  columns : ∃ pairs pairs', a.key.resolve db = .ok pairs ∧ b.key.resolve db = .ok pairs' ∧
    (pairs.map lowerPair).Perm (pairs'.map lowerPair)

/-- A join beneath the joins `above` can be written. -/
structure Join.IsWritable (db : Schema) (above : List Join) (j : Join) : Prop where
  clauses : ∀ clause, ¬ j.query.clauses.Has clause
  required : j.kind = .required → ∀ k ∈ above, k.kind = .required
  agrees : ∀ l ∈ j.mergedLinks, j.link.AgreesWith db l

/-- A level can be written: it selects something, and all of its joins can be written. -/
structure Query.IsWritable (db : Schema) (p : Query) : Prop where
  selects : ∃ n ∈ p.nodes, n.clauses.selection ≠ []
  joins : ∀ above j, JoinPath p.joins above j → j.IsWritable db above

/-- Why a join beneath the joins `above` can't be written. -/
inductive Join.Obstacle (db : Schema) (above : List Join) (j : Join) : CompileError → Prop
  | notJoinable {clause : Token} :
      j.query.clauses.Has clause → Join.Obstacle db above j (.notJoinable j.key clause)
  | requiredBeneathOptional {k : Join} :
      j.kind = .required → k ∈ above → k.kind = .optional →
        Join.Obstacle db above j (.requiredBeneathOptional j.key)
  | clashingJoins {l : JoinLink} :
      l ∈ j.mergedLinks → ¬ j.link.AgreesWith db l → Join.Obstacle db above j (.clashingJoins j.key)

/-- Why a level can't be written. -/
inductive Query.Obstacle (db : Schema) (p : Query) : CompileError → Prop
  | nothingSelected :
      (∀ n ∈ p.nodes, n.clauses.selection = []) → Query.Obstacle db p .nothingSelected
  | join {above : List Join} {j : Join} {e : CompileError} :
      JoinPath p.joins above j → j.Obstacle db above e → Query.Obstacle db p e

/-- A level with an obstacle is not writable. -/
theorem Query.Obstacle.not_isWritable {db : Schema} {p : Query} {e : CompileError}
    (h : p.Obstacle db e) : ¬ p.IsWritable db := by
  intro hp
  cases h with
  | nothingSelected hnone =>
    obtain ⟨n, hn, hsome⟩ := hp.selects
    exact hsome (hnone n hn)
  | join hpath hj =>
    have hwritable := hp.joins _ _ hpath
    cases hj with
    | notJoinable hclause => exact hwritable.clauses _ hclause
    | requiredBeneathOptional hkind hk hoptional =>
      cases hoptional.symm.trans (hwritable.required hkind _ hk)
    | clashingJoins hl hclash => exact hclash (hwritable.agrees _ hl)

/-- What a request asks of the schema, it gets: its filter and its group are known, and the links of
its joins compare some columns. -/
structure Query.Resolves (db : Schema) (n : Query) : Prop where
  filter : ∀ l ∈ n.clauses.filter?, ∃ e, l.resolve db = .ok e
  group : ∀ l ∈ n.clauses.group?, ∃ es, l.resolve db = .ok es
  links : ∀ j ∈ n.joins, ∀ l ∈ j.link :: j.mergedLinks, ∃ p ps, l.key.resolve db = .ok (p :: ps)

/-! ## Work that settles something -/

/-- The work `x` has a result only if `Q` holds, and fails only for reasons in `E`. -/
structure Settles (Q : Prop) (E : ε → Prop) (x : Except ε α) : Prop where
  holds : ∀ {a : α}, x = .ok a → Q
  fails : ∀ {e : ε}, x = .error e → E e

namespace Settles

variable {Q Q' : Prop} {E : ε → Prop} {x : Except ε α}

theorem result (a : α) : Settles True E (pure a : Except ε α) := ⟨fun _ => trivial, nofun⟩

/-- Work that fails for one of the reasons settles whatever there is to settle. -/
theorem error {e : ε} (he : E e) : Settles Q E (.error e : Except ε α) where
  holds h := by cases h
  fails h := Except.error.inj h ▸ he

theorem imp (hx : Settles Q E x) (h : Q → Q') : Settles Q' E x :=
  ⟨fun ha => h (hx.holds ha), hx.fails⟩

/-- Work behind work settles what both settle. -/
theorem bind {k : α → Except ε β} (hx : Settles Q E x) (hk : ∀ a, Settles Q' E (k a)) :
    Settles (Q ∧ Q') E (x >>= k) := by
  cases hxe : x with
  | ok a => exact ⟨fun hb => ⟨hx.holds hxe, (hk a).holds hb⟩, (hk a).fails⟩
  | error e => exact error (hx.fails hxe)

/-- Work that has a result leaves it to the work behind it. -/
theorem step {k : α → Except ε β} {a : α} (hx : x = .ok a) (hk : Settles Q E (k a)) :
    Settles Q E (x >>= k) := by
  rwa [hx, ok_bind]

theorem map (hx : Settles Q E x) (m : α → β) : Settles Q E (x >>= fun a => pure (m a)) :=
  (hx.bind fun a => result (m a)).imp And.left

/-- A check settles what it checks. -/
theorem check {P : Prop} [Decidable P] {e : ε} {k : α → Except ε β} {y : Except ε β} (he : P → E e)
    (hy : ¬ P → Settles Q E y) : Settles (¬ P ∧ Q) E (if P then throw e >>= k else y) := by
  by_cases hP : P
  · rw [if_pos hP]
    exact error (he hP)
  · rw [if_neg hP]
    exact (hy hP).imp fun hQ => ⟨hP, hQ⟩

end Settles

theorem exists_mapM_ok {k : α → Except ε β} {as : List α} (h : ∀ a ∈ as, ∃ b, k a = .ok b) :
    ∃ bs, as.mapM k = .ok bs := by
  induction as with
  | nil => exact ⟨[], rfl⟩
  | cons a as ih =>
    obtain ⟨hfirst, hrest⟩ := List.forall_mem_cons.1 h
    obtain ⟨b, hb⟩ := hfirst
    obtain ⟨bs, hbs⟩ := ih hrest
    rw [List.mapM_cons, hb, hbs]
    exact ⟨b :: bs, rfl⟩

theorem exists_optionMapM_ok {k : α → Except ε β} {a? : Option α}
    (h : ∀ a ∈ a?, ∃ b, k a = .ok b) : ∃ b?, a?.mapM k = .ok b? := by
  cases a? with
  | none => exact ⟨none, rfl⟩
  | some a =>
    obtain ⟨b, hb⟩ := h a rfl
    rw [Option.mapM_some, hb]
    exact ⟨some b, rfl⟩

/-! ## What is checked of a join -/

theorem Clauses.has_of_unjoinable? {c : Clauses} {clause : Token}
    (h : c.unjoinable? = some clause) : c.Has clause := by
  rw [unjoinable?] at h
  split at h
  · rename_i hgroup
    obtain rfl := Option.some.inj h
    exact hgroup
  · split at h
    · rename_i hhaving
      obtain rfl := Option.some.inj h
      exact hhaving
    · split at h
      · rename_i hlimit
        obtain rfl := Option.some.inj h
        exact hlimit
      · split at h
        · rename_i hdistinct
          obtain rfl := Option.some.inj h
          exact hdistinct
        · cases h

theorem Clauses.not_has_of_unjoinable? {c : Clauses} (h : c.unjoinable? = none) (clause : Token) :
    ¬ c.Has clause := by
  obtain ⟨hgroup, hhaving, hlimit, hdistinct⟩ := Clauses.of_joinable h
  cases clause <;> simp [Has, hgroup, hhaving, hlimit, hdistinct]

namespace JoinLink

variable {db : Schema} {own l : JoinLink} {pairs pairs' : List (String × String)}

/-- Whether links that lead somewhere agree is known. -/
theorem agreesWith_eq (hown : own.key.resolve db = .ok pairs) (hl : l.key.resolve db = .ok pairs') :
    ∃ agrees, own.agreesWith db l = .ok agrees ∧ (agrees = true ↔ own.AgreesWith db l) := by
  have hcolumns : (∃ ps ps', own.key.resolve db = .ok ps ∧ l.key.resolve db = .ok ps' ∧
      (ps.map lowerPair).Perm (ps'.map lowerPair)) ↔
        (pairs.map lowerPair).Perm (pairs'.map lowerPair) := by
    constructor
    · rintro ⟨ps, ps', hps, hps', hperm⟩
      rwa [Except.ok.inj (hown.symm.trans hps), Except.ok.inj (hl.symm.trans hps')]
    · exact fun hperm => ⟨pairs, pairs', hown, hl, hperm⟩
  rw [agreesWith]
  split
  · rename_i hsame
    subst hsame
    obtain rfl := Except.ok.inj (hown.symm.trans hl)
    exact ⟨true, rfl, iff_of_true rfl ⟨own.isBetweenSameTables_self, hcolumns.2 (.refl _)⟩⟩
  · split
    · rename_i htables
      refine ⟨(pairs.map lowerPair).isPerm (pairs'.map lowerPair), ?_, ?_⟩
      · rw [hown, hl]
        rfl
      · rw [List.isPerm_iff, ← hcolumns]
        exact ⟨fun h => ⟨htables, h⟩, fun h => h.columns⟩
    · rename_i htables
      exact ⟨false, rfl, iff_of_false Bool.false_ne_true fun h => htables h.tables⟩

theorem checkMerged_settles {E : CompileError → Prop} {key : String}
    (hown : own.key.resolve db = .ok pairs) : ∀ {links : List JoinLink},
      (∀ l ∈ links, ∃ pairs', l.key.resolve db = .ok pairs') →
        (∀ l ∈ links, ¬ own.AgreesWith db l → E (.clashingJoins key)) →
          Settles (∀ l ∈ links, own.AgreesWith db l) E (own.checkMerged db key links)
  | [], _, _ => (Settles.result ()).imp fun _ => by simp
  | l :: rest, hlinks, hE => by
    obtain ⟨⟨pairs', hl⟩, hrest⟩ := List.forall_mem_cons.1 hlinks
    obtain ⟨hclash, hEs⟩ := List.forall_mem_cons.1 hE
    obtain ⟨agrees, hagrees, hiff⟩ := agreesWith_eq hown hl
    rw [checkMerged, hagrees]
    cases agrees with
    | true =>
      refine (checkMerged_settles hown hrest hEs).imp fun h => List.forall_mem_cons.2 ⟨?_, h⟩
      exact hiff.1 rfl
    | false =>
      refine ⟨nofun, fun he => ?_⟩
      rw [← Except.error.inj he]
      exact hclash fun h => Bool.false_ne_true (hiff.2 h)

end JoinLink

/-! ## What is never missing -/

namespace Scope

variable {s : Scope}

theorem exists_owner? {o : Option Alias} (h : ∀ a ∈ o, s.context.Knows a) :
    ∃ x, s.owner? o = .ok x := by
  cases o with
  | none => exact ⟨none, rfl⟩
  | some a =>
    obtain ⟨name, hname⟩ := h a rfl
    rw [owner?, hname]
    exact ⟨_, rfl⟩

theorem exists_expr {e : Expr Alias} (h : ∀ a, some a ∈ e.owners → s.context.Knows a) :
    ∃ e', s.expr e = .ok e' :=
  (e.withOwners_hinges s.owner?).exists_ok fun _ ho =>
    exists_owner? fun a ha => h a (Option.mem_def.1 ha ▸ ho)

theorem exists_item {i : SelectItem Alias} (h : ∀ a, some a ∈ i.owners → s.context.Knows a) :
    ∃ i', i.withOwners s.owner? = .ok i' :=
  (i.withOwners_hinges s.owner?).exists_ok fun _ ho =>
    exists_owner? fun a ha => h a (Option.mem_def.1 ha ▸ ho)

theorem exists_order {o : SortOrder}
    (h : ∀ e ∈ o.exprs, ∀ a, some a ∈ e.owners → s.context.Knows a) :
    ∃ ts, s.order o = .ok ts := by
  refine exists_mapM_ok fun t ht => ?_
  have he : t.expr ∈ o.exprs := by
    rw [← o.map_expr_terms]
    exact List.mem_map_of_mem ht
  obtain ⟨e', he'⟩ := exists_expr (h t.expr he)
  refine ⟨⟨e', t.direction⟩, ?_⟩
  have hterm : t.expr.withOwners s.owner? = .ok e' := he'
  rw [SortTerm.withOwners, hterm]
  rfl

theorem exists_group {group? : Option (Lookup (List (Expr Alias)))}
    (hgroup : ∀ l ∈ group?, ∃ es, l.resolve s.context.schema = .ok es)
    (h : ∀ es, groupTerms s.context.schema group? = .ok es →
      ∀ e ∈ es, ∀ a, some a ∈ e.owners → s.context.Knows a) :
    ∃ es', s.group group? = .ok es' := by
  cases group? with
  | none => exact ⟨[], rfl⟩
  | some l =>
    obtain ⟨es, hes⟩ := hgroup l rfl
    obtain ⟨es', hes'⟩ := exists_mapM_ok fun e he => exists_expr (h es hes e he)
    rw [group, hes]
    exact ⟨es', hes'⟩

theorem exists_filter {l : Lookup (Expr Alias)} {e : Expr Alias}
    (he : l.resolve s.context.schema = .ok e)
    (h : ∀ a, some a ∈ e.owners → s.context.Knows a) : ∃ e', s.filter l = .ok e' := by
  rw [filter, he]
  exact exists_expr h

theorem exists_tableName? (name : String) {a : Alias} (ha : s.context.Knows a) :
    ∃ name?, s.tableName? name (some a) = .ok name? := by
  obtain ⟨given, hgiven⟩ := ha
  rw [tableName?, hgiven]
  exact ⟨_, rfl⟩

theorem exists_nestedName? {a : Alias} (ha : s.context.Knows a) :
    ∃ name?, s.nestedName? (some a) = .ok name? := by
  obtain ⟨given, hgiven⟩ := ha
  rw [nestedName?]
  split
  · rw [hgiven]
    exact ⟨_, rfl⟩
  · exact ⟨none, rfl⟩

end Scope

/-- A link that compares some columns gives a condition. -/
theorem JoinLink.exists_condition {db : Schema} {link : JoinLink} {p : String × String}
    {ps : List (String × String)} (h : link.key.resolve db = .ok (p :: ps)) (left right : Alias) :
    ∃ e, link.condition db left right = .ok e := by
  rw [condition, h]
  exact ⟨_, rfl⟩

/-- Nothing that a join of a level needs is missing. -/
structure Join.IsReady (s : Scope) (j : Join) : Prop where
  source : ∃ a, j.query.source.alias? = some a ∧ s.context.Knows a
  links : ∀ l ∈ j.link :: j.mergedLinks, ∃ p ps, l.key.resolve s.context.schema = .ok (p :: ps)
  filter : ∀ l ∈ j.query.clauses.filter?, ∃ e, l.resolve s.context.schema = .ok e ∧
    ∀ a, some a ∈ e.owners → s.context.Knows a

theorem Join.IsReady.exists_on {s : Scope} {j : Join} (h : j.IsReady s) {left right : Alias}
    (hleft : s.context.Knows left) (hright : s.context.Knows right) :
    ∃ on, s.on j.link left right j.query.clauses.filter? = .ok on := by
  obtain ⟨p, ps, hlink⟩ := h.links j.link List.mem_cons_self
  obtain ⟨condition, hcondition⟩ := JoinLink.exists_condition hlink left right
  have hknown : ∀ a, some a ∈ condition.owners → s.context.Knows a := by
    intro a ha
    rcases (JoinLink.mem_owners_condition hcondition (some a)).1 ha with ha | ha
    · rwa [Option.some.inj ha]
    · rwa [Option.some.inj ha]
  rw [Scope.on, hcondition]
  cases hl : j.query.clauses.filter? with
  | none => exact Scope.exists_expr hknown
  | some l =>
    obtain ⟨e, he, hfilter⟩ := h.filter l hl
    simp only [ok_bind, he]
    refine Scope.exists_expr fun a ha => ?_
    rw [Expr.owners_and] at ha
    rcases List.mem_append.1 ha with ha | ha
    · exact hknown a ha
    · exact hfilter a ha

/-! ## Levels -/

section

variable {s : Scope} {E : CompileError → Prop} {N : Query → Prop}

/-- What is nested in a source settles what the source does. -/
theorem Source.toFromItem_settles {source : Source}
    (hname : ∃ a, source.alias? = some a ∧ s.context.Knows a)
    (hnested : ∀ inner alias?, source = .nested inner alias? →
      Settles (N inner) E (inner.toSelect s.context)) :
    Settles (∀ inner alias?, source = .nested inner alias? → N inner) E
      (source.toFromItem s.context s) := by
  obtain ⟨a, ha, hknown⟩ := hname
  cases source with
  | table name alias? =>
    obtain rfl : alias? = some a := ha
    obtain ⟨name?, hname?⟩ := Scope.exists_tableName? name hknown
    rw [toFromItem]
    exact Settles.imp (.step hname? (.result _)) fun _ => nofun
  | nested inner alias? =>
    obtain rfl : alias? = some a := ha
    obtain ⟨name?, hname?⟩ := Scope.exists_nestedName? hknown
    rw [toFromItem]
    refine Settles.imp (.bind (hnested inner (some a) rfl) fun t => .step hname? (.result _))
      fun h => ?_
    rintro inner' alias?' ⟨⟩
    exact h.1

/-- What the selection of a level settles of a join beneath the joins `above`. -/
structure Join.IsSettled (db : Schema) (N : Query → Prop) (above : List Join) (j : Join) :
    Prop where
  writable : j.IsWritable db above
  nested : ∀ inner alias?, j.query.source = .nested inner alias? → N inner

/-- What is known of the joins of a level before they are written: nothing but an obstacle keeps one
from being written, and what is nested in their sources settles something itself. -/
structure Scope.Prepares (s : Scope) (N : Query → Prop) (E : CompileError → Prop)
    (top : List Join) : Prop where
  ready : ∀ above j, JoinPath top above j → j.IsReady s
  nested : ∀ above j, JoinPath top above j → ∀ inner alias?,
    j.query.source = .nested inner alias? → Settles (N inner) E (inner.toSelect s.context)
  obstacle : ∀ above j e, JoinPath top above j → j.Obstacle s.context.schema above e → E e

variable {top : List Join}

mutual

/-- **The joins of a level settle whether they can be written.** -/
theorem joinsToItems_settles (htop : s.Prepares N E top) : ∀ (joins above : List Join)
    (left : Alias) (mayRequire : Bool), (∀ j ∈ joins, JoinPath top above j) → s.context.Knows left →
      (mayRequire = true ↔ ∀ k ∈ above, k.kind = .required) →
        Settles (∀ below j, JoinPath joins below j →
          j.IsSettled s.context.schema N (above ++ below)) E
          (joinsToItems s.context s left mayRequire joins)
  | [], above, left, mayRequire, _, _, _ => by
    rw [joinsToItems]
    refine (Settles.result _).imp fun _ below j hj => ?_
    cases hj <;> contradiction
  | j :: rest, above, left, mayRequire, hpaths, hleft, hmay => by
    obtain ⟨hpath, hrest⟩ := List.forall_mem_cons.1 hpaths
    rw [joinsToItems]
    have hj := Join.toItems_settles htop j above left mayRequire hpath hleft hmay
    refine (hj.bind fun items =>
      (joinsToItems_settles htop rest above left mayRequire hrest hleft hmay).map _).imp ?_
    rintro ⟨⟨hown, hbeneath⟩, hbehind⟩ below k hk
    cases hk with
    | here hk =>
      rcases List.mem_cons.1 hk with rfl | hk
      · rwa [List.append_nil]
      · exact hbehind [] k (.here hk)
    | beneath hm hk =>
      rcases List.mem_cons.1 hm with rfl | hm
      · exact hbeneath _ k hk
      · exact hbehind _ k (.beneath hm hk)

theorem Join.toItems_settles (htop : s.Prepares N E top) : ∀ (j : Join) (above : List Join)
    (left : Alias) (mayRequire : Bool), JoinPath top above j → s.context.Knows left →
      (mayRequire = true ↔ ∀ k ∈ above, k.kind = .required) →
        Settles (j.IsSettled s.context.schema N above ∧
          ∀ below k, JoinPath j.query.joins below k →
            k.IsSettled s.context.schema N (above ++ j :: below)) E
          (j.toItems s.context s left mayRequire)
  | ⟨key, kind, link, mergedLinks, ⟨source, clauses, joins, isQualified⟩⟩, above, left, mayRequire,
      hpath, hleft, hmay => by
    have hown := htop.ready above _ hpath
    obtain ⟨right, hright, hknown⟩ := hown.source
    obtain ⟨p, ps, hlink⟩ := hown.links link List.mem_cons_self
    rw [Join.toItems]
    cases hclause : clauses.unjoinable? with
    | some clause =>
      refine ⟨nofun, fun he => ?_⟩
      rw [← Except.error.inj he]
      exact htop.obstacle above _ _ hpath (.notJoinable (Clauses.has_of_unjoinable? hclause))
    | none =>
      have hlinks : ∀ l ∈ mergedLinks, ∃ pairs, l.key.resolve s.context.schema = .ok pairs := by
        intro l hl
        obtain ⟨p', ps', hl'⟩ := hown.links l (List.mem_cons_of_mem _ hl)
        exact ⟨_, hl'⟩
      have hchecked := JoinLink.checkMerged_settles (E := E) hlink hlinks
        fun l hl hclash => htop.obstacle above _ _ hpath (.clashingJoins hl hclash)
      have hsource := Source.toFromItem_settles ⟨right, hright, hknown⟩ (htop.nested above _ hpath)
      have hoccurrence : source.occurrence = .ok right := Source.occurrence_eq_ok.2 hright
      obtain ⟨on, hon⟩ := hown.exists_on hleft hknown
      have hbelow := joinsToItems_settles htop joins _ right (kind == .required)
        (fun k hk => hpath.concat hk) hknown
      refine ((hchecked.bind fun _ => .check ?_ fun hkind => hsource.bind fun item =>
        .step hoccurrence (.step hon ((hbelow ?_).map _))).imp ?_)
      · rintro ⟨rfl, hnot⟩
        obtain ⟨k, hk, hoptional⟩ : ∃ k ∈ above, k.kind ≠ .required := by
          simpa [hnot] using hmay
        refine htop.obstacle above _ _ hpath (.requiredBeneathOptional rfl hk ?_)
        cases hk' : k.kind with
        | optional => rfl
        | required => exact absurd hk' hoptional
      · cases kind with
        | optional => simp
        | required =>
          have hallowed : mayRequire = true := by simpa using hkind
          refine iff_of_true rfl fun k hk => ?_
          rcases List.mem_append.1 hk with hk | hk
          · exact hmay.1 hallowed k hk
          · obtain rfl := List.mem_singleton.1 hk
            rfl
      · rintro ⟨hagrees, hkind, hinner, hbeneath⟩
        refine
          ⟨⟨⟨Clauses.not_has_of_unjoinable? hclause, fun hrequired => ?_, hagrees⟩, hinner⟩, ?_⟩
        · refine hmay.1 ?_
          have hallowed : ¬ mayRequire = false := fun hnot => hkind ⟨hrequired, hnot⟩
          simpa using hallowed
        · intro below k hk
          have hsettled := hbeneath below k hk
          rwa [List.append_assoc] at hsettled

end

end

/-- Nothing that a level needs is missing: its sources and all that it mentions have names, and the
schema knows what it is asked for. -/
structure Query.IsReady (c : Context) (p : Query) : Prop where
  sources : ∀ n ∈ p.nodes, ∃ a, n.source.alias? = some a ∧ c.Knows a
  mentions : ∀ a, p.Mentions c.schema (some a) → c.Knows a
  resolves : ∀ n ∈ p.nodes, n.Resolves c.schema

theorem Query.IsReady.join {c : Context} {q : Query} (h : q.IsReady c) {above : List Join}
    {j : Join} (hj : JoinPath q.joins above j) : j.IsReady (q.scope c) := by
  obtain ⟨hquery, n, hn, hmem⟩ := hj.mem_nodes rfl
  refine ⟨h.sources _ hquery, (h.resolves n hn).links j hmem, fun l hl => ?_⟩
  obtain ⟨e, he⟩ := (h.resolves _ hquery).filter l hl
  exact ⟨e, he, fun a ha => h.mentions a (.filter hquery hl he ha)⟩

/-- **A qualified request in which nothing is missing settles whether its levels can be
written.** -/
theorem Query.toSelect_settles (c : Context) : ∀ q : Query, (∀ p, q.HasLevel p → p.IsReady c) →
    Settles (∀ p, q.HasLevel p → p.IsWritable c.schema)
      (fun e => ∃ p, q.HasLevel p ∧ p.Obstacle c.schema e) (q.toSelect c) := by
  refine Query.nestedInduction fun q ih hlevels => ?_
  have hready := hlevels q .top
  have hnested : ∀ n ∈ q.nodes, ∀ inner alias?, n.source = .nested inner alias? →
      Settles (∀ p, inner.HasLevel p → p.IsWritable c.schema)
        (fun e => ∃ p, q.HasLevel p ∧ p.Obstacle c.schema e) (inner.toSelect c) := by
    intro n hn inner alias? hsource
    have hinner := ih n hn inner alias? hsource fun p hp => hlevels p (hp.of_nested hn hsource)
    refine ⟨hinner.holds, fun he => ?_⟩
    obtain ⟨p, hp, hobstacle⟩ := hinner.fails he
    exact ⟨p, hp.of_nested hn hsource, hobstacle⟩
  have htop : q ∈ q.nodes := q.nodes_eq ▸ List.mem_cons_self
  have hprepares : (q.scope c).Prepares (fun inner => ∀ p, inner.HasLevel p → p.IsWritable c.schema)
      (fun e => ∃ p, q.HasLevel p ∧ p.Obstacle c.schema e) q.joins :=
    ⟨fun above j hj => hready.join hj, fun above j hj => hnested _ (hj.mem_nodes rfl).1,
      fun above j e hj he => ⟨q, .top, .join hj he⟩⟩
  obtain ⟨own, hown, hknown⟩ := hready.sources q htop
  have hjoins := joinsToItems_settles hprepares q.joins [] own true
    (fun j hj => .here hj) hknown (by simp)
  have hsource := Source.toFromItem_settles (s := q.scope c) ⟨own, hown, hknown⟩ (hnested q htop)
  obtain ⟨items, hitems⟩ : ∃ items, q.items.mapM (·.withOwners (q.scope c).owner?) = .ok items :=
    exists_mapM_ok fun i hi => Scope.exists_item fun a ha => hready.mentions a (.item hi ha)
  obtain ⟨filter?, hfilter⟩ :
      ∃ filter?, q.clauses.filter?.mapM (q.scope c).filter = .ok filter? := by
    refine exists_optionMapM_ok fun l hl => ?_
    obtain ⟨e, he⟩ := (hready.resolves q htop).filter l hl
    exact Scope.exists_filter he fun a ha => hready.mentions a (.filter htop hl he ha)
  obtain ⟨group, hgroup⟩ : ∃ group, (q.scope c).group q.clauses.group? = .ok group :=
    Scope.exists_group (hready.resolves q htop).group fun es hes e he a ha =>
      hready.mentions a (.group hes he ha)
  obtain ⟨having?, hhaving⟩ : ∃ having?, q.clauses.having?.mapM (q.scope c).expr = .ok having? :=
    exists_optionMapM_ok fun e he => Scope.exists_expr fun a ha => hready.mentions a (.having he ha)
  obtain ⟨order, horder⟩ : ∃ order, (q.scope c).order q.fullOrder = .ok order :=
    Scope.exists_order fun e he a ha => hready.mentions a (.order he ha)
  have hlength : items.isEmpty = true ↔ q.items = [] := by
    rw [List.isEmpty_iff, ← List.length_eq_zero_iff, ← (mapM_eq_ok.1 hitems).length_eq,
      List.length_eq_zero_iff]
  have hselects : q.items = [] ↔ ∀ n ∈ q.nodes, n.clauses.selection = [] := by
    rw [Query.items_eq, List.flatMap_eq_nil_iff]
  obtain ⟨source, clauses, joins, isQualified⟩ := q
  rw [toSelect]
  refine Settles.imp (.step hitems (.check ?_ fun hsome => hsource.bind fun item =>
    .step (Source.occurrence_eq_ok.2 hown) (hjoins.bind fun joined => .step hfilter
      (.step hgroup (.step hhaving (.step horder (.result _))))))) ?_
  · intro hempty
    exact ⟨_, .top, .nothingSelected (hselects.1 (hlength.1 hempty))⟩
  · rintro ⟨hsome, hinner, hsettled, -⟩ p hp
    rcases hp.top_or_nested with rfl | ⟨n, hn, inner, alias?, hnode, hp⟩
    · refine ⟨?_, fun above j hj => (hsettled above j hj).writable⟩
      by_contra hnone
      refine hsome (hlength.2 (hselects.2 fun n hn => ?_))
      by_contra hselection
      exact hnone ⟨n, hn, hselection⟩
    · rw [Query.nodes_eq] at hn
      rcases List.mem_cons.1 hn with rfl | hn
      · exact hinner inner alias? hnode p hp
      · obtain ⟨above, j, hj, rfl⟩ := joinsNodes_path joins n hn
        exact (hsettled above j hj).nested inner alias? hnode p hp

/-! ## Requests without occurrences -/

/-- A request without occurrences, where the schema knows what it is asked for. -/
structure Query.IsPlainResolved (db : Schema) (n : Query) : Prop where
  plain : n.IsPlainNode db
  resolves : n.Resolves db

/-- Nothing is mentioned in the clauses of a plain request. -/
theorem Query.IsPlainNode.eq_none {db : Schema} {n : Query} {o : Option Alias}
    (hn : n.IsPlainNode db) (h : n.clauses.Mentions db o) : o = none := by
  cases h with
  | item hi ho => exact hn.selection _ hi o ho
  | filter hl he ho => exact hn.filter _ hl _ he o ho
  | group hes he ho => exact hn.group _ hes _ he o ho
  | having he ho => exact hn.having _ he o ho
  | order he ho => exact hn.order _ he o ho

theorem Clauses.has_qualified (owner : Alias) (c : Clauses) (clause : Token) :
    (c.qualified owner).Has clause ↔ c.Has clause := by
  cases clause <;> simp [Has, qualified]

/-- What becomes of a plain request that resolves. -/
abbrev Query.BecomesPlainly (db : Schema) : Query → Query → Prop :=
  Query.BecomesAll (Query.IsPlainResolved db) fun _ _ => True

namespace Query.BecomesPlainly

variable {db : Schema} {c : Context} {g : Forest} {q q' p p' n n' : Query}

theorem keepsShape (db : Schema) : KeepsShape (BecomesPlainly db) :=
  BecomesAll.keepsShape fun _ h => h.plain.unnamed.1

/-- Given to the columns of a plain request is the occurrence of its source. -/
theorem made (h : n.BecomesPlainly db n') :
    ∃ owner, n.QualifiedBy owner n' ∧ n'.source.alias? = some owner := by
  obtain ⟨owner, hmade⟩ := BecomesAll.made (fun _ h => h.plain.unnamed.1) h
  exact ⟨owner, hmade, h.everywhere.self.plain.owner_eq hmade⟩

theorem resolves (h : n.BecomesPlainly db n') : n'.Resolves db := by
  obtain ⟨owner, hmade, -⟩ := h.made
  have hn := h.everywhere.self.resolves
  refine ⟨fun l' hl' => ?_, fun l' hl' => ?_, fun j' hj' => ?_⟩
  · rw [hmade.clauses] at hl'
    obtain ⟨l, hl, rfl⟩ := Option.map_eq_some_iff.1 hl'
    obtain ⟨e, he⟩ := hn.filter l hl
    exact ⟨e.qualified owner, by rw [Lookup.resolve_map, he]; rfl⟩
  · rw [hmade.clauses] at hl'
    obtain ⟨l, hl, rfl⟩ := Option.map_eq_some_iff.1 hl'
    obtain ⟨es, hes⟩ := hn.group l hl
    exact ⟨es.map (·.qualified owner), by rw [Lookup.resolve_map, hes]; rfl⟩
  · obtain ⟨j, hj, hrel⟩ := exists_of_forall₂ ((keepsShape db).joins h).flip hj'
    have hsame : j' = { j with query := j'.query } := Join.Related.join hrel
    rw [hsame]
    exact hn.links j hj

/-- A level of a plain request is ready when it is qualified: it mentions its own sources only, and
these have names. -/
theorem isReady (hc : Context.ofQuery g db q' = .ok c) (h : p.BecomesPlainly db p')
    (hp' : q'.HasLevel p') : p'.IsReady c := by
  obtain ⟨-, rfl, -⟩ := Context.ofQuery_eq_ok hc
  have hknown : ∀ n' ∈ p'.nodes, ∀ a, n'.source.alias? = some a → c.Knows a := by
    intro n' hn' a ha
    refine Context.name_of_mem hc (hp'.statementAliases_sublist.subset
      (p'.levelAliases_sublist.subset ?_))
    rw [levelAliases_eq]
    exact List.mem_flatMap.2 ⟨n', hn', by simp [ha]⟩
  have hmade : ∀ n' ∈ p'.nodes, ∃ n, BecomesPlainly c.schema n n' := by
    intro n' hn'
    obtain ⟨n, -, hnode⟩ := exists_of_forall₂ ((keepsShape c.schema).nodes h).flip hn'
    exact ⟨n, hnode⟩
  refine ⟨fun n' hn' => ?_, fun a ha => ?_, fun n' hn' => ?_⟩
  · obtain ⟨n, hnode⟩ := hmade n' hn'
    obtain ⟨owner, -, howner⟩ := hnode.made
    exact ⟨owner, howner, hknown n' hn' owner howner⟩
  · obtain ⟨n', hn', hmention⟩ := ha.of_node
    obtain ⟨n, hnode⟩ := hmade n' hn'
    obtain ⟨owner, hby, howner⟩ := hnode.made
    rcases hmention with hsource | hclauses
    · exact hknown n' hn' a hsource
    · rw [hby.clauses] at hclauses
      obtain ⟨o, ho, hsome⟩ := hclauses.of_qualified
      rw [hnode.everywhere.self.plain.eq_none ho] at hsome
      obtain rfl : a = owner := Option.some.inj hsome
      exact hknown n' hn' a howner
  · obtain ⟨n, hnode⟩ := hmade n' hn'
    exact hnode.resolves

theorem has_iff (h : n.BecomesPlainly db n') (clause : Token) :
    n'.clauses.Has clause ↔ n.clauses.Has clause := by
  obtain ⟨owner, hmade, -⟩ := h.made
  rw [hmade.clauses, Clauses.has_qualified]

theorem selection_eq_nil_iff (h : n.BecomesPlainly db n') :
    n'.clauses.selection = [] ↔ n.clauses.selection = [] := by
  obtain ⟨owner, hmade, -⟩ := h.made
  rw [hmade.clauses]
  exact List.map_eq_nil_iff

/-- A level is writable when what becomes of it is. -/
theorem isWritable (h : p.BecomesPlainly db p') (hp' : p'.IsWritable db) : p.IsWritable db := by
  refine ⟨?_, fun above j hj => ?_⟩
  · obtain ⟨n', hn', hselects⟩ := hp'.selects
    obtain ⟨n, hn, hnode⟩ := exists_of_forall₂ ((keepsShape db).nodes h).flip hn'
    exact ⟨n, hn, (selection_eq_nil_iff hnode).not.1 hselects⟩
  · obtain ⟨above', j', hj', habove, hrel⟩ := (keepsShape db).path hj ((keepsShape db).joins h)
    have hsame := hrel.join
    have hwritable := hp'.joins above' j' hj'
    rw [hsame] at hwritable
    refine ⟨fun clause hclause => ?_, fun hkind k hk => ?_, hwritable.agrees⟩
    · exact hwritable.clauses clause ((has_iff hrel.query clause).2 hclause)
    · obtain ⟨k', hk', hkrel⟩ := exists_of_forall₂ habove hk
      have hrequired := hwritable.required hkind k' hk'
      rwa [hkrel.join] at hrequired

/-- What keeps a qualified level from being written keeps the level from it. -/
theorem obstacle (h : p.BecomesPlainly db p') {e : CompileError} (hp' : p'.Obstacle db e) :
    p.Obstacle db e := by
  cases hp' with
  | nothingSelected hnone =>
    refine .nothingSelected fun n hn => ?_
    obtain ⟨n', hn', hnode⟩ := exists_of_forall₂ ((keepsShape db).nodes h) hn
    exact (selection_eq_nil_iff hnode).1 (hnone n' hn')
  | @join above' j' _ hj' hobstacle =>
    obtain ⟨above, j, hj, habove, hrel⟩ := (keepsShape db).of_path hj' ((keepsShape db).joins h)
    refine .join hj ?_
    have hsame := hrel.join
    have hquery := hrel.query
    generalize j'.query = query' at hsame hquery
    subst hsame
    cases hobstacle with
    | notJoinable hclause => exact .notJoinable ((has_iff hquery _).1 hclause)
    | requiredBeneathOptional hkind hk' hoptional =>
      obtain ⟨k, hk, hkrel⟩ := exists_of_forall₂ habove.flip hk'
      refine .requiredBeneathOptional hkind hk ?_
      have hkrel : Join.Related (BecomesPlainly db) k _ := hkrel
      rwa [hkrel.join] at hoptional
    | clashingJoins hl hclash => exact .clashingJoins hl hclash

end Query.BecomesPlainly

/-- **When a request without occurrences can be selected.** Where the schema knows what a request
asks of it, the request has a statement just when all of its levels can be written, and otherwise
fails as one of them does that can't. -/
theorem Query.selectStatement_succeeds_iff (db : Schema) (q : Query) (hq : q.IsPlain db)
    (hresolves : q.Everywhere (Query.Resolves db)) (f : Forest) :
    ((∃ st, (q.selectStatement db).outcome f = .ok st) ↔ ∀ p, q.HasLevel p → p.IsWritable db) ∧
      ∀ e, (q.selectStatement db).outcome f = .error e → ∃ p, q.HasLevel p ∧ p.Obstacle db e := by
  have hunnamed : q.Everywhere IsUnnamed := Everywhere.mono (fun _ hn => hn.unnamed) q hq
  obtain ⟨q', g, hqualify, hlacks⟩ := q.exists_qualify f hunnamed
  have hgrows := q.qualify_grows hunnamed hqualify
  obtain ⟨c, hc⟩ := Context.exists_ofQuery db (fun a ha => hgrows.root_eq ha) hlacks
  obtain ⟨-, rfl, -⟩ := Context.ofQuery_eq_ok hc
  have hbecomes : q.BecomesPlainly c.schema q' :=
    ⟨Everywhere.mono (fun _ hn => ⟨hn.1, hn.2⟩) q (hq.and q hresolves),
      q.qualify_qualified hqualify⟩
  have hshape := BecomesPlainly.keepsShape c.schema
  have hsettles := q'.toSelect_settles c fun p' hp' => by
    obtain ⟨p, -, hp⟩ := hshape.of_level hbecomes hp'
    exact BecomesPlainly.isReady hc hp hp'
  have houtcome : (q.selectStatement c.schema).outcome f =
      (·.fragment.statement) <$> q'.toSelect c := by
    rw [outcome_selectStatement hqualify, selectIn, hc, ok_bind]
  have hfails : ∀ e, (q.selectStatement c.schema).outcome f = .error e →
      ∃ p, q.HasLevel p ∧ p.Obstacle c.schema e := by
    intro e he
    cases ht : q'.toSelect c with
    | ok t =>
      rw [houtcome, ht] at he
      cases he
    | error e' =>
      rw [houtcome, ht] at he
      obtain rfl := Except.error.inj he
      obtain ⟨p', hp', hobstacle⟩ := hsettles.fails ht
      obtain ⟨p, hp, hrel⟩ := hshape.of_level hbecomes hp'
      exact ⟨p, hp, BecomesPlainly.obstacle hrel hobstacle⟩
  refine ⟨⟨?_, fun hwritable => ?_⟩, hfails⟩
  · rintro ⟨st, hst⟩ p hp
    rw [houtcome] at hst
    obtain ⟨t, ht, -⟩ := map_eq_ok.1 hst
    obtain ⟨p', hp', hrel⟩ := hshape.level hbecomes hp
    exact BecomesPlainly.isWritable hrel (hsettles.holds ht p' hp')
  · cases hst : (q.selectStatement c.schema).outcome f with
    | ok st => exact ⟨st, rfl⟩
    | error e =>
      obtain ⟨p, hp, hobstacle⟩ := hfails e hst
      exact absurd (hwritable p hp) hobstacle.not_isWritable

/-- A request with a selection, a filter and joins resolves when the links of its joins do. -/
theorem Query.resolves_of_links {db : Schema} {source : Source} {items : List (SelectItem Alias)}
    (filter? : Option (Expr Alias)) {joins : List Join}
    (hlinks : ∀ j ∈ joins, ∀ l ∈ j.link :: j.mergedLinks,
      ∃ p ps, l.key.resolve db = .ok (p :: ps)) :
    Query.Resolves db
      ⟨source, { selection := items, filter? := filter?.map .const }, joins, false⟩ := by
  refine ⟨fun l hl => ?_, nofun, hlinks⟩
  obtain ⟨e, -, rfl⟩ := Option.map_eq_some_iff.1 hl
  exact ⟨e, rfl⟩

theorem Query.booksOfSameAuthor_resolves :
    booksOfSameAuthor.Everywhere (Query.Resolves bookCatalog.schema) := by
  have hkey : ({ origin := "book", destination := "author" } : KeyLink).resolve bookCatalog.schema =
      .ok [("authorId", "id")] := rfl
  have hlink : ∀ isHeld,
      ∀ l ∈ [(⟨{ origin := "book", destination := "author" }, isHeld⟩ : JoinLink)],
      ∃ p ps, l.key.resolve bookCatalog.schema = .ok (p :: ps) := by
    intro isHeld l hl
    obtain rfl := List.mem_singleton.1 hl
    exact ⟨_, _, hkey⟩
  refine ⟨resolves_of_links (some _) nofun, ⟨resolves_of_links none fun j hj => ?_, trivial,
    ⟨resolves_of_links none fun j hj => ?_, trivial,
      ⟨resolves_of_links none nofun, trivial, trivial⟩, trivial⟩, trivial⟩, trivial⟩
  · obtain rfl := List.mem_singleton.1 hj
    exact hlink true
  · obtain rfl := List.mem_singleton.1 hj
    exact hlink false

theorem Query.selectStatement_succeeds_iff_books : booksOfSameAuthor.IsPlain bookCatalog.schema ∧
    booksOfSameAuthor.Everywhere (Query.Resolves bookCatalog.schema) ∧
      ∀ p, booksOfSameAuthor.HasLevel p → p.IsWritable bookCatalog.schema := by
  have hplain := booksOfSameAuthor_isPlain bookCatalog.schema
  have hresolves := booksOfSameAuthor_resolves
  refine ⟨hplain, hresolves, ?_⟩
  exact (Query.selectStatement_succeeds_iff bookCatalog.schema booksOfSameAuthor hplain hresolves
    .empty).1.1 ⟨_, rfl⟩

end SqlTree
