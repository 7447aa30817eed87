import SqlTree.Proofs.Query.Spawned
import SqlTree.Proofs.Statement.ColumnNames
import SqlTree.Proofs.Statement.Mentions

/-!
# Names of the sources of a level

A reader of a statement tells the sources of a level apart by their names, and finds the source of a
column by what stands in front of it. Names are given to occurrences, so this works as long as the
sources are different occurrences and every column says which one it belongs to.

* `Select.TellsApart` is that a level can be read so.
* `Query.IsWritten.tellsApart_iff`: when it can, for the qualified request of a level.
* `Query.selectStatement_tellsApart_iff`: when it can at the levels of the statement of a request.
  Two sources that were given one occurrence are written under one name.
-/

namespace SqlTree

/-- The names by which columns may refer to the sources of a level. -/
def Select.sourceNames (t : Select) : List String := t.fromItems.filterMap (·.name?)

/-- The sources of a level go by names that differ in more than ASCII case, and when there are joins
every star and column stands behind a name. -/
structure Select.TellsApart (t : Select) : Prop where
  names : t.sourceNames.Pairwise fun x y => Text.asciiLower x ≠ Text.asciiLower y
  prefixed : t.joins ≠ [] → ∀ x ∈ t.owners, x.isSome

/-! ## One level -/

theorem Scope.owner?_isSome {s : Scope} {o : Option Alias} {x : Option String}
    (hshown : s.showsNames = true) (h : s.owner? o = .ok x) : x.isSome = o.isSome := by
  cases o with
  | none =>
    obtain rfl := pure_eq_ok.1 h
    rfl
  | some a =>
    simp only [owner?, hshown, if_true, bind_eq_ok, pure_eq_ok] at h
    obtain ⟨n, -, rfl⟩ := h
    rfl

theorem Scope.owner?_hidden {s : Scope} {o : Option Alias} {x : Option String}
    (hshown : ¬ s.showsNames = true) (h : s.owner? o = .ok x) : x = none := by
  cases o with
  | none => exact (pure_eq_ok.1 h).symm
  | some a =>
    simp only [owner?, if_neg hshown, bind_eq_ok, pure_eq_ok] at h
    obtain ⟨n, -, rfl⟩ := h
    rfl

section

variable {c : Context} {q : Query} {own : Alias} {sites : List (Site Alias)} {t : Select}

/-- The names of the sources of a level that shows names are those of their occurrences. -/
theorem Query.IsWritten.sourceNames_rel (h : q.IsWritten c own sites t)
    (hshown : (q.scope c).showsNames = true) :
    List.Forall₂ (fun a x => c.name a = .ok x) q.levelAliases t.sourceNames := by
  have hexposed := h.exposed hshown
  rw [← h.levelAliases_eq] at hexposed
  rw [Select.sourceNames]
  generalize q.levelAliases = as at hexposed ⊢
  generalize t.fromItems = items at hexposed ⊢
  induction hexposed with
  | nil => exact .nil
  | cons hname _ ih =>
    obtain ⟨x, hx, hitem⟩ := hname
    rw [List.filterMap_cons_some hitem]
    exact .cons hx ih

theorem Query.IsWritten.joins_eq_nil_iff (h : q.IsWritten c own sites t) :
    t.joins = [] ↔ q.joins = [] := by
  rw [← h.placed.eq_nil_iff, ← List.length_eq_zero_iff, ← List.length_eq_zero_iff,
    h.joins.length_eq]

/-- **A level can be read when its sources are different occurrences and nothing at a level with
joins is without one.** -/
theorem Query.IsWritten.tellsApart_iff (h : q.IsWritten c own sites t) (hc : c.IsDistinct) :
    t.TellsApart ↔ (q.levelAliases.map c.forest.root).Nodup ∧
      (q.joins ≠ [] → ∀ o, q.Mentions c.schema o → o.isSome) := by
  have hwrites := h.writes
  have hjoins := h.joins_eq_nil_iff
  by_cases hq : q.joins = []
  · have hsites := h.placed.eq_nil_iff.2 hq
    have hitems : t.fromItems = [t.source] := by
      rw [Select.fromItems, hjoins.2 hq]
      rfl
    refine iff_of_true ⟨?_, fun ht => absurd (hjoins.2 hq) ht⟩ ⟨?_, fun hne => absurd hq hne⟩
    · rw [Select.sourceNames, hitems, List.filterMap_cons]
      split <;> simp
    · rw [h.levelAliases_eq, hsites]
      exact List.nodup_singleton _
  · by_cases hshown : (q.scope c).showsNames = true
    · have hnames : t.sourceNames.Pairwise (fun x y => Text.asciiLower x ≠ Text.asciiLower y) ↔
          (q.levelAliases.map c.forest.root).Nodup := by
        rw [List.Nodup, List.pairwise_map]
        refine (pairwise_iff_of_forall₂ (fun a x b y ha hb => ⟨fun hne => hc a b x y hne ha hb, ?_⟩)
          (h.sourceNames_rel hshown)).symm
        rintro hne hroot
        exact hne (congrArg _ (Context.name_eq_of_root_eq hroot ha hb))
      have howners : (t.joins ≠ [] → ∀ x ∈ t.owners, x.isSome) ↔
          (q.joins ≠ [] → ∀ o, q.Mentions c.schema o → o.isSome) := by
        rw [Ne, Ne, hjoins]
        refine imp_congr_right fun _ => ⟨fun hx o ho => ?_, fun ho x hx => ?_⟩
        · obtain ⟨x, hmem, howner⟩ := hwrites.complete o ho
          rw [← Scope.owner?_isSome hshown howner]
          exact hx x hmem
        · obtain ⟨o, hmention, howner⟩ := hwrites.sound x hx
          rw [Scope.owner?_isSome hshown howner]
          exact ho o hmention
      exact ⟨fun ht => ⟨hnames.1 ht.names, howners.1 ht.prefixed⟩,
        fun hd => ⟨hnames.2 hd.1, howners.2 hd.2⟩⟩
    · -- The link of a join is written bare, and the sources are all one occurrence.
      refine iff_of_false (fun ht => ?_) fun hd => hshown ((h.showsNames_iff hd.1).2 hq)
      obtain ⟨j, rest, hj⟩ := List.exists_cons_of_ne_nil hq
      have hmention : q.Mentions c.schema q.source.alias? :=
        .parent ((h.mem_nodes_iff q).2 (.inl rfl)) (hj ▸ List.mem_cons_self) rfl
      obtain ⟨x, hx, howner⟩ := hwrites.complete _ hmention
      have hsome := ht.prefixed (hjoins.not.2 hq) x hx
      rw [Scope.owner?_hidden hshown howner] at hsome
      cases hsome

end

/-! ## All levels -/

/-- **The levels of a statement can be read when no two of their sources were given one
occurrence.** What is said of columns without an occurrence is about requests that were qualified
before they got their columns; there are none in a tree in which nothing was qualified. -/
theorem Query.selectStatement_tellsApart_iff (db : Schema) (q : Query) {f g : Forest}
    {st : Statement} (hf : f.IsGrounded) (hclosed : f.IsClosed) (hq : q.IsWithin f)
    (h : AliasM.Runs (q.selectStatement db) f st g) :
    ∃ (q' : Query) (t : Select), AliasM.Runs q.qualify f q' g ∧ st = t.fragment.statement ∧
      (∀ p' u, Level q' t p' u → ∃ p, q.HasLevel p ∧ p.BecomesAnew f p' ∧
        (u.TellsApart ↔ (p.levelAliases.map f.root).Nodup ∧
          (p'.joins ≠ [] → ∀ o, p'.Mentions db o → o.isSome))) ∧
      (q.Everywhere (·.isQualified = false) →
        ∀ p', q'.HasLevel p' → ∀ o, p'.Mentions db o → o.isSome) := by
  simp only [selectStatement, AliasM.runs_bind, AliasM.runs_pure, AliasM.runs_read] at h
  obtain ⟨q', f', hqualify, t, f'', ⟨hselect, rfl⟩, rfl, rfl⟩ := h
  obtain ⟨c, hc, ht⟩ := bind_eq_ok.1 hselect
  obtain ⟨rfl, rfl, -⟩ := Context.ofQuery_eq_ok hc
  have hdistinct : c.IsDistinct := fun a b x y hne ha hb => Context.name_ne hc hne ha hb
  obtain ⟨hspawns, hanew⟩ := q.qualify_spawns hf hclosed.widens_self hq hqualify
  refine ⟨q', t, hqualify, rfl, fun p' u hlevel => ?_, fun hall p' hp' o ho => ?_⟩
  · obtain ⟨p, hp, hbecomes⟩ := BecomesUpTo.keepsShape.of_level (.qualified hanew) hlevel.hasLevel
    obtain ⟨⟨own, sites, hw⟩, -⟩ := Query.toSelect_isWritten (hlevel.toSelect ht)
    refine ⟨p, hp, hbecomes, ?_⟩
    rw [hw.tellsApart_iff hdistinct, hbecomes.levelAliases_nodup_iff (hq.of_hasLevel hp) hclosed
      hlevel.hasLevel hspawns]
  · obtain ⟨p, -, hbecomes⟩ := (BecomesAll.keepsShape fun _ h => h).of_level ⟨hall, hanew⟩ hp'
    exact ho.isSome (fun _ h => h) hbecomes

/-- All players with their captains, who are the same occurrence as the players. -/
def playersAsCaptains : Query :=
  let players := { Query.table "player" with source := .table "player" (some ⟨0⟩) }
  { players with
    joins := [((Association.belongsTo "player" "player").withDestination players).toJoin
      .required true] }

/-- A catalog of players, each of whom has a captain among them. -/
def playerCatalog : Catalog where
  tables := [
    { name := "player", columns := ["id", "name", "captainId"], declaredKey? := some (.rowId "id"),
      foreignKeys := [⟨"player", [("captainId", "id")]⟩] }]

/-- The forest of an occurrence that is called `p`. -/
def forestOfP : Forest := (Forest.empty.fresh (some "p")).2

/-- Both sources of the statement are called `p`, and nothing stands in front of its columns. -/
theorem Query.selectStatement_tellsApart_iff_captains :
    ∃ (st : Statement) (g : Forest) (t : Select),
      AliasM.Runs (playersAsCaptains.selectStatement playerCatalog.schema) forestOfP st g ∧
        st = t.fragment.statement ∧ ¬ t.TellsApart := by
  have hruns : ∃ st g,
      AliasM.Runs (playersAsCaptains.selectStatement playerCatalog.schema) forestOfP st g :=
    ⟨_, _, rfl⟩
  obtain ⟨st, g, hruns⟩ := hruns
  have hnode : ∀ joins, IsNodeWithin forestOfP
      ⟨.table "player" (some ⟨0⟩), { selection := [.star none] }, joins, false⟩ := by
    intro joins
    refine ⟨?_, ?_, ?_, ?_, ?_, ?_⟩ <;>
      simp [Source.alias?, SelectItem.IsWithin, SortOrder.empty, SortOrder.exprs,
        SortOrder.elementsExprs, Forest.Holds, forestOfP, Forest.fresh, Forest.empty]
  have hwithin : playersAsCaptains.IsWithin forestOfP :=
    ⟨hnode _, trivial, ⟨hnode [], trivial, trivial⟩, trivial⟩
  have htables : ∀ n ∈ playersAsCaptains.nodes, n.source.tableName? = some "player" := by decide
  have hone : ∀ p, playersAsCaptains.HasLevel p → p = playersAsCaptains := by
    intro p hp
    induction hp with
    | top => rfl
    | nested _ hn hsource ih =>
      subst ih
      have htable := htables _ hn
      rw [hsource] at htable
      cases htable
  obtain ⟨q', t, -, hst, hlevels, -⟩ := Query.selectStatement_tellsApart_iff playerCatalog.schema
    playersAsCaptains (Forest.fresh_coarsens Forest.isGrounded_empty _).grounded
    (Forest.fresh_widens Forest.isClosed_empty _).closed hwithin hruns
  obtain ⟨p, hp, -, hiff⟩ := hlevels q' t .top
  obtain rfl := hone p hp
  refine ⟨st, g, t, hruns, hst, fun ht => ?_⟩
  exact absurd (hiff.1 ht).1 (by decide)

end SqlTree
