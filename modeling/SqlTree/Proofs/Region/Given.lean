import SqlTree.Proofs.Region.Agree
import SqlTree.Proofs.Region.Sound

/-!
# Regions of requests as they are given

The region of a request is that of what qualifying makes of it. But it can be read off the request
as it was given, in the forest as it was: qualifying keeps the tables, and what it takes for the row
id of the source are the columns that were without an occurrence, or of the occurrence that the
source was.

* `Query.qualify_own`: which identities are the occurrence of the source of a qualified request.
* `Query.rowIds?_qualify`: a qualified filter tells what the filter told.
* `Query.regionIn_of_runs`: the region of a request needs no qualifying.
-/

namespace SqlTree

variable {f g : Forest} {db : Schema} {q q' : Query} {r : Region} {name : String}

/-! ## The source of a qualified request -/

/-- The occurrence of a source that had none is a new one, which no identity made before is of. -/
theorem Query.qualify_own_of_unnamed {clauses : Clauses} {joins : List Join} (hf : f.IsGrounded)
    (hclosed : f.IsClosed) (hq : (Query.mk (.table name none) clauses joins false).IsWithin f)
    (h : AliasM.Runs (Query.mk (.table name none) clauses joins false).qualify f q' g) :
    ∃ owner, q'.source.alias? = some owner ∧ q'.clauses = clauses.qualified owner ∧
      ∀ a, f.Holds a → g.isSame a owner = false := by
  simp only [Query.qualify, Source.qualify, AliasM.bind, AliasM.runs_bind, AliasM.runs_pure,
    AliasM.runs_change, AliasM.runs_fresh] at h
  obtain ⟨owner, f₁, hfresh, _, f₂, ⟨_, _, hbind, rfl, rfl⟩, joins', _, hjoins, rfl, rfl⟩ := h
  obtain ⟨rfl, rfl⟩ : owner = (f.fresh none).1 ∧ f₁ = (f.fresh none).2 := Prod.mk.inj hfresh
  refine ⟨_, rfl, rfl, fun a ha => ?_⟩
  have hw₁ := Forest.fresh_widens hclosed none
  have hf₁ := (Forest.fresh_coarsens hf none).grounded
  have hw₂ := Forest.bind_widens hf₁ hw₁.closed hbind
  have hwithin := joinsEverywhere_mono (Query.IsNodeWithin.mono (hw₁.trans hw₂)) joins hq.joins
  -- Up to the joins the roots are as before, and qualifying these shows at no identity made so far.
  have hroot₂ : ∀ b, f₂.root b = f.root b := fun b =>
    (((Forest.sameProxies_bind hf₁ hbind).root_eq hf₁).2 b).trans
      (congrArg Entry.root (Forest.entry_fresh_none hf b))
  have hbinds := (qualifyJoins_binds joins (Forest.bind_coarsens hf₁ hbind).grounded hw₂.closed
    hwithin (fun _ hb => hb) (joinsOpenTables_held joins hwithin)).runs _ _ hjoins
  have hroot : ∀ b, f₂.Holds b → g.root b = f.root b :=
    fun b hb => (hbinds.root b hb).trans (hroot₂ b)
  have hnew : ¬ f.Holds (f.fresh none).1 := Nat.lt_irrefl _
  have howner : f.root (f.fresh none).1 = (f.fresh none).1 :=
    congrArg Entry.root (Forest.entry_of_not_holds hnew)
  rw [Forest.isSame, hroot a ((hw₁.trans hw₂).holds ha),
    hroot _ (hw₂.holds (f.made_fresh none).2), howner, beq_eq_false_iff_ne]
  exact fun heq => hnew (heq ▸ hclosed.holds_root ha)

/-- **The occurrence of a qualified source.** It is the one that the columns are given, and an
identity made before is of it just when it was of the occurrence that the source was. -/
theorem Query.qualify_own {alias? : Option Alias} (hf : f.IsGrounded) (hclosed : f.IsClosed)
    (hq : q.IsWithin f) (hsource : q.source = .table name alias?) (hopen : q.isQualified = false)
    (h : AliasM.Runs q.qualify f q' g) :
    ∃ owner own, q'.source.alias? = some own ∧ q'.clauses = q.clauses.qualified owner ∧
      g.isSame owner own = true ∧ ∀ a, f.Holds a → g.isSame a own = alias?.any (f.isSame a) := by
  obtain ⟨source, clauses, joins, isQualified⟩ := q
  obtain rfl : source = .table name alias? := hsource
  obtain rfl : isQualified = false := hopen
  cases alias? with
  | none =>
    obtain ⟨owner, hown, hclauses, hnot⟩ := qualify_own_of_unnamed hf hclosed hq h
    exact ⟨owner, owner, hown, hclauses, beq_self_eq_true _, hnot⟩
  | some own =>
    obtain ⟨owner, hsource, hclauses, -⟩ := (qualify_sameRoot _ hf h).made_by rfl
    have hbinds :=
      (qualify_binds _ hf hclosed hq (fun _ ha => ha) (openTables_held _ hq)).runs _ _ h
    refine ⟨owner, own, hsource.alias?_eq, hclauses, beq_iff_eq.2 hsource.same_getD, fun a ha => ?_⟩
    rw [Forest.isSame, hbinds.root a ha, hbinds.root own (hq.self.source own rfl)]
    rfl

/-! ## Row ids and regions -/

/-- A column is taken for the row id of the qualified source when it is, as it was given, for that
of the source as it was given. -/
theorem RowIdColumn.isMatch_qualified {column : String} {own? : Option Alias} {owner own : Alias}
    (howner : g.isSame owner own = true)
    (hown : ∀ a, f.Holds a → g.isSame a own = own?.any (f.isSame a)) {e : Expr Alias}
    (he : e.IsOver f.Holds) :
    RowIdColumn.isMatch ⟨column, some own⟩ g (e.qualified owner) =
      RowIdColumn.isMatch ⟨column, own?⟩ f e := by
  cases e with
  | column name owner? =>
    cases owner? with
    | none => rw [Expr.qualified, isMatch, isMatch, isOwn, isOwn, Option.any_some, howner]; rfl
    | some a =>
      have ha : f.Holds a := he (name, some a) List.mem_cons_self a rfl
      rw [Expr.qualified, isMatch, isMatch, isOwn, isOwn, Option.any_some, hown a ha]
      rfl
  | _ => rfl

/-- **A qualified filter tells what the filter told.** -/
theorem Query.rowIds?_qualify {alias? : Option Alias} (hf : f.IsGrounded) (hclosed : f.IsClosed)
    (hq : q.IsWithin f) (hsource : q.source = .table name alias?)
    (h : AliasM.Runs q.qualify f q' g) : q'.rowIds? g db name = q.rowIds? f db name := by
  by_cases hopen : q.isQualified = true
  · obtain ⟨source, clauses, joins, isQualified⟩ := q
    obtain rfl : isQualified = true := hopen
    rw [qualify, AliasM.runs_pure] at h
    obtain ⟨rfl, rfl⟩ := h
    rfl
  · obtain ⟨owner, own, hown, hclauses, howner, hsame⟩ :=
      qualify_own hf hclosed hq hsource (Bool.eq_false_iff.2 hopen) h
    have hown? : q.source.alias? = alias? := hsource ▸ rfl
    rw [rowIds?, rowIds?, hown, hown?, hclauses, Clauses.qualified]
    refine bind_congr_ok fun key _ => ?_
    cases key.rowIdColumn? with
    | none => rfl
    | some column =>
      cases hfilter : q.clauses.filter? with
      | none => rfl
      | some filter =>
        simp only [Option.map_some, Lookup.resolve_map]
        refine map_bind_congr fun e he => congrArg Except.ok ?_
        rw [Expr.rowIds?_qualified]
        exact Expr.rowIds?_congr (fun _ => RowIdColumn.isMatch_qualified howner hsame)
          (hq.self.filter filter hfilter db e he)

/-- A qualified request has the region that the request had as it was given. -/
theorem Query.regionIn_qualify (hf : f.IsGrounded) (hclosed : f.IsClosed) (hq : q.IsWithin f)
    (h : AliasM.Runs q.qualify f q' g) : q'.regionIn g db = q.regionIn f db := by
  have hqualified := q.qualify_qualified h
  rw [regionIn, regionIn, hqualified.tableNames_eq]
  refine bind_congr_ok fun names _ => ?_
  have htable := hqualified.source_tableName?
  cases hsource : q.source with
  | nested query alias? =>
    cases hsource' : q'.source with
    | nested query' alias?' => rfl
    | table name alias?' =>
      rw [hsource, hsource'] at htable
      cases htable
  | table name alias? =>
    cases hsource' : q'.source with
    | nested query' alias?' =>
      rw [hsource, hsource'] at htable
      cases htable
    | table name' alias?' =>
      rw [hsource, hsource'] at htable
      obtain rfl : name' = name := Option.some.inj htable
      simp only [rowIds?_qualify hf hclosed hq hsource h]

/-- **The region of a request needs no qualifying.** -/
theorem Query.regionIn_of_runs (hf : f.IsGrounded) (hclosed : f.IsClosed) (hq : q.IsWithin f)
    (h : AliasM.Runs (q.region db) f r g) : q.regionIn f db = .ok r := by
  simp only [region, AliasM.runs_bind, AliasM.runs_read] at h
  obtain ⟨q', _, hruns, hr, rfl⟩ := h
  rw [← regionIn_qualify hf hclosed hq hruns, hr]

end SqlTree
