import SqlTree.Proofs.Query.Regrouped
import SqlTree.Proofs.Region.Given
import SqlTree.Proofs.Region.Lattice

/-!
# Narrowed regions

The region of a request is, in the lattice of regions, that of all its tables read whole, with one
of them narrowed to some row ids at most.

* `Query.narrowed?` is the table that is narrowed and what to, `readRows` what is read then.
  `Query.view_regionIn`: that is the region.
* `Query.regionIn_le`: of two requests on one table the one that reads more tables, and tells row ids
  only where the other one tells some of these, has the larger region.
* `Expr.rowIds?_and`: two conditions together tell what both of them do.
* `Query.rowIds?_keeps`: what a filter tells depends on which identities in it are the occurrence of
  the source.
-/

namespace SqlTree

/-! ## Views of narrowed regions -/

/-- All rows of the given tables, and no others. -/
noncomputable def wholeRows (names : List String) (key : String) : WithTop (Set Int64) :=
  if key ∈ names then ⊤ else ⊥

theorem wholeRows_mono {names names' : List String} (h : names ⊆ names') :
    wholeRows names ≤ wholeRows names' := by
  intro key
  rw [wholeRows, wholeRows]
  split
  case isTrue hmem => rw [if_pos (h hmem)]
  case isFalse => exact bot_le

namespace TableMap

variable {m : TableMap} {name : String}

theorem view_insert (rows : Rows) :
    (m.insert name rows).view = Function.update m.view name rows.view := by
  funext key
  rw [view, find?_insert, Function.update_apply]
  split <;> rfl

/-- Leaving tables without rows out makes no difference. -/
theorem view_filter_nonempty : (m.filter (!·.2.isEmpty)).view = m.view := by
  funext key
  rw [view, find?_filter, view]
  cases m.find? key with
  | none => rfl
  | some rows =>
    by_cases hempty : rows.isEmpty = true
    · simpa [Option.filter, hempty] using (Rows.view_eq_bot_iff.2 hempty).symm
    · simp [Option.filter, hempty]

end TableMap

namespace Region

theorem view_ofTables (names : List String) :
    (ofTables names).view = wholeRows (names.map Text.asciiLower) := by
  have htable : ∀ name, (table name).view =
      (wholeRows [Text.asciiLower name] : String → WithTop (Set Int64)) := by
    intro name
    refine congrArg _ ((TableMap.view_insert .all).trans ?_)
    funext key
    simp only [Function.update_apply, wholeRows, List.mem_singleton]
    split <;> rfl
  have hfold : ∀ r : Region, (names.foldl (fun r name => r.union (.table name)) r).view =
      r.view ⊔ (wholeRows (names.map Text.asciiLower) : String → WithTop (Set Int64)) := by
    induction names with
    | nil => exact fun r => (sup_bot_eq _).symm
    | cons name rest ih =>
      intro r
      rw [List.foldl_cons, ih, view_union, htable, sup_assoc, ← WithTop.coe_sup]
      congr 2
      funext key
      by_cases hkey : key = Text.asciiLower name <;> simp [wholeRows, hkey]
  rw [ofTables, hfold]
  exact bot_sup_eq _

theorem view_narrow {r : Region} {own : String} {ids : IdSet} {v : String → WithTop (Set Int64)}
    (hr : r.view = v) (hown : v own ≠ ⊥) :
    (r.narrow own ids).view = Function.update v own (Rows.only ids).view := by
  cases r with
  | full => exact absurd hr WithTop.top_ne_coe
  | empty =>
    obtain rfl : ⊥ = v := WithTop.coe_eq_coe.1 hr
    exact absurd rfl hown
  | tables m =>
    obtain rfl : m.view = v := WithTop.coe_eq_coe.1 hr
    rw [narrow, view_ofMap, TableMap.view_filter_nonempty, TableMap.view_insert]

end Region

/-! ## What narrows a region -/

/-- All rows of the given tables, but of one of them only those that it is narrowed to. -/
noncomputable def readRows (names : List String) :
    Option (String × IdSet) → String → WithTop (Set Int64)
  | none => wholeRows names
  | some (own, ids) => Function.update (wholeRows names) own (Rows.only ids).view

/-- More is read of more tables, with less narrowing. -/
theorem readRows_mono {names names' : List String} {narrowed? narrowed?' : Option (String × IdSet)}
    (hnames : names ⊆ names') (hown : ∀ own ids, narrowed? = some (own, ids) → own ∈ names)
    (hids : ∀ own ids', narrowed?' = some (own, ids') →
      ∃ ids, narrowed? = some (own, ids) ∧ ∀ n ∈ ids, n ∈ ids') :
    readRows names narrowed? ≤ readRows names' narrowed?' := by
  have hwhole := wholeRows_mono hnames
  cases narrowed?' with
  | none =>
    cases narrowed? with
    | none => exact hwhole
    | some p =>
      obtain ⟨own, ids⟩ := p
      refine update_le_iff.2 ⟨?_, fun key _ => hwhole key⟩
      rw [readRows, wholeRows, if_pos (hnames (hown own ids rfl))]
      exact le_top
  | some p =>
    obtain ⟨own, ids'⟩ := p
    obtain ⟨ids, rfl, hsub⟩ := hids own ids' rfl
    exact update_le_update_iff.2 ⟨WithTop.coe_le_coe.2 hsub, fun key _ => hwhole key⟩

namespace Query

variable {f f' : Forest} {db : Schema} {q q' : Query} {r r' : Region} {name : String}

/-- The table that the region of a request is narrowed in, and the row ids that it is narrowed to.
The tables that the request reads are called `names`. -/
def narrowed? (f : Forest) (db : Schema) (names : List String) (q : Query) :
    Option (String × IdSet) := do
  let name ← q.source.tableName?
  let own ← (db.regionName name).toOption
  let ids ← (q.rowIds? f db name).toOption.join
  if 1 < names.count own then none else some (own, ids)

theorem narrowed?_eq_some {names : List String} {own : String} {ids : IdSet} :
    q.narrowed? f db names = some (own, ids) ↔
      ∃ name, q.source.tableName? = some name ∧ db.regionName name = .ok own ∧
        q.rowIds? f db name = .ok (some ids) ∧ names.count own ≤ 1 := by
  have hok : ∀ {α : Type} {x : Except CompileError α} {a : α}, x.toOption = some a ↔ x = .ok a := by
    intro α x a
    cases x <;> simp [Except.toOption]
  simp only [narrowed?, Option.bind_eq_bind, Option.bind_eq_some_iff, Option.join_eq_some_iff, hok]
  constructor
  · rintro ⟨name, hname, own', hown, ids', hids, h⟩
    split at h
    case isTrue => cases h
    case isFalse hcount =>
      obtain ⟨rfl, rfl⟩ := Prod.mk.inj (Option.some.inj h)
      exact ⟨name, hname, hown, hids, Nat.not_lt.1 hcount⟩
  · rintro ⟨name, hname, hown, hids, hcount⟩
    exact ⟨name, hname, own, hown, ids, hids, if_neg (Nat.not_lt.2 hcount)⟩

theorem mem_tableNames (h : q.source.tableName? = some name) : name ∈ q.tableNames := by
  cases hsource : q.source with
  | nested query alias? =>
    rw [hsource] at h
    cases h
  | table name' alias? =>
    rw [hsource] at h
    obtain rfl : name' = name := Option.some.inj h
    rw [q.tableNames_of_table hsource]
    exact List.mem_cons_self

/-- The table that is narrowed is one that is read. -/
theorem mem_of_narrowed? {names : List String} {own : String} {ids : IdSet}
    (hnames : q.tableNames.mapM db.regionName = .ok names)
    (h : q.narrowed? f db names = some (own, ids)) : own ∈ names := by
  obtain ⟨name, hname, hown, -, -⟩ := narrowed?_eq_some.1 h
  obtain ⟨own', hmem, hown'⟩ := exists_of_forall₂ (mapM_eq_ok.1 hnames) (mem_tableNames hname)
  obtain rfl := Except.ok.inj (hown.symm.trans hown')
  exact hmem

/-- **The region of a request** has its tables, one of them narrowed. -/
theorem view_regionIn (h : q.regionIn f db = .ok r) :
    ∃ names, q.tableNames.mapM db.regionName = .ok names ∧
      r.view = readRows names (q.narrowed? f db names) := by
  rw [regionIn] at h
  obtain ⟨names, hnames, h⟩ := bind_eq_ok.1 h
  refine ⟨names, hnames, ?_⟩
  have hlower : names.map Text.asciiLower = names := by
    refine (List.map_congr_left fun n hn => ?_).trans (List.map_id names)
    obtain ⟨name, -, hname⟩ := exists_of_forall₂ (mapM_eq_ok.1 hnames).flip hn
    simp only [Schema.regionName, bind_eq_ok, pure_eq_ok] at hname
    obtain ⟨declared, -, rfl⟩ := hname
    exact Text.asciiLower_asciiLower declared
  have hview : (Region.ofTables names).view = wholeRows names := by
    rw [Region.view_ofTables, hlower]
  have hwhole : q.narrowed? f db names = none → r = .ofTables names →
      r.view = readRows names (q.narrowed? f db names) := by
    rintro hnone rfl
    rw [hnone, hview]
    rfl
  cases hsource : q.source with
  | nested query alias? =>
    rw [hsource] at h
    refine hwhole ?_ (pure_eq_ok.1 h).symm
    rw [narrowed?, hsource]
    rfl
  | table name alias? =>
    simp only [hsource] at h
    obtain ⟨own, hown, h⟩ := bind_eq_ok.1 h
    have hname : q.source.tableName? = some name := hsource ▸ rfl
    have hnarrowed : ∀ own' ids, q.narrowed? f db names = some (own', ids) →
        q.rowIds? f db name = .ok (some ids) ∧ names.count own ≤ 1 := by
      intro own' ids h
      obtain ⟨name', hname', hown', hids, hcount⟩ := narrowed?_eq_some.1 h
      obtain rfl := Option.some.inj (hname.symm.trans hname')
      obtain rfl := Except.ok.inj (hown.symm.trans hown')
      exact ⟨hids, hcount⟩
    split at h
    case isTrue hcount =>
      refine hwhole (Option.eq_none_iff_forall_ne_some.2 ?_) (pure_eq_ok.1 h).symm
      rintro ⟨own', ids⟩ h
      exact absurd (hnarrowed own' ids h).2 (Nat.not_le.2 hcount)
    case isFalse hcount =>
      split at h
      · rename_i ids hids
        have hnarrow := narrowed?_eq_some.2 ⟨name, hname, hown, hids, Nat.not_lt.1 hcount⟩
        rw [hnarrow, ← pure_eq_ok.1 h, readRows]
        refine Region.view_narrow hview ?_
        rw [wholeRows, if_pos (mem_of_narrowed? hnames hnarrow)]
        exact top_ne_bot
      · rename_i hnot
        refine hwhole (Option.eq_none_iff_forall_ne_some.2 ?_) (pure_eq_ok.1 h).symm
        rintro ⟨own', ids⟩ h
        exact hnot ids (hnarrowed own' ids h).1

/-- **A request that reads more and is narrowed less has the larger region.** -/
theorem regionIn_le (hr : q.regionIn f db = .ok r) (hr' : q'.regionIn f' db = .ok r')
    (htable : q'.source.tableName? = q.source.tableName?)
    (hnames : q.tableNames.Sublist q'.tableNames)
    (hids : ∀ name ids', q'.rowIds? f' db name = .ok (some ids') →
      ∃ ids, q.rowIds? f db name = .ok (some ids) ∧ ∀ n ∈ ids, n ∈ ids') : r.inter r' = r := by
  obtain ⟨names, hmap, hview⟩ := view_regionIn hr
  obtain ⟨names', hmap', hview'⟩ := view_regionIn hr'
  have hsub : names.Sublist names' := by
    have hdeclared : ∀ name n, db.regionName name = .ok n →
        n = (db.regionName name).toOption.getD "" := by
      intro name n hn
      rw [hn]
      rfl
    rw [eq_map_of_mapM_eq_ok hdeclared hmap, eq_map_of_mapM_eq_ok hdeclared hmap']
    exact hnames.map _
  have hle : r.view ≤ r'.view := by
    rw [hview, hview', WithTop.coe_le_coe]
    refine readRows_mono hsub.subset (fun own ids h => mem_of_narrowed? hmap h) fun own ids' h => ?_
    obtain ⟨name, hname, hown, hids', hcount⟩ := narrowed?_eq_some.1 h
    obtain ⟨ids, hids, hmem⟩ := hids name ids' hids'
    refine ⟨ids, narrowed?_eq_some.2 ⟨name, htable ▸ hname, hown, hids, ?_⟩, hmem⟩
    exact (hsub.count_le own).trans hcount
  have hnormal := Region.isNormal_regionIn hr
  refine (hnormal.inter (Region.isNormal_regionIn hr')).ext hnormal ?_
  rw [Region.view_inter, inf_eq_left]
  exact hle

end Query

/-! ## What conditions tell together -/

theorem IdSet.inter_assoc (s t u : IdSet) : (s.inter t).inter u = s.inter (t.inter u) :=
  ext_mem fun n => by simp only [mem_inter, and_assoc]

namespace Expr

variable {ρ : Type} {isRowId : Expr ρ → Bool}

theorem conjRowIds?_append (es es' : List (Expr ρ)) :
    conjRowIds? isRowId (es ++ es') =
      mergeWith .inter (conjRowIds? isRowId es) (conjRowIds? isRowId es') := by
  induction es with
  | nil => rw [List.nil_append, conjRowIds?, mergeWith]
  | cons e rest ih =>
    rw [List.cons_append, conjRowIds?, conjRowIds?, ih, mergeWith_assoc IdSet.inter_assoc]

/-- A condition tells what its terms do. -/
theorem conjRowIds?_conjuncts (e : Expr ρ) :
    conjRowIds? isRowId e.conjuncts = e.rowIds? isRowId := by
  have hsingle : conjRowIds? isRowId [e] = e.rowIds? isRowId := by
    rw [conjRowIds?, conjRowIds?]
    cases e.rowIds? isRowId <;> rfl
  cases e with
  | conj terms => rw [conjuncts, rowIds?]
  | _ => exact hsingle

/-- **Two conditions together tell what both of them do.** -/
theorem rowIds?_and (a b : Expr ρ) : (a.and b).rowIds? isRowId =
    mergeWith .inter (a.rowIds? isRowId) (b.rowIds? isRowId) := by
  rw [and, rowIds?, conjRowIds?_append, conjRowIds?_conjuncts, conjRowIds?_conjuncts]

end Expr

namespace Query

variable {f g : Forest} {db : Schema} {q : Query} {name : String}

/-- What a request with one more condition tells: what the request told, and what the condition
does. -/
theorem rowIds?_filterBy_eq {p : Lookup (Expr Alias)} {e : Expr Alias} {key : PrimaryKey}
    {column : String} {ids? : Option IdSet} (hkey : db.primaryKey name = .ok key)
    (hcolumn : key.rowIdColumn? = some column) (hp : p.resolve db = .ok e)
    (h : q.rowIds? f db name = .ok ids?) :
    (q.filterBy p).rowIds? f db name = .ok (mergeWith .inter ids?
      (e.rowIds? (RowIdColumn.isMatch ⟨column, q.source.alias?⟩ f))) := by
  rw [rowIds?, hkey, ok_bind, hcolumn] at h
  cases hfilter : q.clauses.filter? with
  | none =>
    rw [hfilter] at h
    obtain rfl := pure_eq_ok.1 h
    simp only [rowIds?, filterBy, hkey, hcolumn, hfilter, hp, ok_bind]
    rfl
  | some filter =>
    rw [hfilter] at h
    obtain ⟨e', he', h⟩ := bind_eq_ok.1 h
    obtain rfl := pure_eq_ok.1 h
    simp only [rowIds?, filterBy, hkey, hcolumn, hfilter, Lookup.resolve_zipWith, he', hp, ok_bind]
    rw [← Expr.rowIds?_and]
    rfl

/-- **One more condition narrows more**, if it can be resolved. -/
theorem rowIds?_filterBy {p : Lookup (Expr Alias)} {e : Expr Alias} {ids : IdSet}
    (hp : p.resolve db = .ok e) (h : q.rowIds? f db name = .ok (some ids)) :
    ∃ fewer, (q.filterBy p).rowIds? f db name = .ok (some fewer) ∧ ∀ n ∈ fewer, n ∈ ids := by
  obtain ⟨key, column, hkey, hcolumn⟩ : ∃ key column, db.primaryKey name = .ok key ∧
      key.rowIdColumn? = some column := by
    rw [rowIds?] at h
    obtain ⟨key, hkey, h⟩ := bind_eq_ok.1 h
    split at h
    · exact ⟨key, _, hkey, ‹_›⟩
    · cases pure_eq_ok.1 h
  rw [rowIds?_filterBy_eq hkey hcolumn hp h]
  cases e.rowIds? _ with
  | none => exact ⟨ids, rfl, fun _ hn => hn⟩
  | some more => exact ⟨ids.inter more, rfl, fun _ hn => (IdSet.mem_inter.1 hn).1⟩

/-- The identity is in front of a column of the filter. -/
def HasFilterIdentity (q : Query) (db : Schema) (a : Alias) : Prop :=
  ∃ filter ∈ q.clauses.filter?, ∃ e, filter.resolve db = .ok e ∧ ∃ c ∈ e.columns, c.2 = some a

/-- **What a filter tells depends on which identities in it are the occurrence of the source.** -/
theorem rowIds?_keeps (h : ∀ a, q.HasFilterIdentity db a → ∀ own ∈ q.source.alias?,
    g.isSame a own = f.isSame a own) : q.rowIds? g db name = q.rowIds? f db name := by
  rw [rowIds?, rowIds?]
  refine bind_congr_ok fun key _ => ?_
  cases key.rowIdColumn? with
  | none => rfl
  | some column =>
    cases hfilter : q.clauses.filter? with
    | none => rfl
    | some filter =>
      refine bind_congr_ok fun e he => congrArg Except.ok ?_
      have hover : e.IsOver (q.HasFilterIdentity db) :=
        fun c hc a ha => ⟨filter, hfilter, e, he, c, hc, ha⟩
      refine Expr.rowIds?_congr (fun e he => ?_) hover
      cases e with
      | column name owner? =>
        cases owner? with
        | none => rfl
        | some a =>
          have ha := he (name, some a) List.mem_cons_self a rfl
          rw [RowIdColumn.isMatch, RowIdColumn.isMatch, RowIdColumn.isOwn, RowIdColumn.isOwn]
          cases hown : q.source.alias? with
          | none => rfl
          | some own => rw [Option.any_some, Option.any_some, h a ha own hown]
      | _ => rfl

end Query

end SqlTree
