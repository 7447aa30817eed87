import SqlTree.Proofs.Region.Sound

/-!
# Row ids that conditions tell

A condition may tell among which row ids those of all rows are for which it is true. For some
conditions these are no more than they have to be.

* `Env.atRow` gives the row id to the columns that are taken for it, and leaves all others as they
  are.
* `Expr.ComparesRowId` are the conditions that are built from comparisons of the row id alone.
* `Expr.exists_rowIds?`: they tell row ids, and are true for all of those.
* `RowIdColumn.rowIds?_tells`: what a condition tells is never too little, and exact where it
  compares the row id alone.
-/

namespace SqlTree

variable {ρ : Type}

/-- The columns that are taken for the row id are the given one. -/
def Env.atRow (env : Env ρ) (isRowId : Expr ρ → Bool) (rowId : Int64) : Env ρ where
  column name owner? :=
    if isRowId (.column name owner?) then .integer rowId else env.column name owner?
  text := env.text

namespace Expr

/-- `NULL` or an integer. -/
def IsIdValue (e : Expr ρ) : Prop := e = .value .null ∨ ∃ n, e = .value (.integer n)

/-- A condition that is built from comparisons of the row id with `NULL` and integers by
conjunctions and disjunctions of one or more of them. -/
inductive ComparesRowId (isRowId : Expr ρ → Bool) : Expr ρ → Prop
  | left {op : BinaryOp} {lhs rhs : Expr ρ} (hop : op = .eq ∨ op = .is)
      (hlhs : isRowId lhs = true) (hrhs : rhs.IsIdValue) : ComparesRowId isRowId (binary op lhs rhs)
  | right {op : BinaryOp} {lhs rhs : Expr ρ} (hop : op = .eq ∨ op = .is)
      (hlhs : lhs.IsIdValue) (hrhs : isRowId rhs = true) : ComparesRowId isRowId (binary op lhs rhs)
  | member {e : Expr ρ} {list : List (Expr ρ)} (he : isRowId e = true)
      (hlist : ∀ item ∈ list, item.IsIdValue) : ComparesRowId isRowId (member e list false)
  | conj {terms : List (Expr ρ)} (hne : terms ≠ [])
      (hterms : ∀ e ∈ terms, ComparesRowId isRowId e) : ComparesRowId isRowId (conj terms)
  | disj {terms : List (Expr ρ)} (hne : terms ≠ [])
      (hterms : ∀ e ∈ terms, ComparesRowId isRowId e) : ComparesRowId isRowId (disj terms)

section

variable {isRowId : Expr ρ → Bool} {P : Expr ρ → Int64 → Prop}

theorem IsIdValue.exists_idValue? {e : Expr ρ} (he : e.IsIdValue) :
    ∃ ids, e.idValue? = some ids := by
  rcases he with rfl | ⟨n, rfl⟩
  · exact ⟨[], rfl⟩
  · exact ⟨[n], rfl⟩

/-- A list of values tells what its members tell. -/
theorem exists_mapM_idValue? {list : List (Expr ρ)} (hlist : ∀ item ∈ list, item.IsIdValue) :
    ∃ ids, list.mapM idValue? = some ids ∧
      ∀ n, n ∈ ids.flatten → ∃ item ∈ list, ∃ told, item.idValue? = some told ∧ n ∈ told := by
  induction list with
  | nil => exact ⟨[], rfl, by simp⟩
  | cons item rest ih =>
    obtain ⟨hitem, hrest⟩ := List.forall_mem_cons.1 hlist
    obtain ⟨told, htold⟩ := hitem.exists_idValue?
    obtain ⟨more, hmore, hmem⟩ := ih hrest
    refine ⟨told :: more, by simp [List.mapM_cons, htold, hmore], fun n hn => ?_⟩
    rw [List.flatten_cons, List.mem_append] at hn
    rcases hn with hn | hn
    · exact ⟨item, List.mem_cons_self, told, htold, hn⟩
    · obtain ⟨item', hitem', hexists⟩ := hmem n hn
      exact ⟨item', List.mem_cons_of_mem _ hitem', hexists⟩

/-- A conjunction whose terms all tell row ids tells those that all terms do. -/
theorem exists_conjRowIds? {terms : List (Expr ρ)} (hne : terms ≠ [])
    (hterms : ∀ e ∈ terms, ∃ ids, e.rowIds? isRowId = some ids ∧ ∀ n ∈ ids, P e n) :
    ∃ ids, conjRowIds? isRowId terms = some ids ∧ ∀ n ∈ ids, ∀ e ∈ terms, P e n := by
  induction terms with
  | nil => exact absurd rfl hne
  | cons e rest ih =>
    obtain ⟨⟨own, hown, hownP⟩, hrest⟩ := List.forall_mem_cons.1 hterms
    by_cases hlast : rest = []
    · subst hlast
      refine ⟨own, by rw [conjRowIds?, hown]; rfl, fun n hn => ?_⟩
      exact List.forall_mem_singleton.2 (hownP n hn)
    · obtain ⟨more, hmore, hmoreP⟩ := ih hlast hrest
      refine ⟨own.inter more, by rw [conjRowIds?, hown, hmore]; rfl, fun n hn => ?_⟩
      obtain ⟨hfirst, hothers⟩ := IdSet.mem_inter.1 hn
      exact List.forall_mem_cons.2 ⟨hownP n hfirst, hmoreP n hothers⟩

/-- A disjunction whose terms all tell row ids tells those that some term does. -/
theorem exists_disjRowIds? {terms : List (Expr ρ)}
    (hterms : ∀ e ∈ terms, ∃ ids, e.rowIds? isRowId = some ids ∧ ∀ n ∈ ids, P e n) :
    ∃ ids, disjRowIds? isRowId terms = some ids ∧ ∀ n ∈ ids, ∃ e ∈ terms, P e n := by
  induction terms with
  | nil => exact ⟨.empty, rfl, by simp⟩
  | cons e rest ih =>
    obtain ⟨⟨own, hown, hownP⟩, hrest⟩ := List.forall_mem_cons.1 hterms
    obtain ⟨more, hmore, hmoreP⟩ := ih hrest
    refine ⟨own.union more, by rw [disjRowIds?, hown, hmore]; rfl, fun n hn => ?_⟩
    rcases IdSet.mem_union.1 hn with hn | hn
    · exact ⟨e, List.mem_cons_self, hownP n hn⟩
    · obtain ⟨e', he', hP⟩ := hmoreP n hn
      exact ⟨e', List.mem_cons_of_mem _ he', hP⟩

theorem disj_rowIds? {terms : List (Expr ρ)} (hne : terms ≠ []) :
    (disj terms).rowIds? isRowId = disjRowIds? isRowId terms := by
  cases terms with
  | nil => exact absurd rfl hne
  | cons e rest => rw [rowIds?, disjRowIds?]

/-- **A condition that compares the row id alone tells row ids, and is true for all of them.** -/
theorem ComparesRowId.exists_rowIds? (hvalue : ∀ v, isRowId (.value v) = false)
    (heval : ∀ {e}, isRowId e = true → ∀ (E : Engine) members env rowId,
      e.eval E members (Env.atRow env isRowId rowId) = .integer rowId)
    {e : Expr ρ} (he : e.ComparesRowId isRowId) : ∃ ids, e.rowIds? isRowId = some ids ∧
      ∀ rowId ∈ ids, ∀ (E : Engine) members env,
        E.truth (e.eval E members (Env.atRow env isRowId rowId)) = some true := by
  induction he with
  | @left op lhs rhs hop hlhs hrhs =>
    obtain ⟨told, htold⟩ := hrhs.exists_idValue?
    refine ⟨.ofList told, by rw [rowIds?, if_pos hop, comparedIds?, if_pos hlhs, htold]; rfl, ?_⟩
    intro rowId hmem E members env
    rw [eval, heval hlhs]
    exact (compared_iff_mem hop htold).1.2 (IdSet.mem_ofList.1 hmem)
  | @right op lhs rhs hop hlhs hrhs =>
    obtain ⟨told, htold⟩ := hlhs.exists_idValue?
    have hnot : ¬ isRowId lhs = true := by
      rcases hlhs with rfl | ⟨n, rfl⟩ <;> simp [hvalue]
    refine ⟨.ofList told, ?_, ?_⟩
    · rw [rowIds?, if_pos hop, comparedIds?, if_neg hnot, if_pos hrhs, htold]
      rfl
    · intro rowId hmem E members env
      rw [eval, heval hrhs]
      exact (compared_iff_mem hop htold).2.2 (IdSet.mem_ofList.1 hmem)
  | @member e list he hlist =>
    obtain ⟨told, htold, hmem⟩ := exists_mapM_idValue? hlist
    refine ⟨.ofList told.flatten, by rw [rowIds?, he, htold]; rfl, ?_⟩
    intro rowId hrowId E members env
    obtain ⟨item, hitem, ids, hids, hn⟩ := hmem rowId (IdSet.mem_ofList.1 hrowId)
    rw [eval, heval he, E.truth_value, Engine.isMember, if_neg (by decide), Truth.any_eq_true,
      evalList_eq_map, List.map_map]
    exact List.mem_map.2 ⟨item, hitem, (compared_iff_mem (.inl rfl) hids).1.2 hn⟩
  | conj hne _ ih =>
    obtain ⟨ids, hids, htrue⟩ := exists_conjRowIds? hne ih
    refine ⟨ids, by rw [rowIds?, hids], fun rowId hrowId E members env => ?_⟩
    rw [eval, E.truth_all, Truth.all_eq_true, evalList_eq_map, List.map_map, List.forall_mem_map]
    exact fun e he => htrue rowId hrowId e he E members env
  | disj hne _ ih =>
    obtain ⟨ids, hids, htrue⟩ := exists_disjRowIds? ih
    refine ⟨ids, by rw [disj_rowIds? hne, hids], fun rowId hrowId E members env => ?_⟩
    obtain ⟨e, he, hP⟩ := htrue rowId hrowId
    rw [eval, E.truth_any, Truth.any_eq_true, evalList_eq_map, List.map_map]
    exact List.mem_map.2 ⟨e, he, hP E members env⟩

end

end Expr

namespace RowIdColumn

theorem isMatch_eq_true {c : RowIdColumn} {f : Forest} {e : Expr Alias}
    (he : c.isMatch f e = true) : ∃ name owner?, e = .column name owner? := by
  unfold isMatch at he
  split at he
  · exact ⟨_, _, rfl⟩
  · cases he

/-- What is taken for the row id is the row id. -/
theorem eval_atRow {c : RowIdColumn} {f : Forest} {e : Expr Alias} (he : c.isMatch f e = true)
    (E : Engine) (members : List (Env Alias)) (env : Env Alias) (rowId : Int64) :
    e.eval E members (env.atRow (c.isMatch f) rowId) = .integer rowId := by
  obtain ⟨name, owner?, rfl⟩ := isMatch_eq_true he
  rw [Expr.eval]
  exact if_pos he

/-- **The row ids that a condition tells.** Where it is true, the row id is one of them. If the
condition compares the row id alone, it tells some, and is true for them all. -/
theorem rowIds?_tells (c : RowIdColumn) (f : Forest) (e : Expr Alias) :
    (∀ ids, e.rowIds? (c.isMatch f) = some ids →
      ∀ (E : Engine) (members : List (Env Alias)) (env : Env Alias) (rowId : Int64),
        E.truth (e.eval E members (env.atRow (c.isMatch f) rowId)) = some true → rowId ∈ ids) ∧
    (e.ComparesRowId (c.isMatch f) → ∃ ids, e.rowIds? (c.isMatch f) = some ids ∧
      ∀ (E : Engine) (members : List (Env Alias)) (env : Env Alias) (rowId : Int64),
        rowId ∈ ids ↔ E.truth (e.eval E members (env.atRow (c.isMatch f) rowId)) = some true) := by
  have hsound : ∀ ids, e.rowIds? (c.isMatch f) = some ids →
      ∀ (E : Engine) (members : List (Env Alias)) (env : Env Alias) (rowId : Int64),
        E.truth (e.eval E members (env.atRow (c.isMatch f) rowId)) = some true → rowId ∈ ids :=
    fun ids hids E members env rowId =>
      Expr.mem_of_rowIds? e (fun _ hmatch _ => eval_atRow hmatch E members env rowId) hids
  refine ⟨hsound, fun hcompares => ?_⟩
  obtain ⟨ids, hids, htrue⟩ := hcompares.exists_rowIds? (fun _ => rfl) eval_atRow
  refine ⟨ids, hids, fun E members env rowId => ⟨fun hmem => ?_, ?_⟩⟩
  · exact htrue rowId hmem E members env
  · exact hsound ids hids E members env rowId

/-- Of the players whose row id is in a list, the one that one of two comparisons is about: a second
condition beside these changes nothing. -/
theorem rowIds?_tells_twoPlayers :
    let isRowId := RowIdColumn.isMatch ⟨"id", some ⟨0⟩⟩ ⟨[.bound "player" none]⟩
    let e : Expr Alias := .conj [
      .member (.col "rowid") [.value (.integer 1), .value .null, .value (.integer 2)] false,
      .disj [.binary .eq (.colOf ⟨0⟩ "ID") (.value (.integer 2)),
        .binary .is (.value (.integer 3)) (.col "oid")]]
    e.ComparesRowId isRowId ∧ e.rowIds? isRowId = some (.ofList [2]) ∧
    ∀ (E : Engine) (members : List (Env Alias)) (column : String → Option Alias → Value),
      let env : Env Alias := Env.atRow ⟨column, fun _ _ => .integer 1⟩ isRowId 2
      E.truth (e.eval E members env) = some true ∧
      E.truth ((Expr.conj [e, .verbatim "name LIKE 'a%'" []]).eval E members env) = some true ∧
      (2 : Int64) ∈ IdSet.ofList [2] := by
  intro isRowId e
  have hcompares : e.ComparesRowId isRowId := by
    refine .conj (by simp) (List.forall_mem_cons.2 ⟨?_, List.forall_mem_singleton.2 ?_⟩)
    · refine .member (by decide) ?_
      simp [Expr.IsIdValue]
    · refine .disj (by simp) (List.forall_mem_cons.2 ⟨?_, List.forall_mem_singleton.2 ?_⟩)
      · exact .left (.inl rfl) (by decide) (.inr ⟨2, rfl⟩)
      · exact .right (.inr rfl) (.inr ⟨3, rfl⟩) (by decide)
  have hids : e.rowIds? isRowId = some (.ofList [2]) := rfl
  refine ⟨hcompares, hids, fun E members column => ?_⟩
  intro env
  obtain ⟨ids, hids', hexact⟩ := (rowIds?_tells _ _ e).2 hcompares
  obtain rfl : IdSet.ofList [2] = ids := Option.some.inj (hids.symm.trans hids')
  have htrue : E.truth (e.eval E members env) = some true :=
    (hexact E members _ 2).1 (by decide)
  have hboth : E.truth ((Expr.conj [e, .verbatim "name LIKE 'a%'" []]).eval E members env) =
      some true := by
    rw [Expr.eval, E.truth_all, Truth.all_eq_true, Expr.evalList_eq_map, List.map_map,
      List.forall_mem_map, List.forall_mem_cons, List.forall_mem_singleton]
    exact ⟨htrue, E.truth_integer 1⟩
  exact ⟨htrue, hboth, (rowIds?_tells _ _ (.conj [e, .verbatim "name LIKE 'a%'" []])).1 _ rfl E
    members _ 2 hboth⟩

end RowIdColumn

end SqlTree
