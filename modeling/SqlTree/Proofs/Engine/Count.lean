import SqlTree.Proofs.Engine.Rename
import SqlTree.Proofs.Query.Count

/-!
# Results of counts

What an engine returns for a count of the rows of a selection, against what it returns for the
selection.

* `Select.values_countedOutside`: counted from outside, a selection has the number of its rows for
  its count.
* `Select.values_countedInPlace`: counted in place, it has one row where the condition on groups
  holds, with `Select.counted` in it; `Select.counted_add` says how far this is from the number of
  its rows, when these are computed row by row.
-/

namespace SqlTree

/-! ## First members -/

section

variable {α κ : Type} [DecidableEq κ] {key : α → κ} {as : List α}

theorem mem_of_mem_firsts {a : α} (h : a ∈ firsts key as) : a ∈ as := by
  have hfrom : ∀ (as : List α) (seen : List κ), firstsFrom key seen as ⊆ as := by
    intro as
    induction as with
    | nil =>
      intro seen
      exact List.Subset.refl _
    | cons b as ih =>
      intro seen
      rw [firstsFrom]
      split
      · exact List.Subset.trans (ih seen) (List.subset_cons_self b as)
      · exact List.cons_subset_cons b (ih _)
  exact hfrom as [] h

theorem exists_mem_firsts (key : α → κ) {a : α} (h : a ∈ as) :
    ∃ b ∈ firsts key as, key b = key a := by
  have hfinset := toFinset_firstsFrom key as []
  rw [List.toFinset_nil, Finset.sdiff_empty] at hfinset
  have hmem : key a ∈ (firsts key as).map key := by
    rw [← List.mem_toFinset, firsts, hfinset, List.mem_toFinset]
    exact List.mem_map_of_mem h
  exact List.mem_map.1 hmem

theorem firsts_of_length_le_one (h : as.length ≤ 1) : firsts key as = as := by
  cases as with
  | nil => rfl
  | cons a as =>
    obtain rfl := List.length_eq_zero_iff.1 (Nat.le_zero.1 (Nat.le_of_succ_le_succ h))
    rfl

end

theorem mergeSort_of_length_le_one {α : Type} {le : α → α → Bool} {as : List α}
    (h : as.length ≤ 1) : as.mergeSort le = as := by
  cases as with
  | nil => exact List.mergeSort_nil
  | cons a as =>
    obtain rfl := List.length_eq_zero_iff.1 (Nat.le_zero.1 (Nat.le_of_succ_le_succ h))
    exact List.mergeSort_singleton a

namespace Select

variable (E : Engine) (tables : String → Relation) (t : Select) (rs : List Relation)

/-- The contents of the sources of a selection. -/
def relations : List Relation := t.source.relation E tables :: joinsRelations E tables t.joins

theorem result_eq : t.result E tables = t.resultFrom E (t.relations E tables) := by
  cases t
  rw [result]
  rfl

/-- The number of rows does not depend on an order. -/
theorem length_result_unordered : (result E tables { t with order := [] }).rows.length =
    (t.result E tables).rows.length := by
  rw [result_eq, result_eq, length_resultFrom, length_resultFrom]
  rfl

/-! ## One group -/

/-- The group of all rows that `WHERE` keeps. -/
def oneGroup : Sample := E.group rs (t.found E rs)

/-- One group gives one row, where the condition on groups holds of it, else none. -/
theorem values_of_oneGroup (haggregate : t.isAggregate E = true) (hgroup : t.group = [])
    (hlimit : t.limit? = none) : (t.resultFrom E rs).rows.map (·.values) =
      if t.keepsGroup E rs (t.oneGroup E rs) then [t.rowValues E rs (t.oneGroup E rs)] else [] := by
  have hsamples := samples_of_oneGroup E t rs haggregate hgroup
  have hlength : (t.samples E rs).length ≤ 1 := by
    rw [hsamples]
    exact List.length_filter_le _ _
  have hkept : t.kept E rs = t.samples E rs := by
    rw [kept, firsts_of_length_le_one hlength, ite_self]
  have hrows : (t.resultFrom E rs).rows =
      (t.samples E rs).map fun s => ⟨t.rowValues E rs s, none⟩ := by
    rw [resultFrom, hkept, hlimit]
    simp only [Limit.take?, mergeSort_of_length_le_one hlength]
  rw [hrows, hsamples, List.filter_singleton, oneGroup]
  cases t.keepsGroup E rs (E.group rs (t.found E rs)) <;> rfl

theorem value_countAll (hs : List Header) : (t.oneGroup E rs).value E hs .countAll =
    .integer (.ofNat (t.found E rs).length) := by
  rw [Sample.value, Expr.eval, Sample.members, List.length_map]
  rfl

theorem value_countDistinct (hs : List Header) (e : Expr String) :
    (t.oneGroup E rs).value E hs (.countDistinct e) = .integer (.ofNat
      (E.countDistinct ((t.found E rs).map fun rows => e.eval E [] (E.rowEnv hs rows)))) := by
  rw [Sample.value, Expr.eval, Sample.members, List.map_map]
  rfl

/-! ## Counting from outside -/

/-- **Counted from outside, a selection has one row, with the number of its rows in it.** -/
theorem values_countedOutside : (t.countedOutside.result E tables).rows.map (·.values) =
    [[.integer (.ofNat (t.result E tables).rows.length)]] := by
  have hfound : t.countedOutside.found E (t.countedOutside.relations E tables) =
      (t.result E tables).rows.map ([·]) := by
    refine List.filter_eq_self.2 fun rows _ => ?_
    rfl
  have hkeeps : t.countedOutside.keepsGroup E (t.countedOutside.relations E tables)
      (t.countedOutside.oneGroup E (t.countedOutside.relations E tables)) = true := rfl
  have hvalues := t.countedOutside.value_countAll E (t.countedOutside.relations E tables)
    (t.countedOutside.headers (t.countedOutside.relations E tables))
  rw [hfound, List.length_map] at hvalues
  rw [result_eq, values_of_oneGroup E _ _ rfl rfl rfl, if_pos hkeeps, ← hvalues]
  rfl

/-! ## Counting in place -/

/-- The values of an expression in the rows that `WHERE` keeps. -/
def foundValues (e : Expr String) : List Value :=
  (t.found E rs).map fun rows => e.eval E [] (E.rowEnv (t.headers rs) rows)

/-- What is counted in place: different values of an expression, or rows. -/
def counted : Nat :=
  match t.countExpr with
  | .countDistinct e => E.countDistinct (t.foundValues E rs e)
  | _ => (t.found E rs).length

theorem IsCountedInPlace.countExpr_eq {t : Select} (h : t.IsCountedInPlace) :
    t.distinct = false ∧ t.countExpr = .countAll ∨ t.distinct = true ∧
      ∃ e name?, t.items = [.expr e name?] ∧ t.countExpr = .countDistinct e := by
  rw [countExpr]
  cases hdistinct : t.distinct with
  | false => exact .inl ⟨rfl, rfl⟩
  | true =>
    obtain ⟨e, name?, hitems⟩ := h.items hdistinct
    rw [hitems]
    exact .inr ⟨rfl, e, name?, rfl, rfl⟩

/-- **Counted in place, a selection has one row where the condition on groups holds, else none.** -/
theorem values_countedInPlace (h : t.IsCountedInPlace) :
    (t.countedInPlace.resultFrom E rs).rows.map (·.values) =
      if t.keepsGroup E rs (t.oneGroup E rs) then [[.integer (.ofNat (t.counted E rs))]]
      else [] := by
  have hcount : t.countExpr.hasAggregate E = true ∧
      (t.oneGroup E rs).value E (t.headers rs) t.countExpr =
        .integer (.ofNat (t.counted E rs)) := by
    rw [counted]
    rcases h.countExpr_eq with ⟨-, hexpr⟩ | ⟨-, e, -, -, hexpr⟩
    · rw [hexpr]
      exact ⟨rfl, t.value_countAll E rs _⟩
    · rw [hexpr]
      exact ⟨rfl, t.value_countDistinct E rs _ e⟩
  have haggregate : t.countedInPlace.isAggregate E = true := by
    simp [isAggregate, countedInPlace, SelectItem.hasAggregate, hcount.1]
  rw [values_of_oneGroup E _ rs haggregate h.group h.limit, ← hcount.2]
  rfl

/-- Without a limit, a row of the result is one for each member that is kept. -/
theorem mem_resultFrom (hlimit : t.limit? = none) {vs : List Value} :
    vs ∈ (t.resultFrom E rs).rows.map (·.values) ↔
      ∃ s ∈ t.kept E rs, t.rowValues E rs s = vs := by
  rw [resultFrom, hlimit]
  simp only [Limit.take?, List.map_map, List.mem_map, List.mem_mergeSort, Function.comp_apply]

section

variable {e : Expr String} {name? : Option String}

theorem rowValues_of_oneItem (hitems : t.items = [.expr e name?]) (rows : List Row) :
    t.rowValues E rs ⟨rows, none⟩ = [e.eval E [] (E.rowEnv (t.headers rs) rows)] := by
  rw [rowValues, hitems]
  rfl

/-- The result of `DISTINCT` has a row of `NULL` where the expression is `NULL` in a row found. -/
theorem null_mem_of_oneItem (hlimit : t.limit? = none) (hrows : t.isAggregate E = false)
    (hdistinct : t.distinct = true) (hitems : t.items = [.expr e name?]) :
    [.null] ∈ (t.resultFrom E rs).rows.map (·.values) ↔ .null ∈ t.foundValues E rs e := by
  have hvalues := rowValues_of_oneItem E t rs hitems
  rw [mem_resultFrom E t rs hlimit, kept, if_pos hdistinct, samples_of_rows E t rs hrows]
  constructor
  · rintro ⟨s, hs, hnull⟩
    obtain ⟨rows, hmem, rfl⟩ := List.mem_map.1 (mem_of_mem_firsts hs)
    rw [hvalues] at hnull
    exact List.mem_map.2 ⟨rows, hmem, List.singleton_inj.1 hnull⟩
  · intro hnull
    obtain ⟨rows, hmem, hnull⟩ := List.mem_map.1 hnull
    obtain ⟨s, hs, hkey⟩ := exists_mem_firsts (fun s => (t.rowValues E rs s).map E.key)
      (List.mem_map_of_mem (f := fun rows => (⟨rows, none⟩ : Sample)) hmem)
    obtain ⟨rows', -, rfl⟩ := List.mem_map.1 (mem_of_mem_firsts hs)
    refine ⟨_, hs, ?_⟩
    simp only [hvalues, hnull, List.map_cons, List.map_nil, List.singleton_inj] at hkey ⊢
    exact E.key_eq_null _ hkey

/-- `DISTINCT` keeps one row for each class of values of the expression. -/
theorem length_kept_of_oneItem (hrows : t.isAggregate E = false) (hdistinct : t.distinct = true)
    (hitems : t.items = [.expr e name?]) :
    (t.kept E rs).length = (firsts E.key (t.foundValues E rs e)).length := by
  have hkeys : (t.found E rs).map
      ((fun s => (t.rowValues E rs s).map E.key) ∘ fun rows => ⟨rows, none⟩) =
        ((t.foundValues E rs e).map E.key).map ([·]) := by
    rw [foundValues, List.map_map, List.map_map]
    refine List.map_congr_left fun rows _ => ?_
    simp only [Function.comp_apply, rowValues_of_oneItem E t rs hitems, List.map_cons,
      List.map_nil]
  have himage : ∀ ks : List Value, (ks.map ([·])).toFinset = ks.toFinset.image ([·]) := by
    intro ks
    ext k
    simp
  rw [length_kept, if_pos hdistinct, samples_of_rows E t rs hrows, length_firsts, List.map_map,
    hkeys, himage, Finset.card_image_of_injective _ fun _ _ => List.singleton_inj.1]

end

/-- **What is counted in place is the number of rows**, when these are computed row by row, but for
one row of `NULL` that different values are counted without. -/
theorem counted_add (h : t.IsCountedInPlace) (hrows : t.isAggregate E = false) :
    t.counted E rs + (if t.distinct ∧ [.null] ∈ (t.resultFrom E rs).rows.map (·.values) then 1
      else 0) = (t.resultFrom E rs).rows.length := by
  have hlength : (t.resultFrom E rs).rows.length = (t.kept E rs).length := by
    rw [length_resultFrom, h.limit]
    rfl
  rw [hlength, counted]
  rcases h.countExpr_eq with ⟨hdistinct, hexpr⟩ | ⟨hdistinct, e, name?, hitems, hexpr⟩
  · rw [hexpr, kept, hdistinct, samples_of_rows E t rs hrows]
    simp
  · have hnull := null_mem_of_oneItem E t rs h.limit hrows hdistinct hitems
    rw [hexpr, length_kept_of_oneItem E t rs hrows hdistinct hitems, ← E.countDistinct_add]
    simp only [hdistinct, true_and, hnull]

end Select

end SqlTree
