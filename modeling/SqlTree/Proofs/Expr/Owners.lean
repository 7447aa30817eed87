import SqlTree.Proofs.Runs
import SqlTree.Query.Basic

/-!
# Occurrences in expressions

What it means for an expression to be written under names, free of the ways in which that can fail.

* `Expr.owners` lists the occurrences of the columns that are written, from left to right;
  `Expr.mapOwners` replaces them all. `Expr.columns` lists all columns.
* `Expr.eq_mapOwners`: replacing that may fail is replacing, where it does not fail.
* `Expr.mapOwners_qualified`: columns without an occurrence count for the one they are given.
* `Expr.mapOwners_congr`: only the occurrences of the columns that are written matter.
* `Expr.columns_qualified`: giving columns an occurrence leaves those that have one.

The same is said of selected items and terms of orders.
-/

namespace SqlTree

variable {ρ σ ε : Type}

namespace Expr

/-! ## Definitions -/

mutual

/-- The occurrences of the columns of an expression, from left to right. What is asked to be a
member of the empty list is not written. -/
def owners : Expr ρ → List (Option ρ)
  | column _ owner? => [owner?]
  | value _ => []
  | verbatim _ _ => []
  | binary _ lhs rhs => lhs.owners ++ rhs.owners
  | conj terms => listOwners terms
  | disj terms => listOwners terms
  | neg e => e.owners
  | member _ [] _ => []
  | member e (item :: items) _ => e.owners ++ (item.owners ++ listOwners items)
  | call _ arguments => listOwners arguments
  | countAll => []
  | countDistinct e => e.owners

/-- The occurrences of the columns of expressions. -/
def listOwners : List (Expr ρ) → List (Option ρ)
  | [] => []
  | e :: rest => e.owners ++ listOwners rest

end

mutual

/-- The columns of an expression, each with its occurrence, from left to right, whether they are
written or not. -/
def columns : Expr ρ → List (String × Option ρ)
  | column name owner? => [(name, owner?)]
  | value _ => []
  | verbatim _ _ => []
  | binary _ lhs rhs => lhs.columns ++ rhs.columns
  | conj terms => listColumns terms
  | disj terms => listColumns terms
  | neg e => e.columns
  | member e list _ => e.columns ++ listColumns list
  | call _ arguments => listColumns arguments
  | countAll => []
  | countDistinct e => e.columns

/-- The columns of expressions. -/
def listColumns : List (Expr ρ) → List (String × Option ρ)
  | [] => []
  | e :: rest => e.columns ++ listColumns rest

end

mutual

/-- The expression with all its occurrences replaced. What is asked to be a member of the empty list
gives way to `NULL`. -/
def mapOwners (g : Option ρ → Option σ) : Expr ρ → Expr σ
  | column name owner? => column name (g owner?)
  | value v => value v
  | verbatim text arguments => verbatim text arguments
  | binary op lhs rhs => binary op (lhs.mapOwners g) (rhs.mapOwners g)
  | conj terms => conj (mapOwnersList g terms)
  | disj terms => disj (mapOwnersList g terms)
  | neg e => neg (e.mapOwners g)
  | member _ [] negated => member (value .null) [] negated
  | member e (item :: items) negated =>
    member (e.mapOwners g) (item.mapOwners g :: mapOwnersList g items) negated
  | call name arguments => call name (mapOwnersList g arguments)
  | countAll => countAll
  | countDistinct e => countDistinct (e.mapOwners g)

/-- The expressions with all their occurrences replaced. -/
def mapOwnersList (g : Option ρ → Option σ) : List (Expr ρ) → List (Expr σ)
  | [] => []
  | e :: rest => e.mapOwners g :: mapOwnersList g rest

end

theorem mapOwnersList_eq_map (g : Option ρ → Option σ) (es : List (Expr ρ)) :
    mapOwnersList g es = es.map (·.mapOwners g) := by
  induction es with
  | nil => rfl
  | cons e es ih => rw [mapOwnersList, ih, List.map_cons]

/-! ## Replacing that may fail -/

section

variable {replace : Option ρ → Except ε (Option σ)} {g : Option ρ → Option σ}

mutual

/-- **Where replacing does not fail, it replaces.** -/
theorem eq_mapOwners (h : ∀ o x, replace o = .ok x → x = g o) :
    ∀ (e : Expr ρ) {e' : Expr σ}, e.withOwners replace = .ok e' → e' = e.mapOwners g
  | column name owner?, e', he => by
    simp only [withOwners, bind_eq_ok, pure_eq_ok] at he
    obtain ⟨x, hx, rfl⟩ := he
    rw [h _ _ hx, mapOwners]
  | value v, e', he => by
    rw [withOwners, pure_eq_ok] at he
    exact he.symm
  | verbatim text arguments, e', he => by
    rw [withOwners, pure_eq_ok] at he
    exact he.symm
  | binary op lhs rhs, e', he => by
    simp only [withOwners, bind_eq_ok, pure_eq_ok] at he
    obtain ⟨lhs', hl, rhs', hr, rfl⟩ := he
    rw [eq_mapOwners h lhs hl, eq_mapOwners h rhs hr, mapOwners]
  | conj terms, e', he => by
    simp only [withOwners, bind_eq_ok, pure_eq_ok] at he
    obtain ⟨terms', ht, rfl⟩ := he
    rw [eq_mapOwnersList h terms ht, mapOwners]
  | disj terms, e', he => by
    simp only [withOwners, bind_eq_ok, pure_eq_ok] at he
    obtain ⟨terms', ht, rfl⟩ := he
    rw [eq_mapOwnersList h terms ht, mapOwners]
  | neg e, e', he => by
    simp only [withOwners, bind_eq_ok, pure_eq_ok] at he
    obtain ⟨e'', hneg, rfl⟩ := he
    rw [eq_mapOwners h e hneg, mapOwners]
  | member e [] negated, e', he => by
    rw [withOwners, pure_eq_ok] at he
    exact he.symm
  | member e (item :: items) negated, e', he => by
    simp only [withOwners, bind_eq_ok, pure_eq_ok] at he
    obtain ⟨e'', hsubject, item', hitem, items', hitems, rfl⟩ := he
    rw [eq_mapOwners h e hsubject, eq_mapOwners h item hitem, eq_mapOwnersList h items hitems,
      mapOwners]
  | call name arguments, e', he => by
    simp only [withOwners, bind_eq_ok, pure_eq_ok] at he
    obtain ⟨arguments', ha, rfl⟩ := he
    rw [eq_mapOwnersList h arguments ha, mapOwners]
  | countAll, e', he => by
    rw [withOwners, pure_eq_ok] at he
    exact he.symm
  | countDistinct e, e', he => by
    simp only [withOwners, bind_eq_ok, pure_eq_ok] at he
    obtain ⟨e'', hcount, rfl⟩ := he
    rw [eq_mapOwners h e hcount, mapOwners]

theorem eq_mapOwnersList (h : ∀ o x, replace o = .ok x → x = g o) :
    ∀ (es : List (Expr ρ)) {es' : List (Expr σ)},
      withOwnersList replace es = .ok es' → es' = mapOwnersList g es
  | [], es', he => by
    rw [withOwnersList, pure_eq_ok] at he
    exact he.symm
  | e :: rest, es', he => by
    simp only [withOwnersList, bind_eq_ok, pure_eq_ok] at he
    obtain ⟨e', hfirst, rest', hrest, rfl⟩ := he
    rw [eq_mapOwners h e hfirst, eq_mapOwnersList h rest hrest, mapOwnersList]

end

end

/-! ## Occurrences given and compared -/

mutual

/-- Columns that are given an occurrence are written under that one. -/
theorem mapOwners_qualified (g : Option ρ → Option σ) (owner : ρ) : ∀ e : Expr ρ,
    (e.qualified owner).mapOwners g = e.mapOwners fun o => g (some (o.getD owner))
  | column name none => rfl
  | column name (some own) => rfl
  | value v => rfl
  | verbatim text arguments => rfl
  | binary op lhs rhs => by
    rw [qualified, mapOwners, mapOwners, mapOwners_qualified g owner lhs,
      mapOwners_qualified g owner rhs]
  | conj terms => by
    rw [qualified, mapOwners, mapOwners, mapOwnersList_qualified g owner terms]
  | disj terms => by
    rw [qualified, mapOwners, mapOwners, mapOwnersList_qualified g owner terms]
  | neg e => by
    rw [qualified, mapOwners, mapOwners, mapOwners_qualified g owner e]
  | member e [] negated => rfl
  | member e (item :: items) negated => by
    rw [qualified, qualifiedList, mapOwners, mapOwners, mapOwners_qualified g owner e,
      mapOwners_qualified g owner item, mapOwnersList_qualified g owner items]
  | call name arguments => by
    rw [qualified, mapOwners, mapOwners, mapOwnersList_qualified g owner arguments]
  | countAll => rfl
  | countDistinct e => by
    rw [qualified, mapOwners, mapOwners, mapOwners_qualified g owner e]

theorem mapOwnersList_qualified (g : Option ρ → Option σ) (owner : ρ) : ∀ es : List (Expr ρ),
    mapOwnersList g (qualifiedList owner es) =
      mapOwnersList (fun o => g (some (o.getD owner))) es
  | [] => rfl
  | e :: rest => by
    rw [qualifiedList, mapOwnersList, mapOwnersList, mapOwners_qualified g owner e,
      mapOwnersList_qualified g owner rest]

end

mutual

/-- Columns that are given an occurrence are replaced by that one's replacement. -/
theorem withOwners_qualified (replace : Option ρ → Except ε (Option σ)) (owner : ρ) : ∀ e : Expr ρ,
    (e.qualified owner).withOwners replace =
      e.withOwners fun o => replace (some (o.getD owner))
  | column name none => rfl
  | column name (some own) => rfl
  | value v => rfl
  | verbatim text arguments => rfl
  | binary op lhs rhs => by
    rw [qualified, withOwners, withOwners, withOwners_qualified replace owner lhs,
      withOwners_qualified replace owner rhs]
  | conj terms => by
    rw [qualified, withOwners, withOwners, withOwnersList_qualified replace owner terms]
  | disj terms => by
    rw [qualified, withOwners, withOwners, withOwnersList_qualified replace owner terms]
  | neg e => by
    rw [qualified, withOwners, withOwners, withOwners_qualified replace owner e]
  | member e [] negated => rfl
  | member e (item :: items) negated => by
    rw [qualified, qualifiedList, withOwners, withOwners, withOwners_qualified replace owner e,
      withOwners_qualified replace owner item, withOwnersList_qualified replace owner items]
  | call name arguments => by
    rw [qualified, withOwners, withOwners, withOwnersList_qualified replace owner arguments]
  | countAll => rfl
  | countDistinct e => by
    rw [qualified, withOwners, withOwners, withOwners_qualified replace owner e]

theorem withOwnersList_qualified (replace : Option ρ → Except ε (Option σ)) (owner : ρ) :
    ∀ es : List (Expr ρ), withOwnersList replace (qualifiedList owner es) =
      withOwnersList (fun o => replace (some (o.getD owner))) es
  | [] => rfl
  | e :: rest => by
    rw [qualifiedList, withOwnersList, withOwnersList, withOwners_qualified replace owner e,
      withOwnersList_qualified replace owner rest]

end

mutual

/-- What was given an occurrence is not given another one. -/
theorem qualified_qualified (owner other : ρ) : ∀ e : Expr ρ,
    (e.qualified owner).qualified other = e.qualified owner
  | column name none => rfl
  | column name (some own) => rfl
  | value v => rfl
  | verbatim text arguments => rfl
  | binary op lhs rhs => by
    rw [qualified, qualified, qualified_qualified owner other lhs,
      qualified_qualified owner other rhs]
  | conj terms => by rw [qualified, qualified, qualifiedList_qualifiedList owner other terms]
  | disj terms => by rw [qualified, qualified, qualifiedList_qualifiedList owner other terms]
  | neg e => by rw [qualified, qualified, qualified_qualified owner other e]
  | member e list negated => by
    rw [qualified, qualified, qualified_qualified owner other e,
      qualifiedList_qualifiedList owner other list]
  | call name arguments => by
    rw [qualified, qualified, qualifiedList_qualifiedList owner other arguments]
  | countAll => rfl
  | countDistinct e => by rw [qualified, qualified, qualified_qualified owner other e]

theorem qualifiedList_qualifiedList (owner other : ρ) : ∀ es : List (Expr ρ),
    qualifiedList other (qualifiedList owner es) = qualifiedList owner es
  | [] => rfl
  | e :: rest => by
    rw [qualifiedList, qualifiedList, qualified_qualified owner other e,
      qualifiedList_qualifiedList owner other rest]

end

mutual

/-- **Replacements that agree on the occurrences of an expression agree on the expression.** -/
theorem mapOwners_congr {g g' : Option ρ → Option σ} : ∀ e : Expr ρ,
    (∀ o ∈ e.owners, g o = g' o) → e.mapOwners g = e.mapOwners g'
  | column name owner?, h => by
    rw [mapOwners, mapOwners, h owner? (by simp [owners])]
  | value v, _ => rfl
  | verbatim text arguments, _ => rfl
  | binary op lhs rhs, h => by
    rw [owners, List.forall_mem_append] at h
    rw [mapOwners, mapOwners, mapOwners_congr lhs h.1, mapOwners_congr rhs h.2]
  | conj terms, h => by
    rw [owners] at h
    rw [mapOwners, mapOwners, mapOwnersList_congr terms h]
  | disj terms, h => by
    rw [owners] at h
    rw [mapOwners, mapOwners, mapOwnersList_congr terms h]
  | neg e, h => by
    rw [owners] at h
    rw [mapOwners, mapOwners, mapOwners_congr e h]
  | member e [] negated, _ => rfl
  | member e (item :: items) negated, h => by
    rw [owners, List.forall_mem_append, List.forall_mem_append] at h
    obtain ⟨hsubject, hitem, hitems⟩ := h
    rw [mapOwners, mapOwners, mapOwners_congr e hsubject, mapOwners_congr item hitem,
      mapOwnersList_congr items hitems]
  | call name arguments, h => by
    rw [owners] at h
    rw [mapOwners, mapOwners, mapOwnersList_congr arguments h]
  | countAll, _ => rfl
  | countDistinct e, h => by
    rw [owners] at h
    rw [mapOwners, mapOwners, mapOwners_congr e h]

theorem mapOwnersList_congr {g g' : Option ρ → Option σ} : ∀ es : List (Expr ρ),
    (∀ o ∈ listOwners es, g o = g' o) → mapOwnersList g es = mapOwnersList g' es
  | [], _ => rfl
  | e :: rest, h => by
    rw [listOwners, List.forall_mem_append] at h
    rw [mapOwnersList, mapOwnersList, mapOwners_congr e h.1, mapOwnersList_congr rest h.2]

end

mutual

/-- Replacements that may fail and agree on the occurrences of an expression agree on it. -/
theorem withOwners_congr {replace replace' : Option ρ → Except ε (Option σ)} : ∀ e : Expr ρ,
    (∀ o ∈ e.owners, replace o = replace' o) → e.withOwners replace = e.withOwners replace'
  | column name owner?, h => by
    rw [withOwners, withOwners, h owner? (by simp [owners])]
  | value v, _ => rfl
  | verbatim text arguments, _ => rfl
  | binary op lhs rhs, h => by
    rw [owners, List.forall_mem_append] at h
    rw [withOwners, withOwners, withOwners_congr lhs h.1, withOwners_congr rhs h.2]
  | conj terms, h => by
    rw [owners] at h
    rw [withOwners, withOwners, withOwnersList_congr terms h]
  | disj terms, h => by
    rw [owners] at h
    rw [withOwners, withOwners, withOwnersList_congr terms h]
  | neg e, h => by
    rw [owners] at h
    rw [withOwners, withOwners, withOwners_congr e h]
  | member e [] negated, _ => rfl
  | member e (item :: items) negated, h => by
    rw [owners, List.forall_mem_append, List.forall_mem_append] at h
    obtain ⟨hsubject, hitem, hitems⟩ := h
    rw [withOwners, withOwners, withOwners_congr e hsubject, withOwners_congr item hitem,
      withOwnersList_congr items hitems]
  | call name arguments, h => by
    rw [owners] at h
    rw [withOwners, withOwners, withOwnersList_congr arguments h]
  | countAll, _ => rfl
  | countDistinct e, h => by
    rw [owners] at h
    rw [withOwners, withOwners, withOwners_congr e h]

theorem withOwnersList_congr {replace replace' : Option ρ → Except ε (Option σ)} :
    ∀ es : List (Expr ρ), (∀ o ∈ listOwners es, replace o = replace' o) →
      withOwnersList replace es = withOwnersList replace' es
  | [], _ => rfl
  | e :: rest, h => by
    rw [listOwners, List.forall_mem_append] at h
    rw [withOwnersList, withOwnersList, withOwners_congr e h.1, withOwnersList_congr rest h.2]

end

mutual

/-- What is written in front of columns are occurrences of columns. -/
theorem owners_subset_columns : ∀ e : Expr ρ, e.owners ⊆ e.columns.map (·.2)
  | column name owner? => List.Subset.refl _
  | value v => List.Subset.refl _
  | verbatim text arguments => List.Subset.refl _
  | binary op lhs rhs => by
    rw [owners, columns, List.map_append]
    exact List.append_subset.2 ⟨List.subset_append_of_subset_left _ (owners_subset_columns lhs),
      List.subset_append_of_subset_right _ (owners_subset_columns rhs)⟩
  | conj terms => listOwners_subset_columns terms
  | disj terms => listOwners_subset_columns terms
  | neg e => owners_subset_columns e
  | member e [] negated => List.nil_subset _
  | member e (item :: items) negated => by
    rw [owners, columns, List.map_append]
    exact List.append_subset.2 ⟨List.subset_append_of_subset_left _ (owners_subset_columns e),
      List.subset_append_of_subset_right _ (listOwners_subset_columns (item :: items))⟩
  | call name arguments => listOwners_subset_columns arguments
  | countAll => List.Subset.refl _
  | countDistinct e => owners_subset_columns e

theorem listOwners_subset_columns : ∀ es : List (Expr ρ),
    listOwners es ⊆ (listColumns es).map (·.2)
  | [] => List.Subset.refl _
  | e :: rest => by
    rw [listOwners, listColumns, List.map_append]
    exact List.append_subset.2 ⟨List.subset_append_of_subset_left _ (owners_subset_columns e),
      List.subset_append_of_subset_right _ (listOwners_subset_columns rest)⟩

end

mutual

/-- Giving columns an occurrence takes none away and adds none. -/
theorem columns_qualified (owner : ρ) : ∀ e : Expr ρ, (e.qualified owner).columns =
    e.columns.map fun c => (c.1, some (c.2.getD owner))
  | column name none => rfl
  | column name (some own) => rfl
  | value v => rfl
  | verbatim text arguments => rfl
  | binary op lhs rhs => by
    rw [qualified, columns, columns, columns_qualified owner lhs, columns_qualified owner rhs,
      List.map_append]
  | conj terms => by rw [qualified, columns, columns, listColumns_qualifiedList owner terms]
  | disj terms => by rw [qualified, columns, columns, listColumns_qualifiedList owner terms]
  | neg e => by rw [qualified, columns, columns, columns_qualified owner e]
  | member e list negated => by
    rw [qualified, columns, columns, columns_qualified owner e,
      listColumns_qualifiedList owner list, List.map_append]
  | call name arguments => by
    rw [qualified, columns, columns, listColumns_qualifiedList owner arguments]
  | countAll => rfl
  | countDistinct e => by rw [qualified, columns, columns, columns_qualified owner e]

theorem listColumns_qualifiedList (owner : ρ) : ∀ es : List (Expr ρ),
    listColumns (qualifiedList owner es) =
      (listColumns es).map fun c => (c.1, some (c.2.getD owner))
  | [] => rfl
  | e :: rest => by
    rw [qualifiedList, listColumns, listColumns, columns_qualified owner e,
      listColumns_qualifiedList owner rest, List.map_append]

end

/-! ## Conjunctions -/

theorem listColumns_append (es es' : List (Expr ρ)) :
    listColumns (es ++ es') = listColumns es ++ listColumns es' := by
  induction es with
  | nil => rfl
  | cons e es ih => rw [List.cons_append, listColumns, listColumns, ih, List.append_assoc]

theorem listColumns_conjuncts (e : Expr ρ) : listColumns e.conjuncts = e.columns := by
  cases e with
  | conj terms => rfl
  | _ => exact List.append_nil _

/-- The columns of two conditions together are those of both. -/
theorem columns_and (a b : Expr ρ) : (a.and b).columns = a.columns ++ b.columns := by
  rw [Expr.and, columns, listColumns_append, listColumns_conjuncts, listColumns_conjuncts]

@[simp] theorem conjuncts_and (a b : Expr ρ) : (a.and b).conjuncts = a.conjuncts ++ b.conjuncts :=
  rfl

theorem conjuncts_mapOwners (g : Option ρ → Option σ) (e : Expr ρ) :
    (e.mapOwners g).conjuncts = e.conjuncts.map (·.mapOwners g) := by
  cases e with
  | conj terms => rw [mapOwners, conjuncts, conjuncts, mapOwnersList_eq_map]
  | member e list negated => cases list <;> rfl
  | _ => rfl

theorem qualifiedList_eq_map (owner : ρ) (es : List (Expr ρ)) :
    qualifiedList owner es = es.map (·.qualified owner) := by
  induction es with
  | nil => rfl
  | cons e es ih => rw [qualifiedList, ih, List.map_cons]

theorem conjuncts_qualified (owner : ρ) (e : Expr ρ) :
    (e.qualified owner).conjuncts = e.conjuncts.map (·.qualified owner) := by
  cases e with
  | conj terms => rw [qualified, conjuncts, conjuncts, qualifiedList_eq_map]
  | column name owner? => cases owner? <;> rfl
  | _ => rfl

theorem qualified_and (owner : ρ) (a b : Expr ρ) :
    (a.and b).qualified owner = (a.qualified owner).and (b.qualified owner) := by
  rw [and, qualified, qualifiedList_eq_map, List.map_append, ← conjuncts_qualified,
    ← conjuncts_qualified, and]

/-- A conjunction of expressions that lack no occurrence lacks none. -/
theorem qualified_foldl_and {owner : ρ} {es : List (Expr ρ)}
    (hes : ∀ e ∈ es, e.qualified owner = e) {e : Expr ρ} (he : e.qualified owner = e) :
    (es.foldl and e).qualified owner = es.foldl and e := by
  induction es generalizing e with
  | nil => exact he
  | cons e' es ih =>
    obtain ⟨he', hrest⟩ := List.forall_mem_cons.1 hes
    rw [List.foldl_cons]
    exact ih hrest (by rw [qualified_and, he, he'])

end Expr

/-! ## Items and terms -/

/-- The item with all its occurrences replaced. -/
def SelectItem.mapOwners (g : Option ρ → Option σ) : SelectItem ρ → SelectItem σ
  | star owner? => star (g owner?)
  | expr e name? => expr (e.mapOwners g) name?

/-- The occurrences of an item. -/
def SelectItem.owners : SelectItem ρ → List (Option ρ)
  | star owner? => [owner?]
  | expr e _ => e.owners

/-- The term with all its occurrences replaced. -/
def SortTerm.mapOwners (g : Option ρ → Option σ) (t : SortTerm ρ) : SortTerm σ :=
  ⟨t.expr.mapOwners g, t.direction⟩

section

variable {replace : Option ρ → Except ε (Option σ)} {g : Option ρ → Option σ}

theorem SelectItem.eq_mapOwners (h : ∀ o x, replace o = .ok x → x = g o) {i : SelectItem ρ}
    {i' : SelectItem σ} (hi : i.withOwners replace = .ok i') : i' = i.mapOwners g := by
  cases i with
  | star owner? =>
    simp only [withOwners, bind_eq_ok, pure_eq_ok] at hi
    obtain ⟨x, hx, rfl⟩ := hi
    rw [h _ _ hx, mapOwners]
  | expr e name? =>
    simp only [withOwners, bind_eq_ok, pure_eq_ok] at hi
    obtain ⟨e', he, rfl⟩ := hi
    rw [e.eq_mapOwners h he, mapOwners]

theorem SortTerm.eq_mapOwners (h : ∀ o x, replace o = .ok x → x = g o) {t : SortTerm ρ}
    {t' : SortTerm σ} (ht : t.withOwners replace = .ok t') : t' = t.mapOwners g := by
  simp only [withOwners, bind_eq_ok, pure_eq_ok] at ht
  obtain ⟨e', he, rfl⟩ := ht
  rw [t.expr.eq_mapOwners h he, mapOwners]

end

theorem SelectItem.mapOwners_qualified (g : Option ρ → Option σ) (owner : ρ) (i : SelectItem ρ) :
    (i.qualified owner).mapOwners g = i.mapOwners fun o => g (some (o.getD owner)) := by
  cases i with
  | star owner? => cases owner? <;> rfl
  | expr e name? => rw [qualified, mapOwners, mapOwners, e.mapOwners_qualified]

theorem SelectItem.withOwners_qualified (replace : Option ρ → Except ε (Option σ)) (owner : ρ)
    (i : SelectItem ρ) : (i.qualified owner).withOwners replace =
      i.withOwners fun o => replace (some (o.getD owner)) := by
  cases i with
  | star owner? => cases owner? <;> rfl
  | expr e name? => rw [qualified, withOwners, withOwners, e.withOwners_qualified]

theorem SortTerm.withOwners_qualified (replace : Option ρ → Except ε (Option σ)) (owner : ρ)
    (t : SortTerm ρ) : (t.qualified owner).withOwners replace =
      t.withOwners fun o => replace (some (o.getD owner)) := by
  rw [qualified, withOwners, withOwners, t.expr.withOwners_qualified]

theorem SelectItem.qualified_qualified (owner other : ρ) (i : SelectItem ρ) :
    (i.qualified owner).qualified other = i.qualified owner := by
  cases i with
  | star owner? => cases owner? <;> rfl
  | expr e name? => rw [qualified, qualified, e.qualified_qualified]

theorem SortTerm.qualified_qualified (owner other : ρ) (t : SortTerm ρ) :
    (t.qualified owner).qualified other = t.qualified owner := by
  rw [qualified, qualified, t.expr.qualified_qualified]

theorem SelectItem.mapOwners_congr {g g' : Option ρ → Option σ} {i : SelectItem ρ}
    (h : ∀ o ∈ i.owners, g o = g' o) : i.mapOwners g = i.mapOwners g' := by
  cases i with
  | star owner? => rw [mapOwners, mapOwners, h owner? (by simp [owners])]
  | expr e name? => rw [mapOwners, mapOwners, e.mapOwners_congr h]

end SqlTree
