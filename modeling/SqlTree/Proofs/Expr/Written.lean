import SqlTree.Proofs.Expr.Owners

/-!
# Expressions under names that may be missing

Writing an expression under names replaces the occurrences of its columns one by one. It comes to
nothing only for want of a name, and wants a name only for the columns that are written.

* `HingesOn` says of work which replacements it needs: it gives a result just when it has all of
  them, and otherwise fails as one that is missing does.
* `Expr.withOwners_hinges`: writing an expression hinges on its occurrences. The same is said of
  selected items and of terms of orders.
* `Expr.owners_mapOwners` and `Expr.owners_qualified` are the occurrences of an expression under
  names, and of one whose columns were given an occurrence.
-/

namespace SqlTree

variable {ρ σ ε α β : Type}

/-! ## Work that needs replacements -/

/-- Work that replaces the members of `os` and can't fail otherwise. -/
structure HingesOn (replace : ρ → Except ε σ) (os : List ρ) (x : Except ε α) : Prop where
  written : ∀ {a : α}, x = .ok a → ∀ o ∈ os, ∃ y, replace o = .ok y
  missing : ∀ {e : ε}, x = .error e → ∃ o ∈ os, replace o = .error e

namespace HingesOn

variable {replace : ρ → Except ε σ} {os os' : List ρ} {x : Except ε α}

/-- Where no replacement is missing there is a result. -/
theorem exists_ok (hx : HingesOn replace os x) (hos : ∀ o ∈ os, ∃ y, replace o = .ok y) :
    ∃ a, x = .ok a := by
  cases hxe : x with
  | ok a => exact ⟨a, rfl⟩
  | error e =>
    obtain ⟨o, ho, he⟩ := hx.missing hxe
    obtain ⟨y, hy⟩ := hos o ho
    cases he.symm.trans hy

theorem one (replace : ρ → Except ε σ) (o : ρ) : HingesOn replace [o] (replace o) :=
  ⟨fun hy => by simp [hy], fun he => ⟨o, List.mem_singleton_self o, he⟩⟩

theorem result (replace : ρ → Except ε σ) (a : α) :
    HingesOn replace [] (pure a : Except ε α) :=
  ⟨fun _ => by simp, nofun⟩

/-- Work behind work needs the replacements of both. -/
theorem bind {k : α → Except ε β} (hx : HingesOn replace os x)
    (hk : ∀ a, HingesOn replace os' (k a)) : HingesOn replace (os ++ os') (x >>= k) := by
  cases hxe : x with
  | ok a =>
    have hos := hx.written hxe
    refine ⟨fun hy => ?_, fun he => ?_⟩
    · exact List.forall_mem_append.2 ⟨hos, (hk a).written hy⟩
    · obtain ⟨o, ho, he⟩ := (hk a).missing he
      exact ⟨o, List.mem_append_right os ho, he⟩
  | error e =>
    obtain ⟨o, ho, he⟩ := hx.missing hxe
    refine ⟨nofun, fun hee => ⟨o, List.mem_append_left os' ho, ?_⟩⟩
    rw [he, Except.error.inj hee]

/-- A result that is only changed needs no more. -/
theorem map (hx : HingesOn replace os x) (m : α → β) :
    HingesOn replace os (x >>= fun a => pure (m a)) := by
  have hboth : HingesOn replace (os ++ []) (x >>= fun a => pure (m a)) :=
    hx.bind fun a => result replace (m a)
  rwa [List.append_nil] at hboth

theorem mapM {needs : α → List ρ} {k : α → Except ε β}
    (h : ∀ a, HingesOn replace (needs a) (k a)) (as : List α) :
    HingesOn replace (as.flatMap needs) (as.mapM k) := by
  induction as with
  | nil => exact result replace []
  | cons a as ih =>
    rw [List.mapM_cons, List.flatMap_cons]
    exact (h a).bind fun b => ih.map (b :: ·)

end HingesOn

/-! ## Expressions -/

namespace Expr

section

variable (replace : Option ρ → Except ε (Option σ))

mutual

/-- **Writing an expression hinges on its occurrences.** -/
theorem withOwners_hinges : ∀ e : Expr ρ, HingesOn replace e.owners (e.withOwners replace)
  | column name owner? => (HingesOn.one replace owner?).map (column name)
  | value v => .result replace (value v)
  | verbatim text arguments => .result replace (verbatim text arguments)
  | binary op lhs rhs =>
    (withOwners_hinges lhs).bind fun lhs' => (withOwners_hinges rhs).map (binary op lhs')
  | conj terms => (withOwnersList_hinges terms).map conj
  | disj terms => (withOwnersList_hinges terms).map disj
  | neg e => (withOwners_hinges e).map neg
  | member _ [] negated => .result replace (member (value .null) [] negated)
  | member e (item :: items) negated =>
    (withOwners_hinges e).bind fun e' => (withOwners_hinges item).bind fun item' =>
      (withOwnersList_hinges items).map fun items' => member e' (item' :: items') negated
  | call name arguments => (withOwnersList_hinges arguments).map (call name)
  | countAll => .result replace countAll
  | countDistinct e => (withOwners_hinges e).map countDistinct

theorem withOwnersList_hinges : ∀ es : List (Expr ρ),
    HingesOn replace (listOwners es) (withOwnersList replace es)
  | [] => .result replace []
  | e :: rest =>
    (withOwners_hinges e).bind fun e' => (withOwnersList_hinges rest).map (e' :: ·)

end

end

theorem listOwners_eq_flatMap (es : List (Expr ρ)) : listOwners es = es.flatMap (·.owners) := by
  induction es with
  | nil => rfl
  | cons e es ih => rw [listOwners, ih, List.flatMap_cons]

mutual

/-- Under names stand the names of the occurrences. -/
@[simp] theorem owners_mapOwners (g : Option ρ → Option σ) : ∀ e : Expr ρ,
    (e.mapOwners g).owners = e.owners.map g
  | column name owner? => rfl
  | value v => rfl
  | verbatim text arguments => rfl
  | binary op lhs rhs => by
    rw [mapOwners, owners, owners, owners_mapOwners g lhs, owners_mapOwners g rhs,
      List.map_append]
  | conj terms => by rw [mapOwners, owners, owners, listOwners_mapOwnersList g terms]
  | disj terms => by rw [mapOwners, owners, owners, listOwners_mapOwnersList g terms]
  | neg e => by rw [mapOwners, owners, owners, owners_mapOwners g e]
  | member e [] negated => rfl
  | member e (item :: items) negated => by
    rw [mapOwners, owners, owners, owners_mapOwners g e, owners_mapOwners g item,
      listOwners_mapOwnersList g items, List.map_append, List.map_append]
  | call name arguments => by
    rw [mapOwners, owners, owners, listOwners_mapOwnersList g arguments]
  | countAll => rfl
  | countDistinct e => by rw [mapOwners, owners, owners, owners_mapOwners g e]

theorem listOwners_mapOwnersList (g : Option ρ → Option σ) : ∀ es : List (Expr ρ),
    listOwners (mapOwnersList g es) = (listOwners es).map g
  | [] => rfl
  | e :: rest => by
    rw [mapOwnersList, listOwners, listOwners, owners_mapOwners g e,
      listOwners_mapOwnersList g rest, List.map_append]

end

/-- Columns that are given an occurrence keep the one that they have. -/
theorem owners_qualified (owner : ρ) (e : Expr ρ) :
    (e.qualified owner).owners = e.owners.map fun o => some (o.getD owner) := by
  have hself := (e.qualified owner).owners_mapOwners id
  rw [List.map_id, mapOwners_qualified, owners_mapOwners] at hself
  exact hself.symm

/-- The occurrences of an expression are those of its terms. -/
theorem owners_conjuncts (e : Expr ρ) : e.conjuncts.flatMap (·.owners) = e.owners := by
  cases e with
  | conj terms => rw [conjuncts, owners, listOwners_eq_flatMap]
  | _ => exact List.append_nil _

theorem owners_and (a b : Expr ρ) : (a.and b).owners = a.owners ++ b.owners := by
  rw [← owners_conjuncts, conjuncts_and, List.flatMap_append, owners_conjuncts, owners_conjuncts]

end Expr

/-! ## Items and terms -/

theorem SelectItem.withOwners_hinges (replace : Option ρ → Except ε (Option σ))
    (i : SelectItem ρ) : HingesOn replace i.owners (i.withOwners replace) := by
  cases i with
  | star owner? => exact (HingesOn.one replace owner?).map star
  | expr e name? => exact (e.withOwners_hinges replace).map (expr · name?)

theorem SortTerm.withOwners_hinges (replace : Option ρ → Except ε (Option σ)) (t : SortTerm ρ) :
    HingesOn replace t.expr.owners (t.withOwners replace) :=
  (t.expr.withOwners_hinges replace).map fun e => (⟨e, t.direction⟩ : SortTerm σ)

@[simp] theorem SelectItem.owners_mapOwners (g : Option ρ → Option σ) (i : SelectItem ρ) :
    (i.mapOwners g).owners = i.owners.map g := by
  cases i with
  | star owner? => rfl
  | expr e name? => exact e.owners_mapOwners g

theorem SelectItem.owners_qualified (owner : ρ) (i : SelectItem ρ) :
    (i.qualified owner).owners = i.owners.map fun o => some (o.getD owner) := by
  cases i with
  | star owner? => cases owner? <;> rfl
  | expr e name? => exact e.owners_qualified owner

end SqlTree
