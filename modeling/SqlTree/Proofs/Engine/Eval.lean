import Mathlib.Data.Finset.Card
import SqlTree.Proofs.Engine.Truth
import SqlTree.Proofs.Expr.Owners

/-!
# Values of expressions

What an engine makes of an expression. An `Engine` is what is left open: its operators and functions
and the way it tells values apart, with the little that is said of them everywhere. An `Env` gives
the columns and texts of an expression their values. Aggregates look at the members of a group, each
an `Env` of its own.

* `Expr.eval` is the value of an expression.
* `Expr.eval_mapOwners`: it depends on what columns stand for, not on how their occurrences are
  called.
* `Expr.eval_of_not_hasAggregate`: without aggregates it does not depend on a group.
-/

namespace SqlTree

/-! ## Telling values apart -/

section

variable {α κ : Type} [DecidableEq κ]

/-- The first member of each class of a list, when those of the classes in `seen` are left out. -/
def firstsFrom (key : α → κ) (seen : List κ) : List α → List α
  | [] => []
  | a :: rest =>
    if key a ∈ seen then firstsFrom key seen rest
    else a :: firstsFrom key (key a :: seen) rest

/-- The first member of each class of a list. -/
def firsts (key : α → κ) (as : List α) : List α := firstsFrom key [] as

theorem toFinset_firstsFrom (key : α → κ) (as : List α) (seen : List κ) :
    ((firstsFrom key seen as).map key).toFinset = (as.map key).toFinset \ seen.toFinset := by
  induction as generalizing seen with
  | nil => simp [firstsFrom]
  | cons a rest ih =>
    rw [firstsFrom]
    split
    · rename_i hseen
      rw [ih, List.map_cons, List.toFinset_cons, Finset.insert_sdiff_of_mem]
      exact List.mem_toFinset.2 hseen
    · rename_i hnew
      rw [List.map_cons, List.toFinset_cons, ih, List.toFinset_cons, List.map_cons,
        List.toFinset_cons]
      ext k
      by_cases hk : k = key a <;> simp [hk, hnew]

theorem nodup_firstsFrom (key : α → κ) (as : List α) (seen : List κ) :
    ((firstsFrom key seen as).map key).Nodup := by
  induction as generalizing seen with
  | nil => exact .nil
  | cons a rest ih =>
    rw [firstsFrom]
    split
    · exact ih seen
    · refine List.nodup_cons.2 ⟨fun hmem => ?_, ih _⟩
      have hdiff := toFinset_firstsFrom key rest (key a :: seen) ▸ List.mem_toFinset.2 hmem
      simp at hdiff

/-- There is one member for each class. -/
theorem length_firsts (key : α → κ) (as : List α) :
    (firsts key as).length = (as.map key).toFinset.card := by
  have hfinset := toFinset_firstsFrom key as []
  rw [List.toFinset_nil, Finset.sdiff_empty] at hfinset
  rw [← hfinset, List.toFinset_card_of_nodup (nodup_firstsFrom key as []), List.length_map, firsts]

end

/-! ## Engines -/

/-- A row of a table or of a selection. One of a table has a row id. -/
structure Row where
  values : List Value
  rowId? : Option Int64

/-- Whether a name denotes the row id of a table that has no column of this name. -/
def isRowIdName (name : String) : Bool := ["rowid", "_rowid_", "oid"].any (Text.sameName · name)

/-- What an engine computes. -/
structure Engine where
  /-- Whether a value counts as true. -/
  truth : Value → Truth
  /-- What an operator makes of two values. -/
  apply : BinaryOp → Value → Value → Value
  /-- What a function makes of its arguments. -/
  call : String → List Value → Value
  /-- Whether a function of a number of arguments is an aggregate. -/
  isAggregate : String → Nat → Bool
  /-- What an aggregate makes of the arguments that the members of a group give it. -/
  aggregate : String → List (List Value) → Value
  /-- What a text amounts to in rows at hand. -/
  text : String → List Value → List Row → Value
  /-- Whether a text has aggregates in it. -/
  isAggregateText : String → Bool
  /-- What a text amounts to in the members of a group. -/
  aggregateText : String → List Value → List (List Row) → Value
  /-- The member of a group that columns outside aggregates are taken from. -/
  pick : List (List Row) → Nat
  /-- The value that stands for all values that `DISTINCT` and `GROUP BY` do not tell from it. -/
  key : Value → Value
  /-- Whether a row with these values to sort by may stand in front of another. -/
  precedes : List (Direction × Value) → List (Direction × Value) → Bool
  truth_null : truth .null = none
  truth_integer : ∀ n, truth (.integer n) = some (n != 0)
  eq_integer : ∀ m n, apply .eq (.integer m) (.integer n) = .ofBool (m == n)
  is_integer : ∀ m n, apply .is (.integer m) (.integer n) = .ofBool (m == n)
  eq_null : ∀ v, apply .eq v .null = .null ∧ apply .eq .null v = .null
  is_null : ∀ v, apply .is v .null = .ofBool v.isNull ∧ apply .is .null v = .ofBool v.isNull
  key_eq_null : ∀ v, key v = key .null → v = .null

namespace Engine

variable (E : Engine)

/-- The value of a conjunction of values. A single one is left as it is. -/
def all : List Value → Value
  | [] => .ofBool true
  | [v] => v
  | vs => (Truth.all (vs.map E.truth)).value

/-- The value of a disjunction of values. A single one is left as it is. -/
def any : List Value → Value
  | [] => .ofBool false
  | [v] => v
  | vs => (Truth.any (vs.map E.truth)).value

/-- Whether a value is among others, or is not. -/
def isMember (v : Value) (vs : List Value) (negated : Bool) : Truth :=
  let among := Truth.any (vs.map fun w => E.truth (E.apply .eq v w))
  if negated then among.not else among

/-- The number of different values, `NULL` left out. -/
def countDistinct (vs : List Value) : Nat := (firsts E.key (vs.filter (!·.isNull))).length

@[simp] theorem truth_ofBool (b : Bool) : E.truth (.ofBool b) = some b := by
  rw [Value.ofBool, E.truth_integer]
  cases b <;> rfl

@[simp] theorem truth_value (t : Truth) : E.truth t.value = t := by
  cases t with
  | none => exact E.truth_null
  | some b => exact E.truth_ofBool b

@[simp] theorem truth_all (vs : List Value) : E.truth (E.all vs) = Truth.all (vs.map E.truth) := by
  match vs with
  | [] => rw [all, truth_ofBool]; rfl
  | [v] =>
    rw [all, List.map_singleton]
    rcases E.truth v with _ | _ | _ <;> rfl
  | v :: w :: rest => exact E.truth_value _

@[simp] theorem truth_any (vs : List Value) : E.truth (E.any vs) = Truth.any (vs.map E.truth) := by
  match vs with
  | [] => rw [any, truth_ofBool]; rfl
  | [v] =>
    rw [any, List.map_singleton]
    rcases E.truth v with _ | _ | _ <;> rfl
  | v :: w :: rest => exact E.truth_value _

/-- Counting different values passes over `NULL`, and telling rows apart does not. -/
theorem countDistinct_add (vs : List Value) :
    E.countDistinct vs + (if .null ∈ vs then 1 else 0) = (firsts E.key vs).length := by
  have hkeys : (vs.map E.key).toFinset =
      ((vs.filter (!·.isNull)).map E.key).toFinset ∪
        (if .null ∈ vs then {E.key .null} else ∅) := by
    ext k
    simp only [List.mem_toFinset, List.mem_map, Finset.mem_union, List.mem_filter]
    constructor
    · rintro ⟨v, hv, rfl⟩
      by_cases hnull : v = .null
      · subst hnull
        simp [hv]
      · refine .inl ⟨v, ⟨hv, ?_⟩, rfl⟩
        cases v <;> simp_all [Value.isNull]
    · rintro (⟨v, ⟨hv, -⟩, rfl⟩ | hk)
      · exact ⟨v, hv, rfl⟩
      · split at hk
        · exact ⟨.null, ‹_›, (Finset.mem_singleton.1 hk).symm⟩
        · exact absurd hk (Finset.notMem_empty k)
  have hdisjoint : E.key .null ∉ ((vs.filter (!·.isNull)).map E.key).toFinset := by
    simp only [List.mem_toFinset, List.mem_map, List.mem_filter, not_exists, not_and]
    rintro v ⟨-, hv⟩ hkey
    rw [E.key_eq_null v hkey] at hv
    cases hv
  rw [countDistinct, length_firsts, length_firsts, hkeys]
  split
  · rw [Finset.card_union_of_disjoint (Finset.disjoint_singleton_right.2 hdisjoint),
      Finset.card_singleton]
  · rw [Finset.union_empty, Nat.add_zero]

end Engine

/-! ## Values of expressions -/

/-- What the columns and texts of an expression stand for, where occurrences are given by an `ρ`. -/
structure Env (ρ : Type) where
  column : String → Option ρ → Value
  text : String → List Value → Value

variable {ρ σ : Type}

namespace Expr

mutual

/-- The value of an expression, given the members of its group. -/
def eval (E : Engine) : Expr ρ → List (Env ρ) → Env ρ → Value
  | column name owner?, _, env => env.column name owner?
  | value v, _, _ => v
  | verbatim text arguments, _, env => env.text text arguments
  | binary op lhs rhs, members, env => E.apply op (lhs.eval E members env) (rhs.eval E members env)
  | conj terms, members, env => E.all (evalList E terms members env)
  | disj terms, members, env => E.any (evalList E terms members env)
  | neg e, members, env => (E.truth (e.eval E members env)).not.value
  | member e list negated, members, env =>
    (E.isMember (e.eval E members env) (evalList E list members env) negated).value
  | call name arguments, members, env =>
    if E.isAggregate name arguments.length then
      E.aggregate name (members.map fun m => evalList E arguments [] m)
    else E.call name (evalList E arguments members env)
  | countAll, members, _ => .integer (.ofNat members.length)
  | countDistinct e, members, _ =>
    .integer (.ofNat (E.countDistinct (members.map fun m => e.eval E [] m)))

/-- The values of expressions. -/
def evalList (E : Engine) : List (Expr ρ) → List (Env ρ) → Env ρ → List Value
  | [], _, _ => []
  | e :: rest, members, env => e.eval E members env :: evalList E rest members env

end

mutual

/-- Whether there is an aggregate in what is written for an expression. -/
def hasAggregate (E : Engine) : Expr ρ → Bool
  | column _ _ => false
  | value _ => false
  | verbatim text _ => E.isAggregateText text
  | binary _ lhs rhs => lhs.hasAggregate E || rhs.hasAggregate E
  | conj terms => listHasAggregate E terms
  | disj terms => listHasAggregate E terms
  | neg e => e.hasAggregate E
  | member _ [] _ => false
  | member e (item :: items) _ =>
    e.hasAggregate E || (item.hasAggregate E || listHasAggregate E items)
  | call name arguments => E.isAggregate name arguments.length || listHasAggregate E arguments
  | countAll => true
  | countDistinct _ => true

/-- Whether there is an aggregate in what is written for one of some expressions. -/
def listHasAggregate (E : Engine) : List (Expr ρ) → Bool
  | [] => false
  | e :: rest => e.hasAggregate E || listHasAggregate E rest

end

theorem evalList_eq_map (E : Engine) (es : List (Expr ρ)) (members : List (Env ρ)) (env : Env ρ) :
    evalList E es members env = es.map (·.eval E members env) := by
  induction es with
  | nil => rfl
  | cons e es ih => rw [evalList, ih, List.map_cons]

theorem eval_memberOfNone (E : Engine) (e : Expr ρ) (negated : Bool) (members : List (Env ρ))
    (env : Env ρ) : (member e [] negated).eval E members env = .ofBool negated := by
  rw [eval, evalList]
  cases negated <;> rfl

end Expr

/-! ## Occurrences -/

/-- What columns stand for when their occurrences are called in another way. -/
def Env.pull (g : Option ρ → Option σ) (env : Env σ) : Env ρ :=
  ⟨fun name owner? => env.column name (g owner?), env.text⟩

namespace Expr

section

variable (E : Engine) (g : Option ρ → Option σ)

mutual

/-- **A value does not depend on how occurrences are called.** -/
theorem eval_mapOwners : ∀ (e : Expr ρ) (members : List (Env σ)) (env : Env σ),
    (e.mapOwners g).eval E members env = e.eval E (members.map (·.pull g)) (env.pull g)
  | column name owner?, members, env => rfl
  | value v, members, env => rfl
  | verbatim text arguments, members, env => rfl
  | binary op lhs rhs, members, env => by
    rw [mapOwners, eval, eval, eval_mapOwners lhs, eval_mapOwners rhs]
  | conj terms, members, env => by
    rw [mapOwners, eval, eval, evalList_mapOwnersList terms]
  | disj terms, members, env => by
    rw [mapOwners, eval, eval, evalList_mapOwnersList terms]
  | neg e, members, env => by
    rw [mapOwners, eval, eval, eval_mapOwners e]
  | member e [] negated, members, env => by
    rw [mapOwners, eval_memberOfNone, eval_memberOfNone]
  | member e (item :: items) negated, members, env => by
    rw [mapOwners, eval, eval, evalList, evalList, eval_mapOwners e, eval_mapOwners item,
      evalList_mapOwnersList items]
  | call name arguments, members, env => by
    have hlength : (mapOwnersList g arguments).length = arguments.length := by
      rw [mapOwnersList_eq_map, List.length_map]
    have harguments := evalList_mapOwnersList arguments
    rw [mapOwners, eval, eval, hlength, harguments]
    simp only [harguments, List.map_map, List.map_nil, Function.comp_def]
  | countAll, members, env => by
    rw [mapOwners, eval, eval, List.length_map]
  | countDistinct e, members, env => by
    rw [mapOwners, eval, eval]
    simp only [eval_mapOwners e, List.map_map, List.map_nil, Function.comp_def]

theorem evalList_mapOwnersList : ∀ (es : List (Expr ρ)) (members : List (Env σ)) (env : Env σ),
    evalList E (mapOwnersList g es) members env =
      evalList E es (members.map (·.pull g)) (env.pull g)
  | [], members, env => rfl
  | e :: rest, members, env => by
    rw [mapOwnersList, evalList, evalList, eval_mapOwners e, evalList_mapOwnersList rest]

end

mutual

@[simp] theorem hasAggregate_mapOwners : ∀ e : Expr ρ,
    (e.mapOwners g).hasAggregate E = e.hasAggregate E
  | column name owner? => rfl
  | value v => rfl
  | verbatim text arguments => rfl
  | binary op lhs rhs => by
    rw [mapOwners, hasAggregate, hasAggregate, hasAggregate_mapOwners lhs,
      hasAggregate_mapOwners rhs]
  | conj terms => by
    rw [mapOwners, hasAggregate, hasAggregate, listHasAggregate_mapOwnersList terms]
  | disj terms => by
    rw [mapOwners, hasAggregate, hasAggregate, listHasAggregate_mapOwnersList terms]
  | neg e => by rw [mapOwners, hasAggregate, hasAggregate, hasAggregate_mapOwners e]
  | member e [] negated => rfl
  | member e (item :: items) negated => by
    rw [mapOwners, hasAggregate, hasAggregate, hasAggregate_mapOwners e,
      hasAggregate_mapOwners item, listHasAggregate_mapOwnersList items]
  | call name arguments => by
    rw [mapOwners, hasAggregate, hasAggregate, listHasAggregate_mapOwnersList arguments,
      mapOwnersList_eq_map, List.length_map]
  | countAll => rfl
  | countDistinct e => rfl

theorem listHasAggregate_mapOwnersList : ∀ es : List (Expr ρ),
    listHasAggregate E (mapOwnersList g es) = listHasAggregate E es
  | [] => rfl
  | e :: rest => by
    rw [mapOwnersList, listHasAggregate, listHasAggregate, hasAggregate_mapOwners e,
      listHasAggregate_mapOwnersList rest]

end

end

section

variable (E : Engine)

mutual

/-- **Without aggregates there is no looking at the group.** -/
theorem eval_of_not_hasAggregate : ∀ (e : Expr ρ) (members members' : List (Env ρ)) (env : Env ρ),
    e.hasAggregate E = false → e.eval E members env = e.eval E members' env
  | column name owner?, _, _, env, _ => rfl
  | value v, _, _, env, _ => rfl
  | verbatim text arguments, _, _, env, _ => rfl
  | binary op lhs rhs, members, members', env, h => by
    rw [hasAggregate, Bool.or_eq_false_iff] at h
    rw [eval, eval, eval_of_not_hasAggregate lhs members members' env h.1,
      eval_of_not_hasAggregate rhs members members' env h.2]
  | conj terms, members, members', env, h => by
    rw [eval, eval, evalList_of_not_hasAggregate terms members members' env h]
  | disj terms, members, members', env, h => by
    rw [eval, eval, evalList_of_not_hasAggregate terms members members' env h]
  | neg e, members, members', env, h => by
    rw [eval, eval, eval_of_not_hasAggregate e members members' env h]
  | member e [] negated, members, members', env, _ => by
    rw [eval_memberOfNone, eval_memberOfNone]
  | member e (item :: items) negated, members, members', env, h => by
    rw [hasAggregate, Bool.or_eq_false_iff] at h
    rw [eval, eval, eval_of_not_hasAggregate e members members' env h.1,
      evalList_of_not_hasAggregate (item :: items) members members' env h.2]
  | call name arguments, members, members', env, h => by
    rw [hasAggregate, Bool.or_eq_false_iff] at h
    rw [eval, eval, h.1, if_neg (by decide), if_neg (by decide),
      evalList_of_not_hasAggregate arguments members members' env h.2]

theorem evalList_of_not_hasAggregate : ∀ (es : List (Expr ρ)) (members members' : List (Env ρ))
    (env : Env ρ), listHasAggregate E es = false →
      evalList E es members env = evalList E es members' env
  | [], _, _, env, _ => rfl
  | e :: rest, members, members', env, h => by
    rw [listHasAggregate, Bool.or_eq_false_iff] at h
    rw [evalList, evalList, eval_of_not_hasAggregate e members members' env h.1,
      evalList_of_not_hasAggregate rest members members' env h.2]

end

end

end Expr

end SqlTree
