import SqlTree.Proofs.Engine.Eval
import SqlTree.Proofs.Expr.Same

/-!
# Values of expressions that are written alike

What writing leaves out of the shape of an expression makes no difference to an engine
(`Expr.Same.eval_eq`): a conjunction in a conjunction has the value of its terms among the others,
and a junction of one term or none has the value of what it is written as.
-/

namespace SqlTree

variable {ρ : Type}

namespace Engine

variable (E : Engine)

theorem all_of_two_le {vs : List Value} (h : 2 ≤ vs.length) :
    E.all vs = (Truth.all (vs.map E.truth)).value := by
  match vs with
  | [] | [_] => simp at h
  | v :: w :: rest => rfl

theorem any_of_two_le {vs : List Value} (h : 2 ≤ vs.length) :
    E.any vs = (Truth.any (vs.map E.truth)).value := by
  match vs with
  | [] | [_] => simp at h
  | v :: w :: rest => rfl

end Engine

/-- The value of a junction of values. -/
def Engine.junction (E : Engine) : Junction → List Value → Value
  | .and => E.all
  | .or => E.any

theorem Expr.eval_junction (E : Engine) (j : Junction) (es : List (Expr ρ))
    (members : List (Env ρ)) (env : Env ρ) :
    (j.expr es).eval E members env = E.junction j (es.map (·.eval E members env)) := by
  cases j with
  | and => rw [Junction.expr, eval, evalList_eq_map]; rfl
  | or => rw [Junction.expr, eval, evalList_eq_map]; rfl

/-- The values of a nested junction may stand among those around it. -/
theorem Engine.junction_nested (E : Engine) (j : Junction) (before after : List Value)
    {inner : List Value} (h : inner ≠ []) :
    E.junction j (before ++ E.junction j inner :: after) =
      E.junction j (before ++ inner ++ after) := by
  by_cases halone : before = [] ∧ after = []
  · obtain ⟨rfl, rfl⟩ := halone
    rw [List.append_nil]
    cases j <;> rfl
  · have hpos := List.length_pos_iff.2 h
    have hother : 1 ≤ before.length + after.length := by
      rw [← List.length_eq_zero_iff, ← List.length_eq_zero_iff] at halone
      omega
    have hleft : ∀ v, 2 ≤ (before ++ v :: after).length := fun v => by
      rw [List.length_append, List.length_cons]
      omega
    have hright : 2 ≤ (before ++ inner ++ after).length := by
      rw [List.length_append, List.length_append]
      omega
    cases j with
    | and =>
      rw [junction, E.all_of_two_le (hleft _), E.all_of_two_le hright, List.map_append,
        List.map_cons, truth_all, Truth.all_nested, List.map_append, List.map_append]
    | or =>
      rw [junction, E.any_of_two_le (hleft _), E.any_of_two_le hright, List.map_append,
        List.map_cons, truth_any, Truth.any_nested, List.map_append, List.map_append]

/-- Where the texts `1` and `0` are what they say. -/
structure Env.ReadsConstants (env : Env ρ) : Prop where
  one : env.text "1" [] = .ofBool true
  zero : env.text "0" [] = .ofBool false

/-- **Expressions that are written alike have one value.** -/
theorem Expr.Same.eval_eq (E : Engine) {e e' : Expr ρ} (h : e.Same e') : ∀ (members : List (Env ρ))
    (env : Env ρ), (∀ m ∈ members, m.ReadsConstants) → env.ReadsConstants →
      e.eval E members env = e'.eval E members env := by
  induction h with
  | refl e => exact fun _ _ _ _ => rfl
  | symm _ ih => exact fun members env hm henv => (ih members env hm henv).symm
  | trans _ _ ih ih' =>
    exact fun members env hm henv => (ih members env hm henv).trans (ih' members env hm henv)
  | nested j before after hinner =>
    intro members env _ _
    rw [eval_junction, eval_junction, List.map_append, List.map_cons, eval_junction,
      E.junction_nested j _ _ (by simpa using hinner), List.map_append, List.map_append]
  | single j e =>
    intro members env _ _
    rw [eval_junction]
    cases j <;> rfl
  | empty j =>
    intro members env _ henv
    rw [eval_junction]
    cases j with
    | and => exact henv.one.symm
    | or => exact henv.zero.symm
  | noValues e negated =>
    intro members env _ henv
    rw [eval_memberOfNone]
    cases negated with
    | true => exact henv.one.symm
    | false => exact henv.zero.symm
  | term j before after _ ih =>
    intro members env hm henv
    rw [eval_junction, eval_junction, List.map_append, List.map_append, List.map_cons,
      List.map_cons, ih members env hm henv]
  | lhs op rhs _ ih =>
    intro members env hm henv
    rw [eval, eval, ih members env hm henv]
  | rhs op lhs _ ih =>
    intro members env hm henv
    rw [eval, eval, ih members env hm henv]
  | neg _ ih =>
    intro members env hm henv
    rw [eval, eval, ih members env hm henv]
  | subject list negated _ ih =>
    intro members env hm henv
    rw [eval, eval, ih members env hm henv]
  | item subject before after negated _ ih =>
    intro members env hm henv
    rw [eval, eval, evalList_eq_map, evalList_eq_map, List.map_append, List.map_append,
      List.map_cons, List.map_cons, ih members env hm henv]
  | @argument name before after e e' _ ih =>
    intro members env hm henv
    have hlist : ∀ (ms : List (Env ρ)) (m : Env ρ), (∀ m ∈ ms, m.ReadsConstants) →
        m.ReadsConstants → evalList E (before ++ e :: after) ms m =
          evalList E (before ++ e' :: after) ms m := fun ms m hms hm => by
      rw [evalList_eq_map, evalList_eq_map, List.map_append, List.map_append, List.map_cons,
        List.map_cons, ih ms m hms hm]
    rw [eval, eval, List.length_append, List.length_cons, List.length_append, List.length_cons,
      hlist members env hm henv,
      List.map_congr_left fun m hmem =>
        hlist [] m (fun _ h => absurd h List.not_mem_nil) (hm m hmem)]
  | counted _ ih =>
    intro members env hm henv
    rw [eval, eval, List.map_congr_left fun m hmem =>
      ih [] m (fun _ h => absurd h List.not_mem_nil) (hm m hmem)]

end SqlTree
