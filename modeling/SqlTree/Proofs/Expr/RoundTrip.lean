import SqlTree.Proofs.Expr.Reading
import SqlTree.Proofs.Expr.Texts
import SqlTree.Proofs.Statement.Level

/-!
# Written expressions mean what they were

What an expression is written as is read back as the same expression: every place of an operand has
parentheses where the precedence table of the engine asks for them.

* `Reading.Reads` says that a fragment is read as an expression wherever operators of a level may
  stand. There is one lemma for each way in which fragments are put together.
* `Reading.reads_fragment`: the written form of an expression is read as the expression.
* `Scope.expr_readsBack` says this of an expression of a request that is written in a statement, and
  what becomes of the texts in it.
-/

namespace SqlTree

namespace Reading

/-- A fragment is read as an expression in every place for operators of a level. Terms of a junction
that are junctions of its kind are read one by one, so it matters what stands before them. -/
structure Reads (level : Nat) (f : Fragment) (e : Expr String) : Prop where
  alone : ∀ stack, Below level stack →
    ∃ c, run ⟨.operand, stack⟩ f = some c ∧ Leaves level stack e c
  behind : ∀ (j : Junction) (first : Expr String) (stack : List Frame),
    (Operator.junction j).level ≤ level → Below (Operator.junction j).level stack →
    ∃ c, run ⟨.operand, .between (.junction j) first :: stack⟩ f = some c ∧
      Leaves (Operator.junction j).level stack (j.expr [first, e]) c

theorem level_junction_le (j : Junction) : (Operator.junction j).level ≤ 2 := by
  cases j <;> decide

theorem ofToken?_junction (j : Junction) : Operator.ofToken? j.token = some (.junction j) := by
  cases j <;> rfl

theorem ofToken?_binary (op : BinaryOp) : Operator.ofToken? op.token = some (.binary op) := by
  cases op <;> rfl

theorem level_binary (op : BinaryOp) : (Operator.binary op).level = op.precedence := by
  cases op <;> rfl

namespace Reads

variable {level : Nat} {f : Fragment} {e : Expr String}

/-- Behind an operator that is looser the fragment is read as it is alone. -/
theorem behind_of_alone (h : ∀ stack, Below level stack →
      ∃ c, run ⟨.operand, stack⟩ f = some c ∧ Leaves level stack e c)
    (j : Junction) (hj : (Operator.junction j).level < level) (first : Expr String)
    (stack : List Frame) :
    ∃ c, run ⟨.operand, .between (.junction j) first :: stack⟩ f = some c ∧
      Leaves (Operator.junction j).level stack (j.expr [first, e]) c := by
  have hbelow : Below level (.between (.junction j) first :: stack) := by
    rintro n ⟨⟩
    exact hj
  obtain ⟨c, hrun, hleaves⟩ := h _ hbelow
  exact ⟨c, hrun,
    hleaves.fill rfl (Nat.le_refl _) (Nat.le_of_lt hj) fun t ht => .term j [first] [] ht⟩

theorem of_alone (hlevel : 2 < level) (h : ∀ stack, Below level stack →
      ∃ c, run ⟨.operand, stack⟩ f = some c ∧ Leaves level stack e c) : Reads level f e :=
  ⟨h, fun j first stack _ _ =>
    behind_of_alone h j (Nat.lt_of_le_of_lt (level_junction_le j) hlevel) first stack⟩

theorem mono {level' : Nat} (h : Reads level' f e) (hle : level ≤ level') : Reads level f e := by
  refine ⟨fun stack hstack => ?_, fun j first stack hj =>
    h.behind j first stack (Nat.le_trans hj hle)⟩
  obtain ⟨c, hrun, hleaves⟩ := h.alone stack (hstack.mono hle)
  exact ⟨c, hrun, hleaves.mono hle⟩

/-- The innermost places: what is read there does not depend on what is around it. -/
theorem atom {control : Control} (he : control.operand? = some e)
    (h : ∀ stack, run ⟨.operand, stack⟩ f = some ⟨control, stack⟩) : Reads 10 f e :=
  of_alone (by decide) fun stack _ => ⟨_, h stack, .operand he 10 stack⟩

theorem parens (h : Reads 0 f e) : Reads 10 f.parens e := by
  refine of_alone (by decide) fun stack _ => ?_
  obtain ⟨c, hrun, hleaves⟩ := h.alone (.group :: stack) nofun
  obtain ⟨t, hsame, hclose⟩ := hleaves.step_rparen nofun
  refine ⟨⟨.operator t, stack⟩, ?_, (Leaves.operand rfl 10 stack).same hsame⟩
  rw [Fragment.parens, List.cons_append, run_cons_of_eq rfl, run_append_of_eq hrun, run_cons,
    hclose]
  rfl

theorem bracketed {precedence min : Nat} (h : Reads precedence f e) (hmin : min ≤ 10) :
    Reads min (Expr.bracketed min precedence f) e := by
  rw [Expr.bracketed]
  split
  · exact (h.mono (Nat.zero_le precedence)).parens.mono hmin
  · next hle => exact h.mono (Nat.not_lt.1 hle)

/-! ## Operators -/

theorem binary {op : BinaryOp} {f g : Fragment} {lhs rhs : Expr String}
    (hl : Reads op.precedence f lhs) (hr : Reads (op.precedence + 1) g rhs) :
    Reads op.precedence (f ++ .token op.token :: g) (.binary op lhs rhs) := by
  have hlevel := level_binary op
  refine of_alone (by cases op <;> decide) fun stack hstack => ?_
  obtain ⟨c, hrun, hleaves⟩ := hl.alone stack hstack
  obtain ⟨l, hsame, hstep⟩ := hleaves.step_operator (ofToken?_binary op)
    (Nat.le_of_eq hlevel) (hlevel ▸ hstack)
  have hbelow : Below (op.precedence + 1) (.between (.binary op) l :: stack) := by
    rintro n ⟨⟩
    exact Nat.lt_succ_of_le (Nat.le_of_eq hlevel)
  obtain ⟨c', hrun', hleaves'⟩ := hr.alone _ hbelow
  refine ⟨c', ?_, hleaves'.fill rfl (Nat.le_of_eq hlevel.symm) (Nat.le_succ _) fun t ht =>
    .binary op hsame ht⟩
  rw [run_append_of_eq hrun, run_cons_of_eq hstep, hrun']

theorem neg (h : Reads 4 f e) : Reads 3 (.token .not :: f) e.neg := by
  refine of_alone (by decide) fun stack _ => ?_
  have hbelow : Below 4 (.negation :: stack) := by
    rintro n ⟨⟩
    decide
  obtain ⟨c, hrun, hleaves⟩ := h.alone _ hbelow
  refine ⟨c, ?_, hleaves.fill rfl (Nat.le_refl 3) (by decide) fun t ht => .neg ht⟩
  rw [run_cons_of_eq rfl, hrun]

end Reads

theorem separated_cons_cons (t : Token) (f g : Fragment) (fs : List Fragment) :
    Fragment.separated t (f :: g :: fs) = f ++ .token t :: Fragment.separated t (g :: fs) := by
  simp [Fragment.separated, List.intercalate]

/-- A token of a junction behind what has been read opens a place for its next term. -/
theorem Leaves.step_junction {level : Nat} {stack : List Frame} {e : Expr String} {c : Config}
    {j : Junction} (h : Leaves level stack e c) (hle : (Operator.junction j).level ≤ level)
    (hstack : Below (Operator.junction j).level stack) :
    ∃ lhs, lhs.Same e ∧
      step c (.token j.token) = some ⟨.operand, .between (.junction j) lhs :: stack⟩ :=
  h.step_operator (ofToken?_junction j) hle hstack

section Junctions

variable (j : Junction)

/-- The terms of a junction behind what has been read of it. -/
theorem run_junction_behind {fs : List Fragment} {es : List (Expr String)}
    (h : List.Forall₂ (Reads (Operator.junction j).level) fs es) (hne : es ≠ [])
    (first : Expr String) {stack : List Frame} (hstack : Below (Operator.junction j).level stack) :
    ∃ c, run ⟨.operand, .between (.junction j) first :: stack⟩ (Fragment.separated j.token fs) =
        some c ∧
      Leaves (Operator.junction j).level stack (j.expr (first :: es)) c := by
  induction h generalizing first with
  | nil => exact absurd rfl hne
  | @cons f e fs es hhead htail ih =>
    obtain ⟨c, hrun, hleaves⟩ := hhead.behind j first stack (Nat.le_refl _) hstack
    cases htail with
    | nil =>
      refine ⟨c, ?_, hleaves⟩
      rw [Fragment.separated, List.intercalate_singleton, hrun]
    | @cons g e' fs es hg htail =>
      obtain ⟨lhs, hsame, hstep⟩ := hleaves.step_junction (Nat.le_refl _) hstack
      obtain ⟨c', hrun', hleaves'⟩ := ih (List.cons_ne_nil e' es) lhs
      refine ⟨c', ?_, hleaves'.same ?_⟩
      · rw [separated_cons_cons, run_append_of_eq hrun, run_cons_of_eq hstep, hrun']
      · exact (Expr.Same.term j [] _ hsame).trans (.unnest_first j _ (List.cons_ne_nil first [e]))

theorem Reads.junction {fs : List Fragment} {es : List (Expr String)}
    (h : List.Forall₂ (Reads (Operator.junction j).level) fs es) (hne : es ≠ []) :
    Reads (Operator.junction j).level (Fragment.separated j.token fs) (j.expr es) := by
  have halone : ∀ stack, Below (Operator.junction j).level stack →
      ∃ c, run ⟨.operand, stack⟩ (Fragment.separated j.token fs) = some c ∧
        Leaves (Operator.junction j).level stack (j.expr es) c := by
    intro stack hstack
    cases h with
    | nil => exact absurd rfl hne
    | @cons f e fs es hhead htail =>
      obtain ⟨c, hrun, hleaves⟩ := hhead.alone stack hstack
      cases htail with
      | nil =>
        refine ⟨c, ?_, hleaves.same (.symm (.single j e))⟩
        rw [Fragment.separated, List.intercalate_singleton, hrun]
      | @cons g e' fs es hg htail =>
        obtain ⟨lhs, hsame, hstep⟩ := hleaves.step_junction (Nat.le_refl _) hstack
        obtain ⟨c', hrun', hleaves'⟩ :=
          run_junction_behind j (.cons hg htail) (List.cons_ne_nil e' es) lhs hstack
        refine ⟨c', ?_, hleaves'.same (.term j [] _ hsame)⟩
        rw [separated_cons_cons, run_append_of_eq hrun, run_cons_of_eq hstep, hrun']
  refine ⟨halone, fun j' first stack hle hstack => ?_⟩
  by_cases hj : j' = j
  · subst hj
    obtain ⟨c, hrun, hleaves⟩ := run_junction_behind j' h hne first hstack
    exact ⟨c, hrun, hleaves.same (.nest_last j' [first] hne)⟩
  · have hlt : (Operator.junction j').level < (Operator.junction j).level := by
      cases j <;> cases j' <;> revert hj hle <;> decide
    exact Reads.behind_of_alone halone j' hlt first stack

end Junctions

/-! ## Brackets -/

/-- The members of a list that is closed behind them. -/
theorem run_list (l : Listing) {fs : List Fragment} {es : List (Expr String)}
    (h : List.Forall₂ (Reads 0) fs es) (hne : es ≠ []) (done : List (Expr String))
    (stack : List Frame) :
    ∃ ts, List.Forall₂ Expr.Same ts es ∧
      run ⟨.operand, .list l done :: stack⟩ (Fragment.separated .comma fs ++ [.token .rparen]) =
        some ⟨.operator (l.close (done ++ ts)), stack⟩ := by
  induction h generalizing done with
  | nil => exact absurd rfl hne
  | @cons f e fs es hhead htail ih =>
    obtain ⟨c, hrun, hleaves⟩ := hhead.alone (.list l done :: stack) nofun
    cases htail with
    | nil =>
      obtain ⟨t, hsame, hclose⟩ := hleaves.step_rparen nofun
      refine ⟨[t], .cons hsame .nil, ?_⟩
      rw [Fragment.separated, List.intercalate_singleton, run_append_of_eq hrun, run_cons, hclose]
      rfl
    | @cons g e' fs es hg htail =>
      obtain ⟨t, hsame, hcomma⟩ := hleaves.step_comma nofun
      obtain ⟨ts, hts, hrest⟩ := ih (List.cons_ne_nil e' es) (done ++ [t])
      rw [List.append_assoc, List.singleton_append] at hrest
      refine ⟨t :: ts, .cons hsame hts, ?_⟩
      rw [separated_cons_cons, List.append_assoc, run_append_of_eq hrun, List.cons_append, run_cons,
        hcomma, ← hrest]
      rfl

theorem Reads.member {f : Fragment} {e : Expr String} {fs : List Fragment}
    {es : List (Expr String)} (he : Reads 5 f e) (h : List.Forall₂ (Reads 0) fs es) (hne : es ≠ [])
    (negated : Bool) :
    Reads 4 (f ++ (if negated then [.token .not] else []) ++
      .token .in_ :: Fragment.parens (.separated .comma fs)) (.member e es negated) := by
  refine of_alone (by decide) fun stack hstack => ?_
  obtain ⟨c, hrun, hleaves⟩ := he.alone stack (hstack.mono (by decide))
  obtain ⟨t, hsame, hin⟩ := hleaves.run_in (by decide) hstack negated
  obtain ⟨ts, hts, hlist⟩ := run_list (.members t negated) h hne [] stack
  refine ⟨⟨.operator (.member t ts negated), stack⟩, ?_,
    (Leaves.operand rfl 4 stack).same (.members negated hsame hts)⟩
  rw [List.append_cons, List.append_assoc f, List.append_assoc f, run_append_of_eq hrun,
    run_append_of_eq hin, Fragment.parens, List.cons_append, run_cons_of_eq rfl, hlist]
  rfl

theorem Reads.call (name : String) {fs : List Fragment} {es : List (Expr String)}
    (h : List.Forall₂ (Reads 0) fs es) :
    Reads 10 (Fragment.call name (.separated .comma fs)) (.call name es) := by
  refine of_alone (by decide) fun stack _ => ?_
  cases h with
  | nil => exact ⟨⟨.operator (.call name []), stack⟩, rfl, .operand rfl 10 stack⟩
  | @cons f e fs es hhead htail =>
    obtain ⟨ts, hts, hlist⟩ :=
      run_list (.arguments name) (.cons hhead htail) (List.cons_ne_nil e es) [] stack
    refine ⟨⟨.operator (.call name ts), stack⟩, ?_,
      (Leaves.operand rfl 10 stack).same (.arguments name hts)⟩
    rw [Fragment.call, run_cons_of_eq rfl, Fragment.parens, List.cons_append, run_cons_of_eq rfl,
      run_firstArgument hlist]
    rfl

theorem Reads.countDistinct {f : Fragment} {e : Expr String} (h : Reads 0 f e) :
    Reads 10 (Fragment.call "COUNT" (.token .distinct :: f)) e.countDistinct := by
  refine of_alone (by decide) fun stack _ => ?_
  obtain ⟨c, hrun, hleaves⟩ := h.alone (.distinct :: stack) nofun
  obtain ⟨t, hsame, hclose⟩ := hleaves.step_rparen nofun
  refine ⟨⟨.operator t.countDistinct, stack⟩, ?_,
    (Leaves.operand rfl 10 stack).same (.counted hsame)⟩
  rw [Fragment.call, run_cons_of_eq rfl, Fragment.parens, List.cons_append, run_cons_of_eq rfl,
    List.cons_append, run_cons_of_eq rfl, run_append_of_eq hrun, run_cons, hclose]
  rfl

/-! ## Expressions -/

theorem reads_value (v : Value) : Reads 10 (.value v) (.value v) := by
  cases v <;> exact .atom rfl fun _ => rfl

theorem reads_column (name : String) (owner? : Option String) :
    Reads 10 (Expr.columnFragment name owner?) (.column name owner?) := by
  cases owner? <;> exact .atom rfl fun _ => rfl

theorem reads_verbatim (text : String) (arguments : List Value) :
    Reads 10 (.verbatim text arguments) (.verbatim text arguments) :=
  .atom rfl fun _ => rfl

/-- Expressions that are written alike are read alike. -/
theorem Reads.same {level : Nat} {f : Fragment} {e e' : Expr String} (h : Reads level f e)
    (hsame : e.Same e') : Reads level f e' := by
  refine ⟨fun stack hstack => ?_, fun j first stack hj hstack => ?_⟩
  · obtain ⟨c, hrun, hleaves⟩ := h.alone stack hstack
    exact ⟨c, hrun, hleaves.same hsame⟩
  · obtain ⟨c, hrun, hleaves⟩ := h.behind j first stack hj hstack
    exact ⟨c, hrun, hleaves.same (.term j [first] [] hsame)⟩

mutual

/-- **An expression is read back from its written form**, in every place for its precedence. -/
theorem reads_fragment : ∀ e : Expr String, Reads e.precedence e.fragment e
  | .column name owner? => reads_column name owner?
  | .value v => reads_value v
  | .verbatim text arguments => (reads_verbatim text arguments).mono (Nat.zero_le 10)
  | .binary op lhs rhs =>
    .binary ((reads_fragment lhs).bracketed (by cases op <;> decide))
      ((reads_fragment rhs).bracketed (by cases op <;> decide))
  | .conj [] => ((reads_verbatim "1" []).same (.symm (.empty .and))).mono (by decide)
  | .conj (term :: terms) => .junction .and (reads_operands 2 (by decide) (term :: terms)) nofun
  | .disj [] => ((reads_verbatim "0" []).same (.symm (.empty .or))).mono (by decide)
  | .disj (term :: terms) => .junction .or (reads_operands 1 (by decide) (term :: terms)) nofun
  | .neg e => .neg ((reads_fragment e).bracketed (by decide))
  | .member e [] negated =>
    ((reads_verbatim (if negated then "1" else "0") []).same (.symm (.noValues e negated))).mono
      (show 4 ≤ 10 by decide)
  | .member e (item :: items) negated =>
    .member ((reads_fragment e).bracketed (by decide))
      (.cons ((reads_fragment item).mono (Nat.zero_le _)) (reads_operands 0 (by decide) items))
      nofun negated
  | .call name arguments => .call name (reads_operands 0 (by decide) arguments)
  | .countAll => .atom rfl fun _ => rfl
  | .countDistinct e => .countDistinct ((reads_fragment e).mono (Nat.zero_le _))

theorem reads_operands (min : Nat) (hmin : min ≤ 10) : ∀ es : List (Expr String),
    List.Forall₂ (Reads min) (Expr.operands min es) es
  | [] => .nil
  | e :: rest => .cons ((reads_fragment e).bracketed hmin) (reads_operands min hmin rest)

end

/-- What is read in every place for operators of a level is read where nothing is open. -/
theorem Reads.read? {level : Nat} {f : Fragment} {e : Expr String} (h : Reads level f e) :
    ∃ t, f.read? = some t ∧ t.Same e := by
  obtain ⟨c, hrun, hleaves⟩ := h.alone [] trivial
  obtain ⟨t, hsame, hfinish⟩ := hleaves.finish
  refine ⟨t, ?_, hsame⟩
  rw [Fragment.read?, hrun, Option.bind_eq_bind, Option.bind_some, hfinish]

/-- A written expression is read as an expression that is written alike. -/
theorem read?_fragment (e : Expr String) : ∃ t, e.fragment.read? = some t ∧ t.Same e :=
  (reads_fragment e).read?

end Reading

/-! ## Requests -/

mutual

/-- Names stand in front of columns only. -/
theorem Expr.texts_mapOwners {ρ σ : Type} (g : Option ρ → Option σ) (isOperand : Bool) :
    ∀ e : Expr ρ, (e.mapOwners g).texts isOperand = e.texts isOperand
  | .column name owner? => rfl
  | .value v => rfl
  | .verbatim text arguments => rfl
  | .binary op lhs rhs => by
    rw [mapOwners, texts, texts, texts_mapOwners g true lhs, texts_mapOwners g true rhs]
  | .conj [] => rfl
  | .conj (term :: terms) => by
    rw [mapOwners, mapOwnersList, texts, texts, texts_mapOwners g true term,
      listTexts_mapOwnersList g true terms]
  | .disj [] => rfl
  | .disj (term :: terms) => by
    rw [mapOwners, mapOwnersList, texts, texts, texts_mapOwners g true term,
      listTexts_mapOwnersList g true terms]
  | .neg e => by rw [mapOwners, texts, texts, texts_mapOwners g true e]
  | .member e [] negated => rfl
  | .member e (item :: items) negated => by
    rw [mapOwners, texts, texts, texts_mapOwners g true e, texts_mapOwners g false item,
      listTexts_mapOwnersList g false items]
  | .call name arguments => by
    rw [mapOwners, texts, texts, listTexts_mapOwnersList g false arguments]
  | .countAll => rfl
  | .countDistinct e => by rw [mapOwners, texts, texts, texts_mapOwners g false e]

theorem Expr.listTexts_mapOwnersList {ρ σ : Type} (g : Option ρ → Option σ) (isOperand : Bool) :
    ∀ es : List (Expr ρ), listTexts isOperand (mapOwnersList g es) = listTexts isOperand es
  | [] => rfl
  | e :: rest => by
    rw [mapOwnersList, listTexts, listTexts, texts_mapOwners g isOperand e,
      listTexts_mapOwnersList g isOperand rest]

end

/-- **What is written for an expression is read back as the expression.** Read by the precedence
table of the engine, it is the expression under the names of its statement, up to what `Expr.Same`
leaves open, and its texts that are operands are in parentheses. -/
theorem Scope.expr_readsBack (s : Scope) {e : Expr Alias} {e' : Expr String}
    (h : s.expr e = .ok e') :
    (∃ t, e'.fragment.read? = some t ∧ t.Same (e.mapOwners s.written)) ∧
      Fragment.Spells (e.texts false) e'.fragment := by
  obtain rfl := e.eq_mapOwners (fun _ _ => eq_written) h
  rw [← Expr.texts_mapOwners s.written]
  exact ⟨Reading.read?_fragment _, Expr.spells_fragment _⟩

/-- A conjunction in a conjunction, a text in a disjunction in it, and a negated membership. -/
theorem Scope.expr_readsBack_nested :
    let s : Scope := ⟨⟨⟨[.bound "book" none]⟩, bookCatalog.schema, [(⟨0⟩, "book")]⟩, true⟩
    let published : Expr Alias := .disj [.verbatim "year > ?" [.integer 1900], .conj []]
    let e : Expr Alias := .conj [.conj [.neg (.member (.colOf ⟨0⟩ "title") [.value .null] true),
      published], .binary .eq (.col "id") (.binary .subtract (.col "a") (.col "b"))]
    ∃ e', s.expr e = .ok e' ∧
      (∃ t, e'.fragment.read? = some t ∧ t.Same (e.mapOwners s.written)) ∧
      Fragment.Spells [⟨"year > ?", [.integer 1900], true⟩, ⟨"1", [], false⟩] e'.fragment :=
  ⟨_, rfl, Scope.expr_readsBack _ rfl⟩

end SqlTree
