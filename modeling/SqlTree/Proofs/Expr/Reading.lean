import SqlTree.Proofs.Expr.Same

/-!
# Reading expressions

A reader of written expressions, by the precedence table of the engine: `OR` binds loosest, then
`AND`, the prefix `NOT`, the class of `=`, `IN` and `LIKE`, the comparisons, `+` and `-`, `*` and
`/`, and `||`; all operators with two operands associate to the left. It does not know how
expressions are written. A configuration of the reader is a control, which says what may come next,
and a stack of what is still open: operators that wait for their right operand, and brackets.

* `Fragment.read?` is the expression that a fragment is read as.
* `Reading.reduce` gives the pending operators of a level and tighter ones their operands.
* `Reading.Leaves` says that what has been read amounts to an expression, once the operators of a
  level and tighter ones have their operands. The lemmas about it say what the next token makes of
  that.
-/

namespace SqlTree

namespace Reading

/-! ## Operators -/

/-- An operator between two operands. -/
inductive Operator where
  | junction (j : Junction)
  | binary (op : BinaryOp)

namespace Operator

/-- The operator of a token that stands behind an operand. -/
def ofToken? : Token → Option Operator
  | .or => some (junction .or)
  | .and => some (junction .and)
  | .eq => some (binary .eq)
  | .ne => some (binary .ne)
  | .is => some (binary .is)
  | .isNot => some (binary .isNot)
  | .like => some (binary .like)
  | .lt => some (binary .lt)
  | .le => some (binary .le)
  | .gt => some (binary .gt)
  | .ge => some (binary .ge)
  | .plus => some (binary .add)
  | .minus => some (binary .subtract)
  | .star => some (binary .multiply)
  | .slash => some (binary .divide)
  | .concat => some (binary .concat)
  | _ => none

/-- The level of an operator in the table of the engine, from the loosest. The prefix `NOT` is at
level three, and `IN` at level four. -/
def level : Operator → Nat
  | junction .or => 1
  | junction .and => 2
  | binary .eq | binary .ne | binary .is | binary .isNot | binary .like => 4
  | binary .lt | binary .le | binary .gt | binary .ge => 5
  | binary .add | binary .subtract => 6
  | binary .multiply | binary .divide => 7
  | binary .concat => 8

/-- The operator with its operands. -/
def apply : Operator → Expr String → Expr String → Expr String
  | junction j, lhs, rhs => j.expr [lhs, rhs]
  | binary op, lhs, rhs => .binary op lhs rhs

end Operator

/-! ## The machine -/

/-- A bracket around a list of expressions. -/
inductive Listing where
  /-- The values behind `IN` or `NOT IN`. -/
  | members (subject : Expr String) (negated : Bool)
  /-- The arguments of a function. -/
  | arguments (name : String)

/-- What the list makes when its bracket closes. -/
def Listing.close : Listing → List (Expr String) → Expr String
  | members subject negated, items => .member subject items negated
  | arguments name, items => .call name items

/-- What is still open. -/
inductive Frame where
  /-- An operator behind its left operand. -/
  | between (o : Operator) (lhs : Expr String)
  /-- A prefix `NOT`. -/
  | negation
  /-- A parenthesis around one expression. -/
  | group
  /-- A bracket around a list, and the members of the list that have been read. -/
  | list (l : Listing) (done : List (Expr String))
  /-- The bracket of `COUNT(DISTINCT ..)`. -/
  | distinct

namespace Frame

/-- The level of an operator that waits for an operand; a bracket has none. -/
def level? : Frame → Option Nat
  | between o _ => some o.level
  | negation => some 3
  | group | list _ _ | distinct => none

/-- An operator that waits for an operand, with that operand. -/
def fill : Frame → Expr String → Expr String
  | between o lhs, e => o.apply lhs e
  | negation, e => .neg e
  | group, e | list _ _, e | distinct, e => e

end Frame

/-- What may come next. -/
inductive Control where
  /-- An operand. -/
  | operand
  /-- Something behind an operand. -/
  | operator (e : Expr String)
  /-- A dot, or something behind the column. -/
  | column (name : String)
  /-- The name of a column behind that of its occurrence. -/
  | ofOwner (owner : String)
  /-- The `IN` of a `NOT IN`. -/
  | notIn (subject : Expr String)
  /-- The bracket behind `IN`. -/
  | listOf (subject : Expr String) (negated : Bool)
  /-- The bracket behind the name of a function. -/
  | function (name : String)
  /-- The first argument of a function, or what stands in its place. -/
  | firstArgument (name : String)
  /-- The bracket behind `COUNT(*`. -/
  | allCounted

/-- A control, and what is still open, innermost first. -/
structure Config where
  control : Control
  stack : List Frame

/-- The expression and what is still open around it, after the operators of a level and tighter ones
took it as their operand. -/
def reduce (level : Nat) (e : Expr String) : List Frame → Expr String × List Frame
  | [] => (e, [])
  | f :: rest =>
    if f.level?.any (level ≤ ·) then reduce level (f.fill e) rest else (e, f :: rest)

/-- A closing bracket behind an operand. -/
def closing (e : Expr String) (stack : List Frame) : Option Config :=
  match reduce 0 e stack with
  | (e, .group :: rest) => some ⟨.operator e, rest⟩
  | (e, .list l done :: rest) => some ⟨.operator (l.close (done ++ [e])), rest⟩
  | (e, .distinct :: rest) => some ⟨.operator e.countDistinct, rest⟩
  | _ => none

/-- A comma behind an operand. -/
def comma (e : Expr String) (stack : List Frame) : Option Config :=
  match reduce 0 e stack with
  | (e, .list l done :: rest) => some ⟨.operand, .list l (done ++ [e]) :: rest⟩
  | _ => none

/-- The first chunk of an operand. -/
def stepOperand (stack : List Frame) : Chunk → Option Config
  | .ident name => some ⟨.column name, stack⟩
  | .token .null => some ⟨.operator (.value .null), stack⟩
  | .placeholder v => some ⟨.operator (.value v), stack⟩
  | .verbatim text arguments => some ⟨.operator (.verbatim text arguments), stack⟩
  | .token .not => some ⟨.operand, .negation :: stack⟩
  | .token .lparen => some ⟨.operand, .group :: stack⟩
  | .function name => some ⟨.function name, stack⟩
  | _ => none

/-- A chunk behind an operand. -/
def stepOperator (e : Expr String) (stack : List Frame) : Chunk → Option Config
  | .token .rparen => closing e stack
  | .token .comma => comma e stack
  | .token .not =>
    let (subject, rest) := reduce 4 e stack
    some ⟨.notIn subject, rest⟩
  | .token .in_ =>
    let (subject, rest) := reduce 4 e stack
    some ⟨.listOf subject false, rest⟩
  | .token t => do
    let o ← Operator.ofToken? t
    let (lhs, rest) := reduce o.level e stack
    return ⟨.operand, .between o lhs :: rest⟩
  | _ => none

/-- One chunk. -/
def step : Config → Chunk → Option Config
  | ⟨.operand, stack⟩, c => stepOperand stack c
  | ⟨.operator e, stack⟩, c => stepOperator e stack c
  | ⟨.column name, stack⟩, c =>
    if c = .token .dot then some ⟨.ofOwner name, stack⟩
    else stepOperator (.column name none) stack c
  | ⟨.ofOwner owner, stack⟩, .ident name => some ⟨.operator (.column name (some owner)), stack⟩
  | ⟨.notIn subject, stack⟩, .token .in_ => some ⟨.listOf subject true, stack⟩
  | ⟨.listOf subject negated, stack⟩, .token .lparen =>
    some ⟨.operand, .list (.members subject negated) [] :: stack⟩
  | ⟨.function name, stack⟩, .token .lparen => some ⟨.firstArgument name, stack⟩
  | ⟨.firstArgument name, stack⟩, .token .rparen => some ⟨.operator (.call name []), stack⟩
  | ⟨.firstArgument "COUNT", stack⟩, .token .star => some ⟨.allCounted, stack⟩
  | ⟨.firstArgument "COUNT", stack⟩, .token .distinct => some ⟨.operand, .distinct :: stack⟩
  | ⟨.firstArgument name, stack⟩, c => stepOperand (.list (.arguments name) [] :: stack) c
  | ⟨.allCounted, stack⟩, .token .rparen => some ⟨.operator .countAll, stack⟩
  | _, _ => none

/-- The chunks of a fragment, one after the other. -/
def run (c : Config) (f : Fragment) : Option Config := f.foldlM step c

/-- The operand at the end of what has been read. -/
def Control.operand? : Control → Option (Expr String)
  | operator e => some e
  | column name => some (.column name none)
  | _ => none

/-- The expression that has been read, with nothing left open. -/
def finish (c : Config) : Option (Expr String) := do
  let e ← c.control.operand?
  match reduce 0 e c.stack with
  | (e, []) => some e
  | _ => none

end Reading

/-- The expression that a fragment is read as, if it is one. -/
def Fragment.read? (f : Fragment) : Option (Expr String) := do
  Reading.finish (← Reading.run ⟨.operand, []⟩ f)

namespace Reading

/-! ## Runs -/

@[simp] theorem run_nil (c : Config) : run c [] = some c := rfl

theorem run_cons (c : Config) (chunk : Chunk) (f : Fragment) :
    run c (chunk :: f) = (step c chunk).bind (run · f) := rfl

theorem run_append (c : Config) (f g : Fragment) :
    run c (f ++ g) = (run c f).bind (run · g) :=
  List.foldlM_append

theorem run_append_of_eq {c c' : Config} {f : Fragment} (h : run c f = some c') (g : Fragment) :
    run c (f ++ g) = run c' g := by
  rw [run_append, h, Option.bind_some]

theorem run_cons_of_eq {c c' : Config} {chunk : Chunk} (h : step c chunk = some c')
    (f : Fragment) : run c (chunk :: f) = run c' f := by
  rw [run_cons, h, Option.bind_some]

/-- Behind an operand every token but the dot is read in the same way. -/
theorem step_of_operand? {c : Config} {e : Expr String} (h : c.control.operand? = some e)
    (t : Token) (hdot : t ≠ .dot) : step c (.token t) = stepOperator e c.stack (.token t) := by
  obtain ⟨control, stack⟩ := c
  cases control with
  | operator e' =>
    obtain rfl := Option.some.inj h
    rfl
  | column name =>
    obtain rfl := Option.some.inj h
    rw [step, if_neg (by simpa using hdot)]
  | _ => cases h

/-- What begins the first argument of a function also begins an operand, so the bracket may as well
be opened before. -/
theorem run_firstArgument {name : String} {stack : List Frame} {e : Expr String} {f : Fragment}
    {stack' : List Frame}
    (h : run ⟨.operand, .list (.arguments name) [] :: stack⟩ f = some ⟨.operator e, stack'⟩) :
    run ⟨.firstArgument name, stack⟩ f = some ⟨.operator e, stack'⟩ := by
  cases f with
  | nil => cases h
  | cons c f =>
    have hstep : step ⟨.firstArgument name, stack⟩ c =
        step ⟨.operand, .list (.arguments name) [] :: stack⟩ c := by
      rw [run_cons] at h
      unfold step
      split <;> simp_all [stepOperand, step]
    rw [run_cons, hstep, ← run_cons, h]

/-! ## Pending operators -/

/-- Whether the innermost thing that is open, if there is one, is a bracket or an operator looser
than a level. -/
def Below (level : Nat) : List Frame → Prop
  | [] => True
  | f :: _ => ∀ n ∈ f.level?, n < level

theorem Below.mono {level level' : Nat} (h : level ≤ level') :
    ∀ {stack : List Frame}, Below level stack → Below level' stack
  | [], _ => trivial
  | _ :: _, hbelow => fun n hn => Nat.lt_of_lt_of_le (hbelow n hn) h

/-- The expression with the pending operators applied, innermost first. -/
def filled (e : Expr String) (pending : List Frame) : Expr String :=
  pending.foldl (fun e f => f.fill e) e

/-- Whether all of them are operators of a level or tighter. -/
def AtLeast (level : Nat) (pending : List Frame) : Prop :=
  ∀ f ∈ pending, ∃ n ∈ f.level?, level ≤ n

theorem AtLeast.mono {level level' : Nat} {pending : List Frame} (h : AtLeast level' pending)
    (hle : level ≤ level') : AtLeast level pending := fun f hf => by
  obtain ⟨n, hn, hlevel⟩ := h f hf
  exact ⟨n, hn, Nat.le_trans hle hlevel⟩

theorem reduce_below {level : Nat} (e : Expr String) {stack : List Frame}
    (h : Below level stack) : reduce level e stack = (e, stack) := by
  cases stack with
  | nil => rfl
  | cons f rest =>
    rw [reduce, if_neg]
    rw [Option.any_eq_true]
    rintro ⟨n, hn, hle⟩
    exact absurd (of_decide_eq_true hle) (Nat.not_le.2 (h n hn))

/-- The pending operators of a level and tighter ones are applied, and those outside are left. -/
theorem reduce_pending {level : Nat} {pending stack : List Frame} (hpending : AtLeast level pending)
    (hstack : Below level stack) (e : Expr String) :
    reduce level e (pending ++ stack) = (filled e pending, stack) := by
  induction pending generalizing e with
  | nil => exact reduce_below e hstack
  | cons f rest ih =>
    obtain ⟨n, hn, hle⟩ := hpending f List.mem_cons_self
    have hany : f.level?.any (level ≤ ·) = true :=
      (Option.any_eq_true _ _).2 ⟨n, hn, decide_eq_true hle⟩
    rw [List.cons_append, reduce, if_pos hany]
    exact ih (fun g hg => hpending g (List.mem_cons_of_mem f hg)) (f.fill e)

/-! ## What has been read -/

/-- What has been read from a configuration with this stack on is the given expression, but for the
operators of a level and tighter ones, which wait for the operand at the end. -/
def Leaves (level : Nat) (stack : List Frame) (e : Expr String) (c : Config) : Prop :=
  ∃ x pending, c.control.operand? = some x ∧ c.stack = pending ++ stack ∧ AtLeast level pending ∧
    (filled x pending).Same e

namespace Leaves

variable {level level' : Nat} {stack : List Frame} {e e' : Expr String} {c : Config}

theorem operand {control : Control} (h : control.operand? = some e) (level : Nat)
    (stack : List Frame) : Leaves level stack e ⟨control, stack⟩ :=
  ⟨e, [], h, rfl, fun _ hf => absurd hf List.not_mem_nil, .refl e⟩

theorem mono (h : Leaves level' stack e c) (hle : level ≤ level') : Leaves level stack e c := by
  obtain ⟨x, pending, hx, hstack, hpending, hsame⟩ := h
  exact ⟨x, pending, hx, hstack, hpending.mono hle, hsame⟩

theorem same (h : Leaves level stack e c) (hsame : e.Same e') : Leaves level stack e' c := by
  obtain ⟨x, pending, hx, hstack, hpending, h⟩ := h
  exact ⟨x, pending, hx, hstack, hpending, h.trans hsame⟩

/-- An operator outside what has been read takes it as its operand. -/
theorem fill {f : Frame} {n : Nat} (hlevel : f.level? = some n) (hle : level ≤ n)
    (hn : level ≤ level') (h : Leaves level' (f :: stack) e c)
    (hfill : ∀ t, t.Same e → (f.fill t).Same e') : Leaves level stack e' c := by
  obtain ⟨x, pending, hx, hstack, hpending, hsame⟩ := h
  refine ⟨x, pending ++ [f], hx, ?_, ?_, ?_⟩
  · rw [hstack, List.append_assoc, List.singleton_append]
  · intro g hg
    rcases List.mem_append.1 hg with hg | hg
    · exact hpending.mono hn g hg
    · obtain rfl := List.mem_singleton.1 hg
      exact ⟨n, hlevel, hle⟩
  · rw [filled, List.foldl_append]
    exact hfill _ hsame

/-- What the next chunk makes of it: the operators of its level and tighter ones have their
operands. -/
theorem reduce (h : Leaves level' stack e c) (hle : level ≤ level') (hstack : Below level stack) :
    ∃ x t, c.control.operand? = some x ∧ t.Same e ∧
      Reading.reduce level x c.stack = (t, stack) := by
  obtain ⟨x, pending, hx, heq, hpending, hsame⟩ := h
  refine ⟨x, filled x pending, hx, hsame, ?_⟩
  rw [heq, reduce_pending (hpending.mono hle) hstack]

/-- An operator behind what has been read takes it as its left operand. -/
theorem step_operator (h : Leaves level' stack e c) {o : Operator} {t : Token}
    (ht : Operator.ofToken? t = some o) (hle : o.level ≤ level') (hstack : Below o.level stack) :
    ∃ lhs, lhs.Same e ∧ step c (.token t) = some ⟨.operand, .between o lhs :: stack⟩ := by
  obtain ⟨x, lhs, hx, hsame, hreduce⟩ := h.reduce hle hstack
  refine ⟨lhs, hsame, ?_⟩
  have hdot : t ≠ .dot := by
    rintro rfl
    cases ht
  rw [step_of_operand? hx t hdot]
  unfold stepOperator
  split <;> simp_all [Operator.ofToken?]

/-- `IN` or `NOT IN` takes what has been read as its subject. -/
theorem run_in (h : Leaves level' stack e c) (hle : 4 ≤ level') (hstack : Below 4 stack)
    (negated : Bool) :
    ∃ subject, subject.Same e ∧
      run c ((if negated then [.token .not] else []) ++ [.token .in_]) =
        some ⟨.listOf subject negated, stack⟩ := by
  obtain ⟨x, subject, hx, hsame, hreduce⟩ := h.reduce hle hstack
  refine ⟨subject, hsame, ?_⟩
  have hin : step c (.token .in_) = some ⟨.listOf subject false, stack⟩ := by
    rw [step_of_operand? hx .in_ nofun, stepOperator, hreduce]
  have hnot : step c (.token .not) = some ⟨.notIn subject, stack⟩ := by
    rw [step_of_operand? hx .not nofun, stepOperator, hreduce]
  cases negated with
  | false => exact run_cons_of_eq hin []
  | true => exact run_cons_of_eq hnot [.token .in_]

/-- A bracket closes around what has been read. -/
theorem step_rparen (h : Leaves level stack e c) (hstack : Below 0 stack) :
    ∃ t, t.Same e ∧ step c (.token .rparen) = closing t stack := by
  obtain ⟨x, t, hx, hsame, hreduce⟩ := h.reduce (Nat.zero_le level) hstack
  refine ⟨t, hsame, ?_⟩
  rw [step_of_operand? hx .rparen nofun, stepOperator, closing, closing, hreduce,
    reduce_below t hstack]

/-- A comma ends a member of a list. -/
theorem step_comma (h : Leaves level stack e c) (hstack : Below 0 stack) :
    ∃ t, t.Same e ∧ step c (.token .comma) = Reading.comma t stack := by
  obtain ⟨x, t, hx, hsame, hreduce⟩ := h.reduce (Nat.zero_le level) hstack
  refine ⟨t, hsame, ?_⟩
  rw [step_of_operand? hx .comma nofun, stepOperator, Reading.comma, Reading.comma, hreduce,
    reduce_below t hstack]

/-- At the end of a fragment that was read from the start. -/
theorem finish (h : Leaves level [] e c) : ∃ t, t.Same e ∧ Reading.finish c = some t := by
  obtain ⟨x, t, hx, hsame, hreduce⟩ := h.reduce (Nat.zero_le level) trivial
  refine ⟨t, hsame, ?_⟩
  rw [Reading.finish, hx, Option.bind_eq_bind, Option.bind_some, hreduce]

end Leaves

end Reading

end SqlTree
