import SqlTree.Proofs.Expr.RoundTrip
import SqlTree.Proofs.Statement.Level

/-!
# Statements clause by clause

A selection is written as its words and what stands between them. What is known of the tree of a
statement is carried to its chunks one clause at a time.

* `WrittenSelect` is what stands in the clauses of a selection, and `WrittenSelect.chunks` puts the
  words in front of the clauses and the commas into them. `Select.fragment_eq_chunks`: every
  selection is written so.
* `Level.fragment_infix`: the chunks of a nested level stand among those of the levels around it.
* `Select.sources_written`: a source is written as its table or as the selection in parentheses,
  with its name behind it. Columns refer to it by the last chunk (`FromItem.getLast?_fragment`).
* `Expr.IsReadFrom` and `SelectItem.IsReadFrom`: what is written in a clause is read back as the
  expression or the item that it is written for.
* `JoinLink.fragment_on`: the condition of a join is written as the comparisons of its link and the
  terms behind them, with `AND` between neighbours.
-/

namespace SqlTree

/-! ## Clauses -/

/-- What stands in the clauses of a join: its words, its source and its condition. -/
structure WrittenJoin where
  word : Token
  source : Fragment
  on : Fragment

/-- What stands in the clauses of a selection. A clause in which nothing stands is not written. -/
structure WrittenSelect where
  distinct : Bool
  items : List Fragment
  source : Fragment
  joins : List WrittenJoin
  filter? : Option Fragment
  group : List Fragment
  having? : Option Fragment
  order : List Fragment
  limit? : Option Limit

/-- A word with a condition behind it, if there is one. -/
def Fragment.behindWord (t : Token) : Option Fragment → Fragment
  | some f => .token t :: f
  | none => []

/-- A word with a list behind it, unless the list is empty. -/
def Fragment.listBehindWord (t : Token) : List Fragment → Fragment
  | [] => []
  | fs => .token t :: List.intercalate [.token .comma] fs

/-- The chunks of a join. -/
def WrittenJoin.chunks (j : WrittenJoin) : Fragment :=
  .token j.word :: j.source ++ .token .on :: j.on

namespace WrittenSelect

/-- The chunks of a selection. -/
def chunks (w : WrittenSelect) : Fragment :=
  .token .select :: (if w.distinct then [.token .distinct] else []) ++
    List.intercalate [.token .comma] w.items ++ .token .from_ :: w.source ++
    w.joins.flatMap (·.chunks) ++ Fragment.behindWord .where_ w.filter? ++
    Fragment.listBehindWord .groupBy w.group ++ Fragment.behindWord .having w.having? ++
    Fragment.listBehindWord .orderBy w.order ++ limitClause w.limit?

/-- The source and the joined sources. -/
def sources (w : WrittenSelect) : List Fragment := w.source :: w.joins.map (·.source)

theorem infix_chunks_of_mem_sources {w : WrittenSelect} {f : Fragment} (hf : f ∈ w.sources) :
    f <:+: w.chunks := by
  have hfrom : w.source ++ w.joins.flatMap (·.chunks) <:+: w.chunks :=
    ⟨.token .select :: (if w.distinct then [.token .distinct] else []) ++
      List.intercalate [.token .comma] w.items ++ [.token .from_],
      Fragment.behindWord .where_ w.filter? ++ Fragment.listBehindWord .groupBy w.group ++
        Fragment.behindWord .having w.having? ++ Fragment.listBehindWord .orderBy w.order ++
        limitClause w.limit?, by simp [chunks]⟩
  refine List.IsInfix.trans ?_ hfrom
  rcases List.mem_cons.1 hf with rfl | hf
  · exact (List.prefix_append _ _).isInfix
  · obtain ⟨j, hj, rfl⟩ := List.mem_map.1 hf
    have hjoin : j.source <:+: j.chunks := ⟨[.token j.word], .token .on :: j.on, rfl⟩
    have hjoins : j.chunks <:+: w.joins.flatMap (·.chunks) := by
      obtain ⟨before, behind, hsplit⟩ := List.append_of_mem hj
      rw [hsplit, List.flatMap_append, List.flatMap_cons]
      exact List.infix_append' _ _ _
    exact (hjoin.trans hjoins).trans (List.suffix_append _ _).isInfix

end WrittenSelect

/-- What stands in the clauses of a join of a statement. -/
def JoinItem.written (j : JoinItem) : WrittenJoin := ⟨j.kind.token, j.item.fragment, j.on.fragment⟩

/-- What stands in the clauses of a selection of a statement. -/
def Select.written (t : Select) : WrittenSelect where
  distinct := t.distinct
  items := t.items.map (·.fragment)
  source := t.source.fragment
  joins := t.joins.map (·.written)
  filter? := t.filter?.map (·.fragment)
  group := t.group.map (·.fragment)
  having? := t.having?.map (·.fragment)
  order := t.order.map (·.fragment)
  limit? := t.limit?

theorem conditionClause_eq (t : Token) (e? : Option (Expr String)) :
    conditionClause t e? = .behindWord t (e?.map (·.fragment)) := by
  cases e? <;> rfl

theorem listClause_eq (t : Token) (fs : List Fragment) :
    listClause t fs = .listBehindWord t fs := by
  cases fs <;> rfl

theorem joinsFragment_eq (joins : List JoinItem) :
    joinsFragment joins = (joins.map (·.written)).flatMap (·.chunks) := by
  induction joins with
  | nil => rfl
  | cons j rest ih =>
    rw [joinsFragment, List.map_cons, List.flatMap_cons, ih]
    cases j
    rfl

/-- **A selection is written clause by clause.** -/
theorem Select.fragment_eq_chunks (t : Select) : t.fragment = t.written.chunks := by
  obtain ⟨distinct, items, source, joins, filter?, group, having?, order, limit?⟩ := t
  rw [fragment, conditionClause_eq, conditionClause_eq, listClause_eq, listClause_eq,
    joinsFragment_eq]
  cases distinct <;> rfl

/-! ## Sources -/

/-- The words that give a name to what stands in front of them, if there is one. -/
def Fragment.asName : Option String → Fragment
  | some name => [.token .as_, .ident name]
  | none => []

theorem Fragment.namedIf_eq (f : Fragment) (name? : Option String) :
    f.namedIf name? = f ++ asName name? := by
  cases name? with
  | none => exact (List.append_nil f).symm
  | some name => rfl

/-- A name by which columns refer to a source is its last chunk. -/
theorem FromItem.getLast?_fragment {item : FromItem} {x : String} (h : item.name? = some x) :
    item.fragment.getLast? = some (.ident x) := by
  have hnamed : ∀ f : Fragment, (f ++ Fragment.asName (some x)).getLast? = some (.ident x) := by
    intro f
    simp [Fragment.asName]
  cases item with
  | table name name? =>
    cases name? with
    | none =>
      obtain rfl := Option.some.inj h
      rfl
    | some given =>
      obtain rfl := Option.some.inj h
      exact hnamed [.ident name]
  | select s name? =>
    obtain rfl : name? = some x := h
    exact hnamed s.fragment.parens

theorem Select.sources_written (t : Select) : t.written.sources = t.fromItems.map (·.fragment) := by
  rw [WrittenSelect.sources, fromItems, List.map_cons, written, List.map_map, List.map_map]
  rfl

/-- **A nested level** is written within the level around it, and so within every level further
out. -/
theorem Level.fragment_infix {q p : Query} {t u : Select} (h : Level q t p u) :
    u.fragment <:+: t.fragment := by
  induction h with
  | top => exact List.infix_rfl
  | @nested p inner t u v alias? name? _ hmem ih =>
    have hitem : FromItem.select v name? ∈ u.fromItems := (List.of_mem_zip hmem).2
    have hsource : (FromItem.select v name?).fragment ∈ u.written.sources := by
      rw [u.sources_written]
      exact List.mem_map_of_mem hitem
    have hparens : v.fragment <:+: (FromItem.select v name?).fragment := by
      rw [FromItem.fragment, Fragment.namedIf_eq]
      exact ⟨[.token .lparen], .token .rparen :: Fragment.asName name?, by simp [Fragment.parens]⟩
    refine (hparens.trans ?_).trans ih
    rw [u.fragment_eq_chunks]
    exact WrittenSelect.infix_chunks_of_mem_sources hsource

/-! ## Expressions and items -/

/-- A column or a star behind a name and a dot, if there is a name. -/
def Fragment.behindName (x? : Option String) (c : Chunk) : Fragment :=
  match x? with
  | some x => [.ident x, .token .dot, c]
  | none => [c]

theorem columnFragment_eq (name : String) (x? : Option String) :
    Expr.columnFragment name x? = Fragment.behindName x? (.ident name) := by
  cases x? <;> rfl

theorem starFragment_eq (x? : Option String) :
    starFragment x? = Fragment.behindName x? (.token .star) := by
  cases x? <;> rfl

section

variable {ρ : Type}

/-- A fragment is read as the expression under names, up to what `Expr.Same` leaves open. -/
def Expr.IsReadFrom (g : Option ρ → Option String) (e : Expr ρ) (f : Fragment) : Prop :=
  ∃ t, f.read? = some t ∧ t.Same (e.mapOwners g)

/-- A star stands behind the name of its occurrence, and behind an expression stands the name that
it is given. -/
inductive SelectItem.IsReadFrom (g : Option ρ → Option String) : SelectItem ρ → Fragment → Prop
  | star (owner? : Option ρ) :
      IsReadFrom g (.star owner?) (Fragment.behindName (g owner?) (.token .star))
  | expr {e : Expr ρ} {f : Fragment} (name? : Option String) : e.IsReadFrom g f →
      IsReadFrom g (.expr e name?) (f ++ Fragment.asName name?)

variable (g : Option ρ → Option String)

theorem Expr.isReadFrom (e : Expr ρ) : e.IsReadFrom g (e.mapOwners g).fragment :=
  Reading.read?_fragment _

theorem SelectItem.isReadFrom (i : SelectItem ρ) : i.IsReadFrom g (i.mapOwners g).fragment := by
  cases i with
  | star owner? =>
    rw [mapOwners, fragment, starFragment_eq]
    exact .star owner?
  | expr e name? =>
    rw [mapOwners, fragment, Fragment.namedIf_eq]
    exact .expr name? (e.isReadFrom g)

theorem SelectItem.isReadFrom_map (items : List (SelectItem ρ)) :
    List.Forall₂ (SelectItem.IsReadFrom g) items (items.map fun i => (i.mapOwners g).fragment) :=
  forall₂_map (fun i => i.isReadFrom g) items

/-- The terms of a conjunction are read from its operands. -/
theorem Expr.isReadFrom_operands (es : List (Expr ρ)) :
    List.Forall₂ (Expr.IsReadFrom g) es (operands 2 (es.map (·.mapOwners g))) := by
  have hreads := (Reading.reads_operands 2 (by decide) (es.map (·.mapOwners g))).flip
  rw [List.forall₂_map_left_iff] at hreads
  exact hreads.imp fun _ _ h => h.read?

/-- An expression is the conjunction of its terms. -/
theorem Expr.same_conj_conjuncts (e : Expr ρ) : e.Same (.conj e.conjuncts) := by
  cases e with
  | conj terms => exact .refl _
  | _ => exact .symm (.single .and _)

end

/-! ## Conditions of joins -/

/-- The chunks of the comparison of one pair of columns, behind the names of the parent and of the
joined source. -/
def JoinLink.comparisonChunks (link : JoinLink) (left? right? : Option String)
    (p : String × String) : Fragment :=
  if link.isHeldByParent then
    Fragment.behindName right? (.ident p.2) ++ .token .eq :: Fragment.behindName left? (.ident p.1)
  else
    Fragment.behindName right? (.ident p.1) ++ .token .eq :: Fragment.behindName left? (.ident p.2)

namespace JoinLink

variable {ρ : Type} (link : JoinLink) (left right : ρ) (g : Option ρ → Option String)
  (p : String × String)

/-- The comparison of a pair of columns is written under names. -/
theorem fragment_comparison : ((link.comparison left right p).mapOwners g).fragment =
    link.comparisonChunks (g (some left)) (g (some right)) p := by
  rw [comparison, comparisonChunks]
  split <;>
    simp only [Expr.mapOwners, Expr.colOf, Expr.fragment, columnFragment_eq] <;> rfl

theorem precedence_comparison : ((link.comparison left right p).mapOwners g).precedence = 4 := by
  rw [comparison]
  split <;> rfl

end JoinLink

namespace Expr

theorem operands_append (min : Nat) (es es' : List (Expr String)) :
    operands min (es ++ es') = operands min es ++ operands min es' := by
  induction es with
  | nil => rfl
  | cons e es ih => rw [List.cons_append, operands, operands, ih, List.cons_append]

/-- Terms that bind tighter than a conjunction stand in it as they are. -/
theorem operands_of_precedence {es : List (Expr String)} (h : ∀ e ∈ es, e.precedence = 4) :
    operands 2 es = es.map (·.fragment) := by
  induction es with
  | nil => rfl
  | cons e es ih =>
    obtain ⟨he, hes⟩ := List.forall_mem_cons.1 h
    rw [operands, ih hes, bracketed, he, List.map_cons]
    rfl

/-- A condition whose terms are some that bind tighter than a conjunction and others behind them is
written as these with `AND` between neighbours. -/
theorem fragment_of_conjuncts {e : Expr String} {cs ts : List (Expr String)}
    (h : e.conjuncts = cs ++ ts) (hsome : cs ≠ []) (hcs : ∀ c ∈ cs, c.precedence = 4) :
    e.fragment = List.intercalate [.token .and] (cs.map (·.fragment) ++ operands 2 ts) := by
  rw [← operands_of_precedence hcs, ← operands_append, ← h]
  -- An expression that is no conjunction is the only term, and stands alone as it is.
  have hsingle : e.conjuncts = [e] →
      e.fragment = List.intercalate [.token .and] (operands 2 e.conjuncts) := by
    intro honly
    obtain ⟨c, rest, rfl⟩ := List.exists_cons_of_ne_nil hsome
    obtain rfl : e = c := (List.cons.inj (honly.symm.trans h)).1
    have htight : e.precedence = 4 := hcs e List.mem_cons_self
    rw [honly, operands_of_precedence fun e' he' => List.mem_singleton.1 he' ▸ htight,
      List.map_singleton, List.intercalate_singleton]
  cases e with
  | conj terms =>
    cases terms with
    | nil => exact absurd (List.append_eq_nil_iff.1 h.symm).1 hsome
    | cons term terms => rfl
  | _ => exact hsingle rfl

end Expr

/-- **The condition of a join** is written as the comparisons of its link, and behind them the other
terms, with `AND` between neighbours. -/
theorem JoinLink.fragment_on {ρ : Type} {link : JoinLink} {left right : ρ}
    {g : Option ρ → Option String} {pairs : List (String × String)} {on : Expr String}
    {ts : List (Expr String)} (hsome : pairs ≠ [])
    (h : on.conjuncts = pairs.map (fun p => (link.comparison left right p).mapOwners g) ++ ts) :
    on.fragment = List.intercalate [.token .and]
      (pairs.map (link.comparisonChunks (g (some left)) (g (some right))) ++
        Expr.operands 2 ts) := by
  rw [Expr.fragment_of_conjuncts h (by simpa using hsome), List.map_map]
  · simp only [Function.comp_def, fragment_comparison]
  · rw [List.forall_mem_map]
    exact fun p _ => link.precedence_comparison left right g p

end SqlTree
