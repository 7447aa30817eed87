import Mathlib.Data.List.Forall2
import SqlTree.Expr.Order
import SqlTree.Proofs.Expr.Owners

/-!
# Columns in written expressions

A column is written as its name, or as its name behind another name and a dot.
`Fragment.Refers` reads the columns off the chunks of a fragment, each with what stands in front of
it. Functions and texts taken as they are have chunks of their own kind, so every name that is
written in an expression is that of a column or stands in front of one.

* `Expr.refers_fragment`: an expression under names refers to its columns, each behind its name.
* `Direction.refers_append`: the words of a direction behind it refer to no more.
-/

namespace SqlTree

variable {ρ : Type} {f g : Fragment} {cs cs' : List (String × Option String)}

/-- A fragment refers to these columns, in this order and no others, each with the name that stands
in front of it if there is one. -/
inductive Fragment.Refers : List (String × Option String) → Fragment → Prop
  | nil : Refers [] []
  | chunk {cs : List (String × Option String)} {f : Fragment} (c : Chunk) :
      (∀ name, c ≠ .ident name) → Refers cs f → Refers cs (c :: f)
  | alone {cs : List (String × Option String)} {f : Fragment} (name : String) :
      f.head? ≠ some (.token .dot) → Refers cs f → Refers ((name, none) :: cs) (.ident name :: f)
  | behind {cs : List (String × Option String)} {f : Fragment} (owner name : String) :
      Refers cs f → Refers ((name, some owner) :: cs)
        (.ident owner :: .token .dot :: .ident name :: f)

namespace Fragment.Refers

/-- What stands behind may not begin with a dot, which would make a name one in front of a
column. -/
theorem append (hf : Refers cs f) (hg : Refers cs' g) (hdot : g.head? ≠ some (.token .dot)) :
    Refers (cs ++ cs') (f ++ g) := by
  induction hf with
  | nil => exact hg
  | chunk c hc _ ih => exact .chunk c hc ih
  | @alone cs f name hhead _ ih =>
    refine .alone name ?_ ih
    cases f with
    | nil => exact hdot
    | cons c f => exact hhead
  | behind owner name _ ih => exact .behind owner name ih

theorem token (t : Token) (h : Refers cs f) : Refers cs (.token t :: f) := .chunk _ nofun h

/-- Tokens other than a dot stand between columns. -/
theorem append_token {t : Token} (hf : Refers cs f) (ht : t ≠ .dot) (hg : Refers cs' g) :
    Refers (cs ++ cs') (f ++ .token t :: g) :=
  hf.append (hg.token t) fun h => ht (Chunk.token.inj (Option.some.inj h))

theorem parens (h : Refers cs f) : Refers cs f.parens := by
  have hend := h.append_token (t := .rparen) nofun .nil
  rw [List.append_nil] at hend
  exact hend.token .lparen

theorem bracketed (h : Refers cs f) (min precedence : Nat) :
    Refers cs (Expr.bracketed min precedence f) := by
  rw [Expr.bracketed]
  split
  · exact h.parens
  · exact h

theorem separated {t : Token} (ht : t ≠ .dot) {css : List (List (String × Option String))}
    {fs : List Fragment} (h : List.Forall₂ Refers css fs) :
    Refers css.flatten (Fragment.separated t fs) := by
  induction h with
  | nil => exact .nil
  | @cons cs f css fs hf hrest ih =>
    cases hrest with
    | nil =>
      rw [List.flatten_singleton, Fragment.separated, List.intercalate_singleton]
      exact hf
    | @cons cs' g css fs hg hrest =>
      rw [List.flatten_cons, Fragment.separated, List.intercalate_cons_cons, List.append_assoc]
      exact hf.append_token ht ih

end Fragment.Refers

namespace Expr

theorem refers_column (name : String) (owner? : Option String) :
    Fragment.Refers [(name, owner?)] (columnFragment name owner?) := by
  cases owner? with
  | none => exact .alone name nofun .nil
  | some owner => exact .behind owner name .nil

theorem refers_value (v : Value) : Fragment.Refers [] (.value v) := by
  cases v <;> exact .chunk _ nofun .nil

/-- Expressions with a token between neighbours refer to the columns of all of them. -/
theorem refers_separated (t : Token) (ht : t ≠ .dot) {es : List (Expr String)} {fs : List Fragment}
    (h : List.Forall₂ Fragment.Refers (es.map (·.columns)) fs) :
    Fragment.Refers (listColumns es) (.separated t fs) := by
  have hflatten : (es.map (·.columns)).flatten = listColumns es := by
    clear h
    induction es with
    | nil => rfl
    | cons e es ih => rw [List.map_cons, List.flatten_cons, ih, listColumns]
  rw [← hflatten]
  exact .separated ht h

theorem token_ne_dot (op : BinaryOp) : op.token ≠ .dot := by
  cases op <;> nofun

section

variable (g : Option ρ → Option String)

mutual

/-- **The written form of an expression under names refers to its columns**, each behind the name
that it has. -/
theorem refers_fragment : ∀ e : Expr ρ,
    Fragment.Refers (e.mapOwners g).columns (e.mapOwners g).fragment
  | column name owner? => refers_column name (g owner?)
  | value v => refers_value v
  | verbatim text arguments => .chunk _ nofun .nil
  | binary op lhs rhs =>
    .append_token ((refers_fragment lhs).bracketed _ _) (token_ne_dot op)
      ((refers_fragment rhs).bracketed _ _)
  | conj [] => .chunk _ nofun .nil
  | conj (term :: terms) => refers_separated .and nofun (refers_operands 2 (term :: terms))
  | disj [] => .chunk _ nofun .nil
  | disj (term :: terms) => refers_separated .or nofun (refers_operands 1 (term :: terms))
  | neg e => ((refers_fragment e).bracketed _ _).token .not
  | member _ [] negated => .chunk _ nofun .nil
  | member e (item :: items) negated => by
    have hlist : Fragment.Refers (listColumns (mapOwnersList g (item :: items)))
        (.separated .comma ((item.mapOwners g).fragment :: operands 0 (mapOwnersList g items))) :=
      refers_separated .comma nofun (.cons (refers_fragment item) (refers_operands 0 items))
    have he := (refers_fragment e).bracketed 5 (e.mapOwners g).precedence
    cases negated with
    | false =>
      rw [mapOwners, fragment, if_neg Bool.false_ne_true, List.append_nil]
      exact he.append_token nofun hlist.parens
    | true =>
      rw [mapOwners, fragment, if_pos rfl, List.append_assoc]
      exact he.append_token nofun (hlist.parens.token .in_)
  | call name arguments =>
    .chunk _ nofun (refers_separated .comma nofun (refers_operands 0 arguments)).parens
  | countAll => .chunk _ nofun (Fragment.Refers.nil.token .star).parens
  | countDistinct e => .chunk _ nofun ((refers_fragment e).token .distinct).parens

theorem refers_operands (min : Nat) : ∀ es : List (Expr ρ),
    List.Forall₂ Fragment.Refers ((mapOwnersList g es).map (·.columns))
      (operands min (mapOwnersList g es))
  | [] => .nil
  | e :: rest => .cons ((refers_fragment e).bracketed _ _) (refers_operands min rest)

end

end

end Expr

/-- The words of a direction have no columns. -/
theorem Direction.refers_append {d : Direction} (h : Fragment.Refers cs f) :
    Fragment.Refers cs (f ++ d.fragment) := by
  have hwords : Fragment.Refers [] d.fragment := by
    cases d with
    | unspecified => exact .nil
    | asc | desc => exact Fragment.Refers.nil.token _
    | ascNullsLast | descNullsFirst => exact (Fragment.Refers.nil.token _).token _
  have hboth := h.append hwords (by cases d <;> nofun)
  rwa [List.append_nil] at hboth

end SqlTree
