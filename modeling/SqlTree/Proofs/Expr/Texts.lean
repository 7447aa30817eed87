import Mathlib.Data.List.Forall2
import SqlTree.Expr.Fragment

/-!
# Texts in written expressions

A text taken as it is may hold operators of any precedence. `Expr.texts` lists the texts of an
expression in the order in which they are written, each with whether it is an operand of an operator
of the expression, of a negation or of a junction; `Fragment.Spells` says that a fragment holds
texts, and that those that are operands are in parentheses of their own.

* `Expr.spells_fragment`: the written form of an expression spells its texts.
-/

namespace SqlTree

variable {ρ : Type}

/-- A text taken as it is, and whether an operator is applied to it. -/
structure WrittenText where
  text : String
  arguments : List Value
  isOperand : Bool

/-- A fragment holds these texts, in this order and no others, and has parentheses around each that
is an operand. -/
inductive Fragment.Spells : List WrittenText → Fragment → Prop where
  | nil : Spells [] []
  | chunk {ts : List WrittenText} {f : Fragment} (c : Chunk) :
    (∀ text arguments, c ≠ .verbatim text arguments) → Spells ts f → Spells ts (c :: f)
  | bare {ts : List WrittenText} {f : Fragment} (text : String) (arguments : List Value) :
    Spells ts f → Spells (⟨text, arguments, false⟩ :: ts) (.verbatim text arguments :: f)
  | enclosed {ts : List WrittenText} {f : Fragment} (text : String) (arguments : List Value) :
    Spells ts f → Spells (⟨text, arguments, true⟩ :: ts)
      (.token .lparen :: .verbatim text arguments :: .token .rparen :: f)

namespace Expr

mutual

/-- The texts of an expression that is an operand or is not. What a junction of no terms and
membership in no values are written as counts as text. -/
def texts (isOperand : Bool) : Expr ρ → List WrittenText
  | column _ _ => []
  | value _ => []
  | verbatim text arguments => [⟨text, arguments, isOperand⟩]
  | binary _ lhs rhs => lhs.texts true ++ rhs.texts true
  | conj [] => [⟨"1", [], false⟩]
  | conj (term :: terms) => term.texts true ++ listTexts true terms
  | disj [] => [⟨"0", [], false⟩]
  | disj (term :: terms) => term.texts true ++ listTexts true terms
  | neg e => e.texts true
  | member _ [] negated => [⟨if negated then "1" else "0", [], false⟩]
  | member e (item :: items) _ => e.texts true ++ (item.texts false ++ listTexts false items)
  | call _ arguments => listTexts false arguments
  | countAll => []
  | countDistinct e => e.texts false

/-- The texts of expressions that are operands or are not. -/
def listTexts (isOperand : Bool) : List (Expr ρ) → List WrittenText
  | [] => []
  | e :: rest => e.texts isOperand ++ listTexts isOperand rest

end

end Expr

namespace Fragment.Spells

variable {ts ts' : List WrittenText} {f g : Fragment}

theorem append (hf : Spells ts f) (hg : Spells ts' g) : Spells (ts ++ ts') (f ++ g) := by
  induction hf with
  | nil => exact hg
  | chunk c hc _ ih => exact .chunk c hc ih
  | bare text arguments _ ih => exact .bare text arguments ih
  | enclosed text arguments _ ih => exact .enclosed text arguments ih

theorem token (t : Token) (h : Spells ts f) : Spells ts (.token t :: f) := .chunk _ nofun h

theorem parens (h : Spells ts f) : Spells ts f.parens := by
  have hend := h.append (token .rparen .nil)
  rw [List.append_nil] at hend
  exact token .lparen hend

/-- Only separators stand between the separated fragments. -/
theorem separated (t : Token) {tss : List (List WrittenText)} {fs : List Fragment}
    (h : List.Forall₂ Spells tss fs) : Spells tss.flatten (Fragment.separated t fs) := by
  induction h with
  | nil => exact .nil
  | @cons ts f tss fs hf hrest ih =>
    cases hrest with
    | nil =>
      rw [List.flatten_singleton, Fragment.separated, List.intercalate_singleton]
      exact hf
    | @cons ts' g tss fs hg hrest =>
      rw [List.flatten_cons, Fragment.separated, List.intercalate_cons_cons, List.append_assoc]
      exact hf.append (token t ih)

end Fragment.Spells

namespace Expr

theorem spells_column (name : String) (owner? : Option String) :
    Fragment.Spells [] (columnFragment name owner?) := by
  cases owner? with
  | none => exact .chunk _ nofun .nil
  | some owner => exact .chunk _ nofun (.chunk _ nofun (.chunk _ nofun .nil))

theorem spells_value (v : Value) : Fragment.Spells [] (.value v) := by
  cases v <;> exact .chunk _ nofun .nil

/-- Text that is an operand binds looser than any place for operands allows, so that it is
parenthesised; any other expression spells the same texts in both kinds of places. -/
theorem spells_bracketed {e : Expr String} (h : Fragment.Spells (e.texts false) e.fragment)
    {min : Nat} (hmin : 0 < min) :
    Fragment.Spells (e.texts true) (bracketed min e.precedence e.fragment) := by
  have hall : Fragment.Spells (e.texts false) (bracketed min e.precedence e.fragment) := by
    rw [bracketed]
    split
    · exact h.parens
    · exact h
  cases e with
  | verbatim text arguments =>
    rw [precedence, bracketed, if_pos hmin]
    exact .enclosed text arguments .nil
  | conj terms => cases terms <;> exact hall
  | disj terms => cases terms <;> exact hall
  | member e list negated => cases list <;> exact hall
  | _ => exact hall

/-- The texts of each expression of a list. -/
theorem flatten_map_texts (isOperand : Bool) (es : List (Expr ρ)) :
    (es.map (·.texts isOperand)).flatten = listTexts isOperand es := by
  induction es with
  | nil => rfl
  | cons e es ih => rw [List.map_cons, List.flatten_cons, ih, listTexts]

mutual

/-- **The written form of an expression spells its texts**, those that are operands in
parentheses. -/
theorem spells_fragment : ∀ e : Expr String, Fragment.Spells (e.texts false) e.fragment
  | column name owner? => spells_column name owner?
  | value v => spells_value v
  | verbatim text arguments => .bare text arguments .nil
  | binary op lhs rhs =>
    (spells_bracketed (spells_fragment lhs) (by cases op <;> decide)).append
      (.token op.token (spells_bracketed (spells_fragment rhs) (Nat.succ_pos _)))
  | conj [] => .bare "1" [] .nil
  | conj (term :: terms) => by
    rw [texts, ← flatten_map_texts, fragment]
    exact .separated .and (.cons (spells_bracketed (spells_fragment term) (by decide))
      (spells_operands 2 (by decide) terms))
  | disj [] => .bare "0" [] .nil
  | disj (term :: terms) => by
    rw [texts, ← flatten_map_texts, fragment]
    exact .separated .or (.cons (spells_bracketed (spells_fragment term) (by decide))
      (spells_operands 1 (by decide) terms))
  | neg e => .token .not (spells_bracketed (spells_fragment e) (by decide))
  | member e [] negated => .bare (if negated then "1" else "0") [] .nil
  | member e (item :: items) negated => by
    have hsubject := spells_bracketed (spells_fragment e) (show 0 < 5 by decide)
    have hnot : Fragment.Spells [] (if negated then [.token .not] else []) := by
      cases negated
      · exact .nil
      · exact .token .not .nil
    have hlist := Fragment.Spells.separated .comma
      (.cons (spells_fragment item) (spells_arguments items))
    rw [List.flatten_cons, flatten_map_texts] at hlist
    have hall := (hsubject.append hnot).append (.token .in_ hlist.parens)
    rw [List.append_nil] at hall
    exact hall
  | call name arguments => by
    have hlist := Fragment.Spells.separated .comma (spells_arguments arguments)
    rw [flatten_map_texts] at hlist
    exact .chunk _ nofun hlist.parens
  | countAll => .chunk _ nofun (.token .lparen (.token .star (.token .rparen .nil)))
  | countDistinct e =>
    .chunk _ nofun (Fragment.Spells.parens (.token .distinct (spells_fragment e)))

theorem spells_operands (min : Nat) (hmin : 0 < min) : ∀ es : List (Expr String),
    List.Forall₂ Fragment.Spells (es.map (·.texts true)) (operands min es)
  | [] => .nil
  | e :: rest => .cons (spells_bracketed (spells_fragment e) hmin) (spells_operands min hmin rest)

theorem spells_arguments : ∀ es : List (Expr String),
    List.Forall₂ Fragment.Spells (es.map (·.texts false)) (operands 0 es)
  | [] => .nil
  | e :: rest => .cons (spells_fragment e) (spells_arguments rest)

end

end Expr

end SqlTree
