import SqlTree.Expr.Order
import SqlTree.Proofs.Expr.Owners
import SqlTree.Statement.Basic

/-!
# Names added in front of columns

Writing an expression twice, once with fewer names in front of its columns, gives the same text but
for these names.

* `Fragment.Prefixed P f g`: the fragment `g` is `f` with names added, and `P` says whether there is
  one. Nothing else changes; a name more makes the text longer (`Fragment.Prefixed.text_lt`).
* `Expr.withOwners_prefixed`: an expression is written so when its columns are. The same is said of
  selected items, of terms of orders and of lists of them.
-/

namespace SqlTree

/-! ## Fragments -/

/-- The second fragment is the first one with names added, each with a dot behind it and in front of
a chunk that takes the same space; `P` is that there is one. -/
inductive Fragment.Prefixed : Prop → Fragment → Fragment → Prop
  | nil : Prefixed False [] []
  | keep {P : Prop} {f g : Fragment} (c : Chunk) : Prefixed P f g → Prefixed P (c :: f) (c :: g)
  | name {P : Prop} {f g : Fragment} {c : Chunk} (owner : String) :
      (∀ b : Chunk, b.spaceBetween c = b.spaceBetween (.ident owner)) → Prefixed P f g →
        Prefixed True (c :: f) (.ident owner :: .token .dot :: c :: g)

/-- The fragments of the second list are those of the first one with names added; `P` is that there
is one. -/
inductive Fragment.PrefixedAll : Prop → List Fragment → List Fragment → Prop
  | nil : PrefixedAll False [] []
  | cons {P Q : Prop} {f g : Fragment} {fs gs : List Fragment} :
      Prefixed P f g → PrefixedAll Q fs gs → PrefixedAll (P ∨ Q) (f :: fs) (g :: gs)

theorem Chunk.spaceBetween_dot (c : Chunk) : Chunk.spaceBetween (.token .dot) c = false := by
  cases c with
  | token t => cases t <;> rfl
  | _ => rfl

namespace Fragment

variable {P Q : Prop} {f g f' g' : Fragment} {fs gs : List Fragment}

namespace Prefixed

theorem congr (h : Prefixed P f g) (hPQ : P ↔ Q) : Prefixed Q f g := by
  rwa [← propext hPQ]

theorem same (f : Fragment) : Prefixed False f f := by
  induction f with
  | nil => exact .nil
  | cons c _ ih => exact .keep c ih

theorem append (hf : Prefixed P f g) (hg : Prefixed Q f' g') :
    Prefixed (P ∨ Q) (f ++ f') (g ++ g') := by
  induction hf with
  | nil => rwa [false_or]
  | keep c _ ih => exact .keep c ih
  | name owner hc _ ih =>
    rw [true_or]
    exact .name owner hc ih

theorem append_same (hf : Prefixed P f g) (f' : Fragment) : Prefixed P (f ++ f') (g ++ f') :=
  (hf.append (same f')).congr (iff_of_eq (or_false P))

theorem parens (h : Prefixed P f g) : Prefixed P f.parens g.parens :=
  .keep _ (h.append_same _)

theorem bracketed (h : Prefixed P f g) (min precedence : Nat) :
    Prefixed P (Expr.bracketed min precedence f) (Expr.bracketed min precedence g) := by
  rw [Expr.bracketed, Expr.bracketed]
  split
  · exact h.parens
  · exact h

theorem namedIf (h : Prefixed P f g) (name? : Option String) :
    Prefixed P (f.namedIf name?) (g.namedIf name?) := by
  cases name? with
  | none => exact h
  | some name => exact h.append_same _

theorem eq_of_not (h : Prefixed P f g) (hP : ¬ P) : f = g := by
  induction h with
  | nil => rfl
  | keep c _ ih => rw [ih hP]
  | name => exact absurd trivial hP

/-- Names bind no values. -/
theorem params_eq (h : Prefixed P f g) : f.params = g.params := by
  induction h with
  | nil => rfl
  | keep c _ ih => rw [params_cons, params_cons, ih]
  | name owner _ _ ih =>
    rw [params_cons, params_cons, params_cons, params_cons, ih]
    rfl

/-- Behind any chunk a name more makes the text longer. -/
theorem length_text_cons (h : Prefixed P f g) (b : Chunk) :
    (text (b :: f)).length ≤ (text (b :: g)).length ∧
      (P → (text (b :: f)).length < (text (b :: g)).length) := by
  induction h generalizing b with
  | nil => exact ⟨Nat.le_refl _, False.elim⟩
  | keep c _ ih =>
    obtain ⟨hle, hlt⟩ := ih c
    simp only [text, String.length_append]
    exact ⟨by omega, fun hP => by have := hlt hP; omega⟩
  | @name _ f g c owner hc _ ih =>
    have hle := (ih c).1
    have hlt : (text (b :: c :: f)).length <
        (text (b :: .ident owner :: .token .dot :: c :: g)).length := by
      simp only [text, String.length_append, hc b, Chunk.spaceBetween_dot]
      have hdot : (Chunk.text (.token .dot)).length = 1 := rfl
      omega
    exact ⟨Nat.le_of_lt hlt, fun _ => hlt⟩

/-- **A name more makes the text longer.** -/
theorem text_lt (h : Prefixed P f g) (hP : P) : f.text.length < g.text.length := by
  cases h with
  | nil => exact hP.elim
  | keep c h => exact (h.length_text_cons c).2 hP
  | @name _ f g c owner _ h =>
    have hle := (h.length_text_cons c).1
    have hdot : (Chunk.text (.token .dot)).length = 1 := rfl
    simp only [text, String.length_append]
    omega

end Prefixed

namespace PrefixedAll

theorem congr (h : PrefixedAll P fs gs) (hPQ : P ↔ Q) : PrefixedAll Q fs gs := by
  rwa [← propext hPQ]

theorem length_eq (h : PrefixedAll P fs gs) : gs.length = fs.length := by
  induction h with
  | nil => rfl
  | cons _ _ ih => rw [List.length_cons, List.length_cons, ih]

theorem separated (t : Token) (h : PrefixedAll P fs gs) :
    Prefixed P (Fragment.separated t fs) (Fragment.separated t gs) := by
  induction h with
  | nil => exact .nil
  | @cons P Q f g fs gs hf hrest ih =>
    cases hrest with
    | nil =>
      rw [Fragment.separated, Fragment.separated, List.intercalate_singleton,
        List.intercalate_singleton]
      exact hf.congr (iff_of_eq (or_false P)).symm
    | cons hf' hrest =>
      rw [Fragment.separated, Fragment.separated, List.intercalate_cons_cons,
        List.intercalate_cons_cons, List.append_assoc, List.append_assoc]
      exact hf.append (.keep _ ih)

theorem listClause (t : Token) (h : PrefixedAll P fs gs) :
    Prefixed P (SqlTree.listClause t fs) (SqlTree.listClause t gs) := by
  cases h with
  | nil => exact .nil
  | cons hf hrest => exact .keep _ ((PrefixedAll.cons hf hrest).separated .comma)

end PrefixedAll

end Fragment

/-! ## Names of occurrences -/

/-- What is written in front of a column, first without a name and then with one if `P` holds, and
the same in both cases if it doesn't. -/
inductive OwnerAdded (P : Prop) : Option String → Option String → Prop
  | same (x : Option String) : ¬ P → OwnerAdded P x x
  | added (owner : String) : P → OwnerAdded P none (some owner)

namespace OwnerAdded

variable {P : Prop} {x x' : Option String}

/-- A chunk that takes the same space as a name, written behind what stands in front of it. -/
theorem prefixed (h : OwnerAdded P x x') {c : Chunk} {m : Option String → Fragment}
    (hc : ∀ (b : Chunk) (owner : String), b.spaceBetween c = b.spaceBetween (.ident owner))
    (hnone : m none = [c]) (hsome : ∀ owner, m (some owner) = [.ident owner, .token .dot, c]) :
    Fragment.Prefixed P (m x) (m x') := by
  cases h with
  | same x hP => exact (Fragment.Prefixed.same _).congr (iff_of_false not_false hP)
  | added owner hP =>
    rw [hnone, hsome]
    exact .congr (.name owner (hc · owner) .nil) (iff_of_true trivial hP)

theorem column (h : OwnerAdded P x x') (name : String) :
    Fragment.Prefixed P (Expr.columnFragment name x) (Expr.columnFragment name x') := by
  refine h.prefixed (fun b owner => ?_) rfl fun _ => rfl
  cases b with
  | token t => cases t <;> rfl
  | _ => rfl

theorem star (h : OwnerAdded P x x') : Fragment.Prefixed P (starFragment x) (starFragment x') := by
  refine h.prefixed (fun b owner => ?_) rfl fun _ => rfl
  cases b with
  | token t => cases t <;> rfl
  | _ => rfl

end OwnerAdded

/-! ## Expressions -/

section

variable {ρ ε : Type} {r r' : Option ρ → Except ε (Option String)} {B : Option ρ → Prop}

theorem exists_mem_append_iff {α : Type} {P : α → Prop} {as bs : List α} :
    (∃ a ∈ as ++ bs, P a) ↔ (∃ a ∈ as, P a) ∨ ∃ a ∈ bs, P a := by
  simp only [List.mem_append, or_and_right, exists_or]

/-- An expression that is written twice, the second time with names added. -/
structure Expr.WrittenWith (P : Prop) (e e' : Expr String) : Prop where
  precedence : e'.precedence = e.precedence
  fragment : Fragment.Prefixed P e.fragment e'.fragment

/-- Expressions that are written twice, as operands of an operator or not, the second time with
names added. -/
def Expr.ListWrittenWith (P : Prop) (es es' : List (Expr String)) : Prop :=
  ∀ min, Fragment.PrefixedAll P (operands min es) (operands min es')

namespace Expr

theorem WrittenWith.bracketed {P : Prop} {e e' : Expr String} (h : WrittenWith P e e')
    (min : Nat) : Fragment.Prefixed P (Expr.bracketed min e.precedence e.fragment)
      (Expr.bracketed min e'.precedence e'.fragment) := by
  rw [h.precedence]
  exact h.fragment.bracketed min e.precedence

/-- A junction is written without operands, or with its operands between its tokens. -/
theorem ListWrittenWith.junction {P : Prop} {es es' : List (Expr String)} {t : Token} {min : Nat}
    {m : List (Expr String) → Fragment} (h : ListWrittenWith P es es')
    (hm : ∀ e es, m (e :: es) = .separated t (operands min (e :: es))) :
    Fragment.Prefixed P (m es) (m es') := by
  have hall := h min
  cases es with
  | nil =>
    cases es' with
    | nil =>
      cases hall
      exact .same _
    | cons e' es' => cases hall
  | cons e es =>
    cases es' with
    | nil => cases hall
    | cons e' es' =>
      rw [hm, hm]
      exact hall.separated t

mutual

/-- **Where names are added in front of columns, expressions are written with these names.** -/
theorem withOwners_prefixed (h : ∀ o, FailsAlike (OwnerAdded (B o)) (r o) (r' o)) :
    ∀ e : Expr ρ, FailsAlike (WrittenWith (∃ o ∈ e.owners, B o)) (e.withOwners r) (e.withOwners r')
  | column name owner? => by
    refine (h owner?).map fun x x' hx => ⟨rfl, (hx.column name).congr ?_⟩
    simp [owners]
  | value v => .results ⟨rfl, (Fragment.Prefixed.same _).congr (by simp [owners])⟩
  | verbatim text arguments =>
    .results ⟨rfl, (Fragment.Prefixed.same _).congr (by simp [owners])⟩
  | binary op lhs rhs => by
    refine (withOwners_prefixed h lhs).bind fun l l' hl =>
      (withOwners_prefixed h rhs).map fun r r' hr => ⟨rfl, ?_⟩
    rw [owners, exists_mem_append_iff]
    exact (hl.bracketed _).append (.keep _ (hr.bracketed _))
  | conj terms => (withOwnersList_prefixed h terms).map fun _ _ hts =>
    ⟨rfl, hts.junction (m := fun ts => (conj ts).fragment) fun _ _ => rfl⟩
  | disj terms => (withOwnersList_prefixed h terms).map fun _ _ hts =>
    ⟨rfl, hts.junction (m := fun ts => (disj ts).fragment) fun _ _ => rfl⟩
  | neg e => by
    refine (withOwners_prefixed h e).map fun t t' ht => ⟨rfl, ?_⟩
    exact .keep _ (ht.bracketed 4)
  | member e [] negated => .results ⟨rfl, (Fragment.Prefixed.same _).congr (by simp [owners])⟩
  | member e (item :: items) negated => by
    refine (withOwners_prefixed h e).bind fun t t' ht =>
      (withOwners_prefixed h item).bind fun i i' hi =>
        (withOwnersList_prefixed h items).map fun is is' his => ⟨rfl, ?_⟩
    rw [owners, exists_mem_append_iff, exists_mem_append_iff]
    have hlist := Fragment.PrefixedAll.separated .comma (.cons hi.fragment (his 0))
    exact ((ht.bracketed 5).append_same _).append (.keep _ hlist.parens)
  | call name arguments => by
    refine (withOwnersList_prefixed h arguments).map fun as as' has => ⟨rfl, ?_⟩
    exact .keep _ ((has 0).separated .comma).parens
  | countAll => .results ⟨rfl, (Fragment.Prefixed.same _).congr (by simp [owners])⟩
  | countDistinct e => by
    refine (withOwners_prefixed h e).map fun t t' ht => ⟨rfl, ?_⟩
    exact .keep _ (Fragment.Prefixed.parens (.keep _ ht.fragment))

theorem withOwnersList_prefixed (h : ∀ o, FailsAlike (OwnerAdded (B o)) (r o) (r' o)) :
    ∀ es : List (Expr ρ), FailsAlike (ListWrittenWith (∃ o ∈ listOwners es, B o))
      (withOwnersList r es) (withOwnersList r' es)
  | [] => .results fun min => Fragment.PrefixedAll.congr .nil (by simp [listOwners])
  | e :: rest => by
    refine (withOwners_prefixed h e).bind fun t t' ht =>
      (withOwnersList_prefixed h rest).map fun ts ts' hts min => ?_
    rw [listOwners, exists_mem_append_iff]
    exact .cons (ht.bracketed min) (hts min)

end

end Expr

theorem SelectItem.withOwners_prefixed (h : ∀ o, FailsAlike (OwnerAdded (B o)) (r o) (r' o))
    (i : SelectItem ρ) : FailsAlike
      (fun t t' => Fragment.Prefixed (∃ o ∈ i.owners, B o) t.fragment t'.fragment)
      (i.withOwners r) (i.withOwners r') := by
  cases i with
  | star owner? =>
    refine (h owner?).map fun x x' hx => hx.star.congr ?_
    simp [owners]
  | expr e name? =>
    exact (e.withOwners_prefixed h).map fun t t' ht => ht.fragment.namedIf name?

theorem SortTerm.withOwners_prefixed (h : ∀ o, FailsAlike (OwnerAdded (B o)) (r o) (r' o))
    (t : SortTerm ρ) : FailsAlike
      (fun u u' => Fragment.Prefixed (∃ o ∈ t.expr.owners, B o) u.fragment u'.fragment)
      (t.withOwners r) (t.withOwners r') :=
  (t.expr.withOwners_prefixed h).map fun _ _ he => he.fragment.append_same _

/-- A list is written with the names that its members are written with. -/
theorem Fragment.PrefixedAll.mapM {α β γ : Type} {P : α → Prop} {k : α → Except ε γ}
    {k' : β → Except ε γ} {m : γ → Fragment} {as : List α} {bs : List β}
    (h : List.Forall₂ (fun a b => FailsAlike (fun c c' => Prefixed (P a) (m c) (m c')) (k a) (k' b))
      as bs) :
    FailsAlike (fun cs cs' => PrefixedAll (∃ a ∈ as, P a) (cs.map m) (cs'.map m)) (as.mapM k)
      (bs.mapM k') := by
  induction h with
  | nil => exact .results (PrefixedAll.nil.congr (by simp))
  | cons hab _ ih =>
    rw [List.mapM_cons, List.mapM_cons]
    refine hab.bind fun c c' hc => ih.map fun cs cs' hcs => ?_
    exact (PrefixedAll.cons hc hcs).congr (by simp)

end

end SqlTree
