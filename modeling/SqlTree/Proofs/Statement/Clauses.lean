import SqlTree.Proofs.Statement.Written

/-!
# Clauses in the text of a statement

The text of a statement is made of the texts of its clauses. A clause begins with a keyword, and a
space stands in front of it, since no clause ends in an opening parenthesis or a dot.

* `Fragment.EndsClosed` is that a fragment does not end so. `Expr.fragment_endsClosed` and
  `SortTerm.fragment_endsClosed` say it of what clauses hold.
* `Fragment.text_append_clauses` is the text of a fragment with clauses behind it, each of which may
  be missing. `Select.text_fragment`: the text of every selection is that of its clauses.
* `RowClauses` are the clauses that tell which rows a statement is about.
  `Select.statement_of_flat` and `Delete.statement_eq` are statements in terms of these.
-/

namespace SqlTree

/-! ## Spaces -/

/-- A token with a space in front of it, whatever it stands behind. -/
def Token.IsWord (t : Token) : Prop := t ≠ .lparen ∧ t ≠ .rparen ∧ t ≠ .comma ∧ t ≠ .dot

instance (t : Token) : Decidable t.IsWord := inferInstanceAs (Decidable (_ ∧ _))

/-- A chunk that takes no space behind it, whatever comes. -/
def Chunk.IsOpening (c : Chunk) : Prop := c = .token .lparen ∨ c = .token .dot

/-- A space stands in front of all but some tokens. -/
theorem Chunk.spaceBetween_eq_true {c d : Chunk} (hc : ¬ c.IsOpening)
    (hd : ∀ t, d = .token t → t.IsWord) : c.spaceBetween d = true := by
  unfold spaceBetween
  split
  · exact absurd rfl (hd _ rfl).2.1
  · exact absurd rfl (hd _ rfl).2.2.1
  · exact absurd rfl (hd _ rfl).2.2.2
  · exact absurd (.inl rfl) hc
  · exact absurd (.inr rfl) hc
  · exact absurd rfl (hd _ rfl).1
  · rfl

theorem Chunk.spaceBetween_word {c : Chunk} {t : Token} (hc : ¬ c.IsOpening) (ht : t.IsWord) :
    c.spaceBetween (.token t) = true :=
  spaceBetween_eq_true hc fun _ h => Chunk.token.inj h ▸ ht

theorem Chunk.spaceBetween_ident {c : Chunk} (hc : ¬ c.IsOpening) (name : String) :
    c.spaceBetween (.ident name) = true :=
  spaceBetween_eq_true hc nofun

theorem Token.IsWord.not_isOpening {t : Token} (ht : t.IsWord) : ¬ (Chunk.token t).IsOpening := by
  rintro (h | h)
  · exact ht.1 (Chunk.token.inj h)
  · exact ht.2.2.2 (Chunk.token.inj h)

namespace Fragment

variable {f g : Fragment} {fs : List Fragment} {t : Token}

/-- The text of two fragments behind each other. -/
theorem text_append {c d : Chunk} (f g : Fragment) :
    text (f ++ c :: d :: g) =
      text (f ++ [c]) ++ (if c.spaceBetween d then " " else "") ++ text (d :: g) := by
  -- A space depends on two neighbours, so the chunk behind the first one is told apart as well.
  induction f with
  | nil => rfl
  | cons b f ih =>
    cases f with
    | nil =>
      simp only [List.cons_append, List.nil_append, text] at ih ⊢
      simp only [String.append_assoc]
    | cons b' f =>
      simp only [List.cons_append, text] at ih ⊢
      rw [ih]
      simp only [String.append_assoc]

/-- A fragment ends in a chunk that takes a space behind it. -/
def EndsClosed (f : Fragment) : Prop := ∃ init c, f = init ++ [c] ∧ ¬ c.IsOpening

/-- A word stands behind a space. -/
theorem text_append_word (hf : f.EndsClosed) (ht : t.IsWord) :
    text (f ++ .token t :: g) = f.text ++ " " ++ text (.token t :: g) := by
  obtain ⟨init, c, rfl, hc⟩ := hf
  rw [List.append_assoc, List.singleton_append, text_append, Chunk.spaceBetween_word hc ht,
    if_pos rfl]

theorem endsClosed_singleton {c : Chunk} (hc : ¬ c.IsOpening) : EndsClosed [c] := ⟨[], c, rfl, hc⟩

theorem endsClosed_word (ht : t.IsWord) : EndsClosed [.token t] :=
  endsClosed_singleton ht.not_isOpening

theorem EndsClosed.append (f : Fragment) (hg : g.EndsClosed) : (f ++ g).EndsClosed := by
  obtain ⟨init, c, rfl, hc⟩ := hg
  exact ⟨f ++ init, c, (List.append_assoc f init [c]).symm, hc⟩

theorem EndsClosed.cons (c : Chunk) (hg : g.EndsClosed) : EndsClosed (c :: g) := hg.append [c]

theorem endsClosed_parens (f : Fragment) : f.parens.EndsClosed :=
  .cons _ (.append f (endsClosed_singleton nofun))

theorem endsClosed_separated (t : Token) (hfs : ∀ f ∈ fs, f.EndsClosed) (hne : fs ≠ []) :
    (separated t fs).EndsClosed := by
  induction fs with
  | nil => exact absurd rfl hne
  | cons f rest ih =>
    obtain ⟨hf, hrest⟩ := List.forall_mem_cons.1 hfs
    cases rest with
    | nil =>
      rw [separated, List.intercalate_singleton]
      exact hf
    | cons g rest =>
      rw [separated, List.intercalate_cons_cons]
      exact .append _ (ih hrest (List.cons_ne_nil g rest))

end Fragment

/-! ## Ends of what clauses hold -/

namespace Expr

theorem columnFragment_endsClosed (name : String) (owner? : Option String) :
    (columnFragment name owner?).EndsClosed := by
  have hname : Fragment.EndsClosed [.ident name] := Fragment.endsClosed_singleton nofun
  cases owner? with
  | none => exact hname
  | some owner => exact (hname.cons _).cons _

theorem bracketed_endsClosed {f : Fragment} (hf : f.EndsClosed) (min precedence : Nat) :
    (bracketed min precedence f).EndsClosed := by
  rw [bracketed]
  split
  · exact Fragment.endsClosed_parens f
  · exact hf

mutual

/-- **The written form of an expression ends closed.** -/
theorem fragment_endsClosed : ∀ e : Expr String, e.fragment.EndsClosed
  -- What is written last decides, so that left operands and arguments do not matter.
  | column name owner? => columnFragment_endsClosed name owner?
  | value v => by cases v <;> exact Fragment.endsClosed_singleton nofun
  | verbatim text arguments => Fragment.endsClosed_singleton nofun
  | binary op lhs rhs =>
    .append _ (.cons _ (bracketed_endsClosed (fragment_endsClosed rhs) _ _))
  | conj [] => Fragment.endsClosed_singleton nofun
  | conj (term :: terms) =>
    Fragment.endsClosed_separated .and (operands_endsClosed 2 (term :: terms))
      (List.cons_ne_nil _ _)
  | disj [] => Fragment.endsClosed_singleton nofun
  | disj (term :: terms) =>
    Fragment.endsClosed_separated .or (operands_endsClosed 1 (term :: terms))
      (List.cons_ne_nil _ _)
  | neg e => .cons _ (bracketed_endsClosed (fragment_endsClosed e) _ _)
  | member e [] negated => Fragment.endsClosed_singleton nofun
  | member e (item :: items) negated => .append _ (.cons _ (Fragment.endsClosed_parens _))
  | call name arguments => .cons _ (Fragment.endsClosed_parens _)
  | countAll => .cons _ (Fragment.endsClosed_parens _)
  | countDistinct e => .cons _ (Fragment.endsClosed_parens _)

theorem operands_endsClosed (min : Nat) : ∀ es : List (Expr String),
    ∀ f ∈ operands min es, f.EndsClosed
  | [] => nofun
  | e :: rest => List.forall_mem_cons.2
    ⟨bracketed_endsClosed (fragment_endsClosed e) _ _, operands_endsClosed min rest⟩

end

end Expr

theorem Fragment.namedIf_endsClosed {f : Fragment} (hf : f.EndsClosed) (name? : Option String) :
    (f.namedIf name?).EndsClosed := by
  cases name? with
  | none => exact hf
  | some name => exact .append f (.cons _ (endsClosed_singleton nofun))

theorem SelectItem.fragment_endsClosed (i : SelectItem String) : i.fragment.EndsClosed := by
  cases i with
  | star owner? =>
    have hstar : Fragment.EndsClosed [.token .star] := Fragment.endsClosed_singleton nofun
    cases owner? with
    | none => exact hstar
    | some owner => exact (hstar.cons _).cons _
  | expr e name? => exact Fragment.namedIf_endsClosed e.fragment_endsClosed name?

theorem SortTerm.fragment_endsClosed (t : SortTerm String) : t.fragment.EndsClosed := by
  obtain ⟨e, direction⟩ := t
  have he := e.fragment_endsClosed
  cases direction with
  | unspecified =>
    rw [fragment, Direction.fragment, List.append_nil]
    exact he
  | asc | desc => exact .append _ (Fragment.endsClosed_word (by decide))
  | ascNullsLast | descNullsFirst =>
    exact .append _ (.cons _ (Fragment.endsClosed_word (by decide)))

/-! ## Clauses -/

namespace Fragment

/-- A fragment is that of a clause: it is empty, or begins with a word and ends closed. -/
def IsClause (f : Fragment) : Prop :=
  f = [] ∨ (∃ t rest, f = .token t :: rest ∧ t.IsWord) ∧ f.EndsClosed

/-- The text of a clause behind another one, with a space in front of it if there is one. -/
def clauseText (f : Fragment) : String := if f.isEmpty then "" else " " ++ f.text

@[simp] theorem clauseText_nil : clauseText [] = "" := rfl

variable {f g : Fragment}

theorem EndsClosed.append_clause (hf : f.EndsClosed) (hg : g.IsClause) : (f ++ g).EndsClosed := by
  rcases hg with rfl | ⟨-, hg⟩
  · rwa [List.append_nil]
  · exact .append f hg

/-- **A clause stands behind a space.** -/
theorem text_append_clause (hf : f.EndsClosed) (hg : g.IsClause) :
    (f ++ g).text = f.text ++ g.clauseText := by
  rcases hg with rfl | ⟨⟨t, rest, rfl, ht⟩, -⟩
  · rw [List.append_nil, clauseText_nil, String.append_empty]
  · rw [text_append_word hf ht, clauseText, List.isEmpty_cons, if_neg Bool.false_ne_true,
      String.append_assoc]

/-- Clauses stand one behind the other, each behind a space. -/
theorem text_append_clauses {gs : List Fragment} (hf : f.EndsClosed) (hgs : ∀ g ∈ gs, g.IsClause) :
    (f ++ gs.flatten).text = f.text ++ String.join (gs.map (·.clauseText)) := by
  induction gs generalizing f with
  | nil =>
    rw [List.flatten_nil, List.append_nil, List.map_nil, String.join_nil, String.append_empty]
  | cons g gs ih =>
    obtain ⟨hg, hgs⟩ := List.forall_mem_cons.1 hgs
    rw [List.flatten_cons, ← List.append_assoc, ih (hf.append_clause hg) hgs,
      text_append_clause hf hg, List.map_cons, String.join_cons, String.append_assoc]

/-- A name stands behind a word and a space, with the name that is given to it. -/
theorem text_word_named {t : Token} (ht : t.IsWord) (name : String) (name? : Option String) :
    text (.token t :: namedIf (.ident name) name?) =
      t.text ++ " " ++ text (namedIf (.ident name) name?) := by
  obtain ⟨rest, hrest⟩ : ∃ rest, namedIf (.ident name) name? = .ident name :: rest := by
    cases name? <;> exact ⟨_, rfl⟩
  rw [hrest, text, Chunk.spaceBetween_ident ht.not_isOpening, if_pos rfl]
  rfl

end Fragment

theorem conditionClause_isClause {t : Token} (ht : t.IsWord) (e? : Option (Expr String)) :
    (conditionClause t e?).IsClause := by
  cases e? with
  | none => exact .inl rfl
  | some e => exact .inr ⟨⟨t, _, rfl, ht⟩, e.fragment_endsClosed.cons _⟩

theorem listClause_isClause {t : Token} (ht : t.IsWord) {fs : List Fragment}
    (hfs : ∀ f ∈ fs, f.EndsClosed) : (listClause t fs).IsClause := by
  cases fs with
  | nil => exact .inl rfl
  | cons f rest =>
    refine .inr ⟨⟨t, _, rfl, ht⟩, .cons _ ?_⟩
    exact Fragment.endsClosed_separated .comma hfs (List.cons_ne_nil f rest)

theorem limitClause_isClause (limit? : Option Limit) : (limitClause limit?).IsClause := by
  rcases limit? with _ | ⟨count, _ | offset⟩
  · exact .inl rfl
  · exact .inr ⟨⟨.limit, _, rfl, by decide⟩, .cons _ (Fragment.endsClosed_singleton nofun)⟩
  · refine .inr ⟨⟨.limit, _, rfl, by decide⟩, .cons _ (.cons _ (.cons _ ?_))⟩
    exact Fragment.endsClosed_singleton nofun

/-! ## Selections by their clauses -/

/-- The clauses behind the items of a selection, one by one. A clause that is missing is empty. -/
def WrittenSelect.clauses (w : WrittenSelect) : List Fragment :=
  (.token .from_ :: w.source) :: w.joins.map (·.chunks) ++
    [.behindWord .where_ w.filter?, .listBehindWord .groupBy w.group,
      .behindWord .having w.having?, .listBehindWord .orderBy w.order, limitClause w.limit?]

theorem Fragment.named_endsClosed (name : String) (name? : Option String) :
    (namedIf (.ident name) name?).EndsClosed :=
  namedIf_endsClosed (endsClosed_singleton (c := .ident name) nofun) name?

theorem FromItem.fragment_endsClosed (item : FromItem) : item.fragment.EndsClosed := by
  cases item with
  | table name name? => exact Fragment.named_endsClosed name name?
  | select s name? => exact Fragment.namedIf_endsClosed (Fragment.endsClosed_parens _) name?

theorem JoinItem.chunks_isClause (j : JoinItem) : j.written.chunks.IsClause := by
  have hword : j.kind.token.IsWord := by cases j.kind <;> decide
  exact .inr ⟨⟨_, _, rfl, hword⟩, .append _ (.cons _ j.on.fragment_endsClosed)⟩

theorem Select.clauses_areClauses (t : Select) : ∀ f ∈ t.written.clauses, f.IsClause := by
  have hfrom : (Fragment.IsClause (.token .from_ :: t.source.fragment)) :=
    .inr ⟨⟨_, _, rfl, by decide⟩, t.source.fragment_endsClosed.cons _⟩
  have hgroup : ∀ f ∈ t.group.map (·.fragment), f.EndsClosed :=
    List.forall_mem_map.2 fun e _ => e.fragment_endsClosed
  have horder : ∀ f ∈ t.order.map (·.fragment), f.EndsClosed :=
    List.forall_mem_map.2 fun u _ => u.fragment_endsClosed
  simp only [WrittenSelect.clauses, written, ← conditionClause_eq, ← listClause_eq, List.map_map,
    List.forall_mem_append, List.forall_mem_cons, List.forall_mem_map]
  refine ⟨⟨hfrom, fun j _ => j.chunks_isClause⟩, conditionClause_isClause (by decide) _,
    listClause_isClause (by decide) hgroup, conditionClause_isClause (by decide) _,
    listClause_isClause (by decide) horder, limitClause_isClause _, ?_⟩
  simp

/-- The beginning of a selection, up to the items that it selects. -/
def Select.head (t : Select) : Fragment :=
  (if t.distinct then [.token .select, .token .distinct] else [.token .select]) ++
    Fragment.separated .comma (t.items.map (·.fragment))

theorem Select.head_endsClosed (t : Select) : t.head.EndsClosed := by
  have hwords : Fragment.EndsClosed
      (if t.distinct then [.token .select, .token .distinct] else [.token .select]) := by
    split
    · exact .cons _ (Fragment.endsClosed_word (by decide))
    · exact Fragment.endsClosed_word (by decide)
  rw [head]
  cases hitems : t.items with
  | nil =>
    rw [List.map_nil, Fragment.separated, List.intercalate_nil, List.append_nil]
    exact hwords
  | cons i rest =>
    refine .append _ (Fragment.endsClosed_separated .comma ?_ (List.cons_ne_nil _ _))
    exact List.forall_mem_map.2 fun i _ => i.fragment_endsClosed

theorem Select.fragment_eq_clauses (t : Select) :
    t.fragment = t.head ++ t.written.clauses.flatten := by
  rw [t.fragment_eq_chunks]
  obtain ⟨distinct, items, source, joins, filter?, group, having?, order, limit?⟩ := t
  cases distinct <;>
    simp [written, WrittenSelect.chunks, WrittenSelect.clauses, head, Fragment.separated,
      List.flatMap_def]

/-- **The text of a selection** is that of its clauses, each behind a space. -/
theorem Select.text_fragment (t : Select) :
    t.fragment.text = t.head.text ++ String.join (t.written.clauses.map (·.clauseText)) := by
  rw [t.fragment_eq_clauses, Fragment.text_append_clauses t.head_endsClosed t.clauses_areClauses]

/-! ## Clauses that tell rows -/

/-- The clauses of a statement that tell which rows it is about, as they are written: the source,
the filter, the order and the limit. A clause that is missing is empty. -/
structure RowClauses where
  source : Fragment
  filter : Fragment
  order : Fragment
  limit : Fragment

namespace RowClauses

/-- The clauses of a source, filter, order and limit. -/
def written (source : Fragment) (filter? : Option (Expr String)) (order : List (SortTerm String))
    (limit? : Option Limit) : RowClauses where
  source := source
  filter := conditionClause .where_ filter?
  order := listClause .orderBy (order.map (·.fragment))
  limit := limitClause limit?

/-- The clauses one behind the other. -/
def fragment (r : RowClauses) : Fragment := r.source ++ r.filter ++ r.order ++ r.limit

/-- The clauses without an order and a limit. -/
def unlimited (r : RowClauses) : RowClauses := { r with order := [], limit := [] }

/-- The text of the clauses. -/
def text (r : RowClauses) : String :=
  r.source.text ++ r.filter.clauseText ++ r.order.clauseText ++ r.limit.clauseText

/-- The values bound in the clauses. -/
def params (r : RowClauses) : List Value :=
  r.source.params ++ r.filter.params ++ r.order.params ++ r.limit.params

variable (r : RowClauses)

theorem params_fragment : r.fragment.params = r.params := by
  simp only [fragment, params, Fragment.params_append]

/-- The clauses behind the source. -/
theorem fragment_eq : r.fragment = r.source ++ [r.filter, r.order, r.limit].flatten := by
  simp [fragment]

theorem text_eq : r.text =
    r.source.text ++ String.join ([r.filter, r.order, r.limit].map (·.clauseText)) := by
  simp [text, String.append_assoc]

end RowClauses

/-- The clauses of a selection that tell its rows. -/
def Select.rowClauses (t : Select) : RowClauses :=
  .written t.source.fragment t.filter? t.order t.limit?

/-- The clauses of a deletion that tell its rows. -/
def Delete.rowClauses (d : Delete) : RowClauses :=
  .written (.namedIf (.ident d.table) d.name?) d.filter? d.order d.limit?

/-- **The text and the values of a selection from one table**, by its clauses. -/
theorem Select.statement_of_flat {t : Select} {name : String} {name? : Option String}
    (hsource : t.source = .table name name?) (hjoins : t.joins = []) (hgroup : t.group = [])
    (hhaving : t.having? = none) :
    t.fragment.statement =
      ⟨t.head.text ++ " FROM " ++ t.rowClauses.text, t.head.params ++ t.rowClauses.params⟩ := by
  have hclauses : t.written.clauses = [.token .from_ :: t.rowClauses.source, t.rowClauses.filter,
      [], [], t.rowClauses.order, t.rowClauses.limit] := by
    simp only [WrittenSelect.clauses, written, rowClauses, RowClauses.written, hjoins, hgroup,
      hhaving, conditionClause_eq, listClause_eq]
    rfl
  have hfrom : Fragment.clauseText (.token .from_ :: t.rowClauses.source) =
      " FROM " ++ t.rowClauses.source.text := by
    have hname := Fragment.text_word_named (t := .from_) (by decide) name name?
    rw [rowClauses, RowClauses.written, hsource, FromItem.fragment, Fragment.clauseText, hname]
    rfl
  have hparams : t.fragment.params = t.head.params ++ t.rowClauses.params := by
    rw [t.fragment_eq_clauses, hclauses, Fragment.params_append, ← RowClauses.params_fragment,
      RowClauses.fragment]
    simp [Chunk.values]
  rw [Fragment.statement, t.text_fragment, hparams, hclauses, RowClauses.text_eq]
  simp only [List.map_cons, String.join_cons, hfrom, Fragment.clauseText_nil, String.empty_append,
    String.append_assoc]

/-- **The text and the values of a deletion**, by its clauses. -/
theorem Delete.statement_eq (d : Delete) :
    d.fragment.statement = ⟨"DELETE FROM " ++ d.rowClauses.text, d.rowClauses.params⟩ := by
  have hclauses : ∀ f ∈ [d.rowClauses.filter, d.rowClauses.order, d.rowClauses.limit],
      f.IsClause := by
    have horder : ∀ f ∈ d.order.map (·.fragment), f.EndsClosed :=
      List.forall_mem_map.2 fun u _ => u.fragment_endsClosed
    simp only [List.forall_mem_cons]
    exact ⟨conditionClause_isClause (by decide) _, listClause_isClause (by decide) horder,
      limitClause_isClause _, by simp⟩
  have hfragment : d.fragment = .token .deleteFrom :: d.rowClauses.fragment := by
    simp only [fragment, rowClauses, RowClauses.fragment, RowClauses.written, List.cons_append]
  have hsource : d.rowClauses.source = .namedIf (.ident d.table) d.name? := rfl
  have htext := Fragment.text_append_clauses
    ((Fragment.named_endsClosed d.table d.name?).cons (.token .deleteFrom)) hclauses
  rw [Fragment.text_word_named (by decide), ← hsource, List.cons_append,
    ← RowClauses.fragment_eq, String.append_assoc, ← RowClauses.text_eq] at htext
  rw [Fragment.statement, hfragment, htext, Fragment.params_cons, RowClauses.params_fragment]
  rfl

end SqlTree
