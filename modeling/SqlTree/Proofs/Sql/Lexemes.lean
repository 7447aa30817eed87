import SqlTree.Proofs.Sql.Lexer
import SqlTree.Proofs.Text.Lowercase
import SqlTree.Sql.Fragment
import Mathlib.Data.List.Chain

/-!
# The lexemes of fragments

A fragment is written with spaces between some chunks and none between others. Read by the lexical
rules of statements, its text falls into the lexemes of its chunks, one chunk behind the other:
nothing in a name ends the quotes around it, and no two chunks become one.

* `Chunk.lexemes` are the lexemes of a chunk.
* `Chunk.EndsBefore` says that a chunk ends before a character. `Chunk.endsBefore_next` is the step:
  with the space that stands between them, or without it, a chunk ends before the next one.
* `Fragment.lex_text`: the lexemes of a text are those of its chunks, and its placeholders are those
  of the bound values, in order.
-/

namespace SqlTree

open Lexeme

/-! ## Lexemes of chunks -/

/-- The lexemes of a token. -/
def Token.lexemes : Token → List Lexeme
  | groupBy => [.word "GROUP", .word "BY"]
  | orderBy => [.word "ORDER", .word "BY"]
  | deleteFrom => [.word "DELETE", .word "FROM"]
  | leftJoin => [.word "LEFT", .word "JOIN"]
  | nullsFirst => [.word "NULLS", .word "FIRST"]
  | nullsLast => [.word "NULLS", .word "LAST"]
  | isNot => [.word "IS", .word "NOT"]
  | eq => [.symbol "="]
  | ne => [.symbol "<>"]
  | lt => [.symbol "<"]
  | le => [.symbol "<="]
  | gt => [.symbol ">"]
  | ge => [.symbol ">="]
  | plus => [.symbol "+"]
  | minus => [.symbol "-"]
  | star => [.symbol "*"]
  | slash => [.symbol "/"]
  | concat => [.symbol "||"]
  | lparen => [.symbol "("]
  | rparen => [.symbol ")"]
  | comma => [.symbol ","]
  | dot => [.symbol "."]
  | t => [.word t.text]

/-- Whether a lexeme stands for a bound value. -/
def Lexeme.isPlaceholder : Lexeme → Bool
  | placeholder _ => true
  | _ => false

namespace Chunk

/-- The lexemes of a chunk. Text that is taken as it is may be anything. -/
def lexemes : Chunk → List Lexeme
  | token t => t.lexemes
  | ident name => [.quoted name]
  | number n => [.number (toString n)]
  | placeholder _ => [.placeholder ""]
  | function name => [.word name]
  | verbatim _ _ => []

/-- The chunk is no text that is taken as it is. A function has a plain name, any other name is
arbitrary, but for the character zero. -/
def IsPlain : Chunk → Prop
  | ident name => '\x00' ∉ name.toList
  | function name => isPlainWord name.toList
  | verbatim _ _ => False
  | _ => True

instance : DecidablePred IsPlain
  | ident name => inferInstanceAs (Decidable ('\x00' ∉ name.toList))
  | function name => inferInstanceAs (Decidable (isPlainWord name.toList = true))
  | verbatim _ _ => .isFalse id
  | token _ | number _ | placeholder _ => .isTrue trivial

def isNumber : Chunk → Bool
  | number _ => true
  | _ => false

/-- Of two neighbours none is a dot and the other one a number. -/
def NoFraction (c d : Chunk) : Prop :=
  ¬ (c = .token .dot ∧ d.isNumber) ∧ ¬ (c.isNumber ∧ d = .token .dot)

instance (c d : Chunk) : Decidable (NoFraction c d) :=
  inferInstanceAs (Decidable (¬ (c = .token .dot ∧ d.isNumber) ∧ ¬ (c.isNumber ∧ d = .token .dot)))

/-- The characters that may stand right behind a chunk, unless it is an opening parenthesis or a
dot. Behind most chunks a dot may stand as well. -/
def closing : List Char := [' ', ')', ',', '(']

theorem forall_mem_closing {p : Char → Prop} :
    (∀ a ∈ closing, p a) ↔ p ' ' ∧ p ')' ∧ p ',' ∧ p '(' := by
  simp [closing]

/-- What was written of a chunk ends where the character stands behind it. -/
def EndsBefore : Chunk → Char → Prop
  | token .lparen, _ => True
  | token .dot, a => a.isDigit = false
  | number _, a => a ∈ closing
  | _, a => a ∈ '.' :: closing

end Chunk

/-! ## Reading a chunk -/

section

variable {rest : List Char}

theorem Token.reads {t : Token} (hrest : ∀ a ∈ rest.head?, (Chunk.token t).EndsBefore a) :
    Reads (t.text.toList ++ rest) t.lexemes rest := by
  have hword : ∀ {text : String}, isPlainWord text.toList →
      (∀ a ∈ rest.head?, a ∈ '.' :: Chunk.closing) →
        Reads (text.toList ++ rest) [.word text] rest := by
    intro text htext hrest
    have hclosing : ∀ a ∈ '.' :: Chunk.closing, isWordChar a = false :=
      List.forall_mem_cons.2 ⟨rfl, Chunk.forall_mem_closing.2 (by decide)⟩
    exact reads_word htext fun a ha => hclosing a (hrest a ha)
  have hwords : ∀ {text first second : String}, text.toList = first.toList ++ ' ' :: second.toList →
      isPlainWord first.toList → isPlainWord second.toList →
      (∀ a ∈ rest.head?, a ∈ '.' :: Chunk.closing) →
        Reads (text.toList ++ rest) [.word first, .word second] rest := by
    intro text first second htext hfirst hsecond hrest
    rw [htext, List.append_assoc, List.cons_append]
    refine (reads_word hfirst ?_).trans ((reads_blank _).trans (hword hsecond hrest))
    rintro a ⟨⟩
    rfl
  have hsymbol : ∀ {text : String}, text.toList ∈ marks.drop 2 →
      (∀ a ∈ '.' :: Chunk.closing, goesOn text.toList a = false) →
      (∀ a ∈ rest.head?, a ∈ '.' :: Chunk.closing) →
        Reads (text.toList ++ rest) [.symbol text] rest :=
    fun hmark hclosing hrest => reads_symbol hmark fun a ha => hclosing a (hrest a ha)
  cases t with
  | groupBy | orderBy | deleteFrom | leftJoin | nullsFirst | nullsLast | isNot =>
    exact hwords (by decide) (by decide) (by decide) hrest
  | eq | ne | lt | le | gt | ge | plus | minus | star | slash | concat | rparen | comma =>
    exact hsymbol (by decide)
      (List.forall_mem_cons.2 ⟨by decide, Chunk.forall_mem_closing.2 (by decide)⟩) hrest
  | lparen => exact reads_symbol (by decide) fun _ _ => rfl
  | dot => exact reads_symbol (by decide) fun a ha => hrest a ha
  | _ => exact hword (by decide) hrest

/-- **A chunk is read as its lexemes** where it ends before what stands behind. -/
theorem Chunk.reads {c : Chunk} (hc : c.IsPlain) (hrest : ∀ a ∈ rest.head?, c.EndsBefore a) :
    Reads (c.text.toList ++ rest) c.lexemes rest := by
  cases c with
  | token t => exact Token.reads hrest
  | ident name =>
    have hquote : '\x22' ∉ '.' :: closing := by decide
    have hname : (quotedName name).toList =
        '\x22' :: Value.doubled '\x22' name.toList ++ ['\x22'] := by
      simp only [quotedName, String.toList_append, String.toList_ofList]
      rfl
    have hreads := reads_quoted hc fun h => hquote (hrest '\x22' h)
    rw [String.ofList_toList] at hreads
    rw [text, hname, List.append_assoc]
    exact hreads
  | number n =>
    have hclosing : ∀ a ∈ closing, isWordChar a = false ∧ a ≠ '.' :=
      forall_mem_closing.2 (by decide)
    have hne : toString n ≠ "" := by
      rw [Nat.toString_eq_repr, ne_eq, ← String.toList_eq_nil_iff, Nat.toList_repr]
      exact Nat.toDigits_ne_nil
    exact reads_number hne (fun a ha => Text.isDigit_of_mem_toString ha) fun a ha =>
      hclosing a (hrest a ha)
  | placeholder v =>
    have hclosing : ∀ a ∈ '.' :: closing, a.isDigit = false :=
      List.forall_mem_cons.2 ⟨rfl, forall_mem_closing.2 (by decide)⟩
    have hreads := reads_placeholder fun a ha => hclosing a (hrest a ha)
    rw [text]
    exact hreads
  | function name =>
    have hclosing : ∀ a ∈ '.' :: closing, isWordChar a = false :=
      List.forall_mem_cons.2 ⟨rfl, forall_mem_closing.2 (by decide)⟩
    exact reads_word hc fun a ha => hclosing a (hrest a ha)
  | verbatim text arguments => cases hc

end

/-! ## Placeholders of chunks -/

namespace Chunk

variable {c : Chunk}

theorem countP_lexemes (hc : c.IsPlain) :
    c.lexemes.countP (·.isPlaceholder) = c.values.length := by
  cases c with
  | token t => cases t <;> rfl
  | verbatim text arguments => cases hc
  | _ => rfl

/-- Only a placeholder stands for a value. -/
theorem eq_placeholder {i : Nat} {digits : String}
    (h : c.lexemes[i]? = some (.placeholder digits)) : i = 0 ∧ ∃ v, c = .placeholder v := by
  have hmem := List.mem_of_getElem? h
  cases c with
  | token t =>
    have hnone : ∀ l ∈ t.lexemes, l.isPlaceholder = false := by cases t <;> decide
    cases hnone _ hmem
  | placeholder v =>
    have hlt := List.getElem?_eq_some_iff.1 h
    exact ⟨Nat.lt_one_iff.1 hlt.1, v, rfl⟩
  | verbatim text arguments => cases h
  | _ => cases List.mem_singleton.1 hmem

end Chunk

/-! ## Reading a fragment -/

namespace Chunk

variable {c d : Chunk}

theorem endsBefore_of_mem {a : Char} (ha : a ∈ closing) : c.EndsBefore a := by
  have hdigit : ∀ a ∈ closing, a.isDigit = false := forall_mem_closing.2 (by decide)
  unfold EndsBefore
  split
  · trivial
  · exact hdigit a ha
  · exact ha
  · exact List.mem_cons_of_mem _ ha

/-- Only a number begins with a digit. -/
theorem isDigit_head_text (hd : d.IsPlain) (hnumber : d.isNumber = false) :
    ∃ a cs, d.text.toList = a :: cs ∧ a.isDigit = false := by
  cases d with
  | token t => cases t <;> exact ⟨_, _, rfl, rfl⟩
  | ident name =>
    refine ⟨'\x22', Value.doubled '\x22' name.toList ++ ['\x22'], ?_, rfl⟩
    simp only [text, quotedName, String.toList_append, String.toList_ofList]
    rfl
  | number n => cases hnumber
  | placeholder v =>
    rw [text]
    exact ⟨'?', [], rfl, rfl⟩
  | function name =>
    have hname : isPlainWord name.toList := hd
    rw [text]
    cases hcs : name.toList with
    | nil =>
      rw [hcs] at hname
      cases hname
    | cons a cs => exact ⟨a, cs, rfl, isDigit_head_of_isPlainWord (hcs ▸ hname)⟩
  | verbatim text arguments => cases hd

/-- **A chunk ends before the next one**, with the space that stands between them or without it. -/
theorem endsBefore_next (hd : d.IsPlain) (hcd : c.NoFraction d) (more : List Char) :
    ∀ a ∈ ((if c.spaceBetween d then [' '] else []) ++ (d.text.toList ++ more)).head?,
      c.EndsBefore a := by
  intro a ha
  unfold spaceBetween at ha
  split at ha
  · obtain rfl := Option.some.inj ha
    exact endsBefore_of_mem (by decide)
  · obtain rfl := Option.some.inj ha
    exact endsBefore_of_mem (by decide)
  · obtain rfl := Option.some.inj ha
    unfold EndsBefore
    split
    · trivial
    · rfl
    · exact absurd ⟨rfl, rfl⟩ hcd.2
    · exact List.mem_cons_self
  · trivial
  · have hnumber : d.isNumber = false := Bool.eq_false_iff.2 fun h => hcd.1 ⟨rfl, h⟩
    obtain ⟨b, cs, htext, hdigit⟩ := isDigit_head_text hd hnumber
    rw [htext] at ha
    obtain rfl := Option.some.inj ha
    exact hdigit
  · obtain rfl := Option.some.inj ha
    exact endsBefore_of_mem (by decide)
  · obtain rfl := Option.some.inj ha
    exact endsBefore_of_mem (by decide)

end Chunk

namespace Fragment

/-- The lexemes of a fragment. -/
def lexemes (f : Fragment) : List Lexeme := f.flatMap Chunk.lexemes

theorem toList_text_cons_cons (c d : Chunk) (f : Fragment) :
    (text (c :: d :: f)).toList =
      c.text.toList ++ ((if c.spaceBetween d then [' '] else []) ++ (text (d :: f)).toList) := by
  rw [text, String.toList_append, String.toList_append, List.append_assoc]
  split <;> rfl

/-- A text begins with that of its first chunk. -/
theorem exists_toList_text_cons (d : Chunk) (f : Fragment) :
    ∃ more, (text (d :: f)).toList = d.text.toList ++ more := by
  cases f with
  | nil => exact ⟨[], (List.append_nil _).symm⟩
  | cons e f => exact ⟨_, toList_text_cons_cons d e f⟩

/-- **A fragment is read as its lexemes.** -/
theorem reads : ∀ {f : Fragment}, (∀ c ∈ f, c.IsPlain) → f.IsChain Chunk.NoFraction →
    Reads f.text.toList f.lexemes []
  | [], _, _ => reads_nil []
  | [c], hplain, _ => by
    have hc : Reads (c.text.toList ++ []) c.lexemes [] :=
      Chunk.reads (hplain c List.mem_cons_self) nofun
    rw [List.append_nil] at hc
    rw [lexemes, List.flatMap_singleton]
    exact hc
  | c :: d :: f, hplain, hchain => by
    obtain ⟨hc, hplain⟩ := List.forall_mem_cons.1 hplain
    obtain ⟨hcd, hchain⟩ := List.isChain_cons_cons.1 hchain
    have hspace : Reads ((if c.spaceBetween d then [' '] else []) ++ (text (d :: f)).toList) []
        (text (d :: f)).toList := by
      split
      · exact reads_blank _
      · exact reads_nil _
    obtain ⟨more, hmore⟩ := exists_toList_text_cons d f
    rw [toList_text_cons_cons]
    refine (Chunk.reads hc ?_).trans (hspace.trans (reads hplain hchain))
    rw [hmore]
    exact Chunk.endsBefore_next (hplain d List.mem_cons_self) hcd more

/-! ## Placeholders -/

/-- Each bound value has its placeholder. -/
theorem countP_lexemes {f : Fragment} (hplain : ∀ c ∈ f, c.IsPlain) :
    f.lexemes.countP (·.isPlaceholder) = f.params.length := by
  induction f with
  | nil => rfl
  | cons c f ih =>
    obtain ⟨hc, hplain⟩ := List.forall_mem_cons.1 hplain
    have ih := ih hplain
    rw [lexemes] at ih ⊢
    rw [List.flatMap_cons, List.countP_append, Chunk.countP_lexemes hc, ih, params_cons,
      List.length_append]

/-- A lexeme of a fragment is one of a chunk. -/
theorem exists_chunk {l : Lexeme} : ∀ {f : Fragment} {k : Nat}, f.lexemes[k]? = some l →
    ∃ before c behind i, f = before ++ c :: behind ∧ k = (lexemes before).length + i ∧
      c.lexemes[i]? = some l
  | [], k, h => by cases h
  | c :: f, k, h => by
    rw [lexemes, List.flatMap_cons] at h
    by_cases hk : k < c.lexemes.length
    · rw [List.getElem?_append_left hk] at h
      exact ⟨[], c, f, k, rfl, (Nat.zero_add k).symm, h⟩
    · rw [List.getElem?_append_right (Nat.le_of_not_lt hk)] at h
      obtain ⟨before, d, behind, i, rfl, hi, hl⟩ := exists_chunk h
      refine ⟨c :: before, d, behind, i, rfl, ?_, hl⟩
      rw [lexemes, List.flatMap_cons, List.length_append]
      rw [lexemes] at hi
      omega

/-- **The lexemes of a text are those of its chunks.** A text of tokens, quoted names, numbers,
placeholders and functions with plain names, in which no dot stands next to a number, falls into the
lexemes of its chunks in order, whatever the names are. It has a placeholder for each bound value,
and its placeholders are those of the bound values in order. -/
theorem lex_text {f : Fragment} (hplain : ∀ c ∈ f, c.IsPlain)
    (hchain : f.IsChain Chunk.NoFraction) :
    lex f.text.toList = some f.lexemes ∧
      f.lexemes.countP (·.isPlaceholder) = f.params.length ∧
      ∀ k digits, f.lexemes[k]? = some (.placeholder digits) →
        ∃ before v behind, f = before ++ .placeholder v :: behind ∧ (lexemes before).length = k ∧
          f.params[(f.lexemes.take k).countP (·.isPlaceholder)]? = some v := by
  refine ⟨(reads hplain hchain).lex_eq, countP_lexemes hplain, fun k digits h => ?_⟩
  obtain ⟨before, c, behind, i, rfl, hk, hl⟩ := exists_chunk h
  obtain ⟨rfl, v, rfl⟩ := Chunk.eq_placeholder hl
  refine ⟨before, v, behind, rfl, hk.symm, ?_⟩
  have hbefore := countP_lexemes fun c hc => hplain c (List.mem_append_left _ hc)
  have htake : (lexemes (before ++ .placeholder v :: behind)).take k = lexemes before := by
    have happend : lexemes (before ++ .placeholder v :: behind) =
        lexemes before ++ lexemes (.placeholder v :: behind) := List.flatMap_append
    rw [hk, happend]
    exact List.take_left
  rw [htake, hbefore, params_append, params_cons, List.getElem?_append_right (Nat.le_refl _),
    Nat.sub_self]
  rfl

/-- The fragment of a comparison with a name that has quotes and question marks in it. -/
def oddName : Fragment :=
  [.ident "\x22 = ? --", .token .le, .placeholder (.integer 1), .token .and, .function "ABS",
    .token .lparen, .placeholder (.integer 2), .token .rparen, .token .isNot, .token .null]

/-- The name stays between its quotes. -/
theorem lex_text_oddName : oddName.text = "\x22\x22\x22 = ? --\x22 <= ? AND ABS(?) IS NOT NULL" ∧
    lex oddName.text.toList = some [.quoted "\x22 = ? --", .symbol "<=", .placeholder "",
      .word "AND", .word "ABS", .symbol "(", .placeholder "", .symbol ")", .word "IS", .word "NOT",
      .word "NULL"] := by
  have hplain : ∀ c ∈ oddName, c.IsPlain := by decide
  have hchain : oddName.IsChain Chunk.NoFraction := by decide
  exact ⟨by decide, (lex_text hplain hchain).1⟩

end Fragment

end SqlTree
