import SqlTree.Value
import Mathlib.Data.List.TakeWhile

/-!
# The lexical rules of statements

How SQLite reads the text of a statement, of any statement and not only of a written fragment:
blanks and comments between the lexemes are left out, a name between double quotes has its quotes
doubled inside, a number goes on with a fraction and an exponent, a placeholder with digits that
number it, and of the operators that a text may begin with the longest one counts. The character
zero is in no lexeme. Names in brackets or backticks, blobs, placeholders with names and numbers to
the base sixteen are left out: a text with one of them has no lexemes or other ones.

* `lex` gives the lexemes of a text, `lexeme?` reads the first one.
* `Reads cs ls rest` says that the text `cs` begins with the lexemes `ls` and goes on with `rest`;
  `Reads.trans` puts readings behind each other.
* `reads_word`, `reads_quoted`, `reads_number`, `reads_placeholder` and `reads_symbol` read one
  lexeme, each behind which something stands that can't belong to it.
-/

namespace SqlTree

/-- A lexeme of a statement. -/
inductive Lexeme where
  /-- A keyword, or a name without quotes. -/
  | word (text : String)
  /-- A name between double quotes, as it is without them. -/
  | quoted (name : String)
  /-- Text between single quotes, as it is without them. -/
  | literal (text : String)
  /-- A number as it is written. -/
  | number (text : String)
  /-- A question mark and the digits right behind it. -/
  | placeholder (digits : String)
  /-- An operator or a punctuation mark. -/
  | symbol (text : String)
  deriving DecidableEq, Repr

namespace Lexeme

/-! ## Characters -/

/-- What may stand between two lexemes. -/
def isBlank (c : Char) : Bool := c ∈ [' ', '\t', '\n', '\x0c', '\r']

/-- What a word begins with. Characters outside of ASCII are letters. -/
def isWordStart (c : Char) : Bool := c.isAlpha || c == '_' || 128 ≤ c.toNat

/-- What a word goes on with. -/
def isWordChar (c : Char) : Bool := isWordStart c || c.isDigit || c == '$'

/-- What comments, operators and punctuation marks begin with, longer ones before those that they
begin with. -/
def marks : List (List Char) :=
  [['-', '-'], ['/', '*'], ['-', '>', '>'], ['-', '>'], ['<', '='], ['<', '>'], ['<', '<'],
    ['>', '='], ['>', '>'], ['=', '='], ['!', '='], ['|', '|'], ['<'], ['>'], ['='], ['|'], ['&'],
    ['~'], ['+'], ['-'], ['*'], ['/'], ['%'], ['('], [')'], [','], ['.'], [';']]

/-! ## Reading one lexeme -/

/-- What stands between quotes, of which the first one was read, and what stands behind. Two quotes
in a row are one. -/
def unquote? (quote : Char) : List Char → Option (List Char × List Char)
  | [] => none
  | c :: rest =>
    if c = '\x00' then none
    else if c = quote then
      match rest with
      | [] => some ([], [])
      | d :: more =>
        if d = quote then (unquote? quote more).map fun p => (quote :: p.1, p.2)
        else some ([], d :: more)
    else (unquote? quote rest).map fun p => (c :: p.1, p.2)

/-- The fraction that a text begins with, and what stands behind. -/
def fraction : List Char → List Char × List Char
  | '.' :: rest => ('.' :: rest.takeWhile (·.isDigit), rest.dropWhile (·.isDigit))
  | cs => ([], cs)

/-- The sign that a text begins with, and what stands behind. -/
def sign : List Char → List Char × List Char
  | '+' :: rest => (['+'], rest)
  | '-' :: rest => (['-'], rest)
  | cs => ([], cs)

/-- The exponent that a text begins with, and what stands behind. -/
def exponent : List Char → List Char × List Char
  | [] => ([], [])
  | e :: rest =>
    if (e = 'e' ∨ e = 'E') ∧ (sign rest).2.head?.any Char.isDigit then
      (e :: (sign rest).1 ++ (sign rest).2.takeWhile (·.isDigit),
        (sign rest).2.dropWhile (·.isDigit))
    else ([], e :: rest)

/-- The number that begins with `digits`, with the exponent behind it. No word follows right behind
a number. -/
def number? (digits behind : List Char) : Option (List Lexeme × List Char) :=
  if (exponent behind).2.head?.any isWordChar then none
  else some ([.number (String.ofList (digits ++ (exponent behind).1))], (exponent behind).2)

/-- What stands behind a comment between slashes. One that is not closed takes up all of the
text. -/
def behindComment : List Char → List Char
  | '*' :: '/' :: rest => rest
  | _ :: rest => behindComment rest
  | [] => []

/-- The symbol that a mark is, or none if it begins a comment, and what stands behind. -/
def atMark (mark behind : List Char) : List Lexeme × List Char :=
  if mark = ['-', '-'] then ([], behind.dropWhile (· ≠ '\n'))
  else if mark = ['/', '*'] then ([], behindComment behind)
  else ([.symbol (String.ofList mark)], behind)

/-- The first lexeme of the text `c :: cs`, or none if it begins with a blank or a comment, and what
stands behind. -/
def lexeme? (c : Char) (cs : List Char) : Option (List Lexeme × List Char) :=
  if c.isDigit then
    let behind := fraction (cs.dropWhile (·.isDigit))
    number? (c :: cs.takeWhile (·.isDigit) ++ behind.1) behind.2
  else if isWordStart c then
    some ([.word (String.ofList (c :: cs.takeWhile isWordChar))], cs.dropWhile isWordChar)
  else if isBlank c then some ([], cs)
  else if c = '.' ∧ cs.head?.any Char.isDigit then
    number? ('.' :: cs.takeWhile (·.isDigit)) (cs.dropWhile (·.isDigit))
  else if c = '?' then
    some ([.placeholder (String.ofList (cs.takeWhile (·.isDigit)))], cs.dropWhile (·.isDigit))
  else if c = '\x22' then
    (unquote? '\x22' cs).map fun p => ([.quoted (String.ofList p.1)], p.2)
  else if c = '\x27' then
    (unquote? '\x27' cs).map fun p => ([.literal (String.ofList p.1)], p.2)
  else
    (marks.find? (·.isPrefixOf (c :: cs))).map fun mark =>
      atMark mark ((c :: cs).drop mark.length)

/-! ## Reading all lexemes -/

theorem length_unquote?_le {quote : Char} {cs name rest : List Char}
    (h : unquote? quote cs = some (name, rest)) : rest.length ≤ cs.length := by
  fun_induction unquote? quote cs generalizing name rest with
  | case1 => cases h
  | case2 => cases h
  | case3 =>
    cases h
    exact Nat.zero_le _
  | case4 more hz ih =>
    obtain ⟨⟨name, rest⟩, hmore, heq⟩ := Option.map_eq_some_iff.1 h
    cases heq
    have := ih hmore
    simp only [List.length_cons]
    omega
  | case5 d more hd hz =>
    cases h
    exact Nat.le_succ _
  | case6 c rest hc hz ih =>
    obtain ⟨⟨name, rest⟩, hmore, heq⟩ := Option.map_eq_some_iff.1 h
    cases heq
    exact Nat.le_succ_of_le (ih hmore)

theorem length_fraction_le (cs : List Char) : (fraction cs).2.length ≤ cs.length := by
  unfold fraction
  split
  · exact Nat.le_succ_of_le (List.length_dropWhile_le _ _)
  · exact Nat.le_refl _

theorem length_sign_le (cs : List Char) : (sign cs).2.length ≤ cs.length := by
  unfold sign
  split
  · exact Nat.le_succ _
  · exact Nat.le_succ _
  · exact Nat.le_refl _

theorem length_exponent_le (cs : List Char) : (exponent cs).2.length ≤ cs.length := by
  cases cs with
  | nil => exact Nat.le_refl _
  | cons e rest =>
    rw [exponent]
    split
    · exact Nat.le_succ_of_le ((List.length_dropWhile_le _ _).trans (length_sign_le rest))
    · exact Nat.le_refl _

theorem length_number?_le {digits behind rest : List Char} {ls : List Lexeme}
    (h : number? digits behind = some (ls, rest)) : rest.length ≤ behind.length := by
  rw [number?] at h
  split at h
  · cases h
  · cases h
    exact length_exponent_le behind

theorem length_behindComment_le (cs : List Char) : (behindComment cs).length ≤ cs.length := by
  fun_induction behindComment cs with
  | case1 rest => exact Nat.le_add_right _ 2
  | case2 c rest _ ih => exact Nat.le_succ_of_le ih
  | case3 => exact Nat.le_refl _

theorem length_atMark_le (mark behind : List Char) :
    (atMark mark behind).2.length ≤ behind.length := by
  rw [atMark]
  split_ifs
  · exact List.length_dropWhile_le _ _
  · exact length_behindComment_le behind
  · exact Nat.le_refl _

theorem length_lexeme?_le {c : Char} {cs rest : List Char} {ls : List Lexeme}
    (h : lexeme? c cs = some (ls, rest)) : rest.length ≤ cs.length := by
  have hdrop : ∀ p : Char → Bool, (cs.dropWhile p).length ≤ cs.length :=
    fun p => List.length_dropWhile_le p cs
  have hquoted : ∀ {quote : Char} {l : String → Lexeme},
      ((unquote? quote cs).map fun p => ([l (String.ofList p.1)], p.2)) = some (ls, rest) →
        rest.length ≤ cs.length := by
    intro quote l h
    obtain ⟨⟨name, behind⟩, hname, heq⟩ := Option.map_eq_some_iff.1 h
    cases heq
    exact length_unquote?_le hname
  rw [lexeme?] at h
  split_ifs at h
  · exact (length_number?_le h).trans ((length_fraction_le _).trans (hdrop _))
  · cases h
    exact hdrop _
  · cases h
    exact Nat.le_refl _
  · exact (length_number?_le h).trans (hdrop _)
  · cases h
    exact hdrop _
  · exact hquoted h
  · exact hquoted h
  · obtain ⟨mark, hmark, heq⟩ := Option.map_eq_some_iff.1 h
    have hlength : ∀ mark ∈ marks, 1 ≤ mark.length := by decide
    have hbehind := length_atMark_le mark ((c :: cs).drop mark.length)
    simp only [heq, List.length_drop, List.length_cons] at hbehind
    have := hlength mark (List.mem_of_find?_eq_some hmark)
    omega

/-- The lexemes of a text, if it falls into lexemes. -/
def lex : List Char → Option (List Lexeme)
  | [] => some []
  | c :: cs =>
    match _h : lexeme? c cs with
    | none => none
    | some (ls, rest) => (lex rest).map (ls ++ ·)
termination_by cs => cs.length
decreasing_by exact Nat.lt_succ_of_le (length_lexeme?_le _h)

theorem lex_cons {c : Char} {cs rest : List Char} {ls : List Lexeme}
    (h : lexeme? c cs = some (ls, rest)) : lex (c :: cs) = (lex rest).map (ls ++ ·) := by
  rw [lex]
  split
  · rename_i hnone
    rw [h] at hnone
    cases hnone
  · rename_i ls' rest' hsome
    rw [h] at hsome
    cases hsome
    rfl

/-! ## Reading a part -/

/-- The text `cs` begins with the lexemes `ls`, and goes on with `rest`. -/
def Reads (cs : List Char) (ls : List Lexeme) (rest : List Char) : Prop :=
  lex cs = (lex rest).map (ls ++ ·)

section

variable {cs mid rest : List Char} {ls ms : List Lexeme}

theorem reads_nil (cs : List Char) : Reads cs [] cs := by
  rw [Reads]
  cases lex cs <;> rfl

theorem Reads.trans (h : Reads cs ls mid) (h' : Reads mid ms rest) : Reads cs (ls ++ ms) rest := by
  rw [Reads, h, h', Option.map_map]
  simp only [Function.comp_def, List.append_assoc]

/-- A text that is read to its end falls into what was read. -/
theorem Reads.lex_eq (h : Reads cs ls []) : lex cs = some ls := by
  rw [h, lex, Option.map_some, List.append_nil]

theorem reads_blank (cs : List Char) : Reads (' ' :: cs) [] cs := lex_cons rfl

/-- The characters that `p` holds of, up to one that it does not hold of. -/
theorem takeWhile_and_dropWhile {p : Char → Bool} (hp : ∀ c ∈ cs, p c)
    (hrest : ∀ c ∈ rest.head?, p c = false) :
    (cs ++ rest).takeWhile p = cs ∧ (cs ++ rest).dropWhile p = rest := by
  rw [List.takeWhile_append_of_pos hp, List.dropWhile_append_of_pos hp]
  cases rest with
  | nil => simp
  | cons c rest => simp [hrest c rfl]

/-! ## Words -/

/-- A word of ASCII letters, digits and underscores. -/
def isPlainWord : List Char → Bool
  | [] => false
  | c :: cs => (c.isAlpha || c == '_') && cs.all fun c => c.isAlphanum || c == '_'

theorem isDigit_head_of_isPlainWord {c : Char} (h : isPlainWord (c :: cs)) : c.isDigit = false := by
  rw [isPlainWord, Bool.and_eq_true, Bool.or_eq_true] at h
  obtain ⟨h | h, -⟩ := h
  · delta Char.isAlpha Char.isUpper Char.isLower at h
    delta Char.isDigit
    grind
  · rw [beq_iff_eq.1 h]
    rfl

theorem reads_word {text : String} (htext : isPlainWord text.toList)
    (hrest : ∀ c ∈ rest.head?, isWordChar c = false) :
    Reads (text.toList ++ rest) [.word text] rest := by
  cases hcs : text.toList with
  | nil =>
    rw [hcs] at htext
    cases htext
  | cons c cs =>
    rw [hcs] at htext
    have hdigit := isDigit_head_of_isPlainWord htext
    rw [isPlainWord, Bool.and_eq_true, List.all_eq_true] at htext
    obtain ⟨hc, hcs'⟩ := htext
    have hstart : isWordStart c = true := by
      rw [isWordStart, hc, Bool.true_or]
    have hword : ∀ c ∈ cs, isWordChar c := by
      intro c hmem
      have := hcs' c hmem
      rw [Char.isAlphanum, Bool.or_eq_true, Bool.or_eq_true] at this
      rw [isWordChar, isWordStart]
      rcases this with (h | h) | h <;> simp [h]
    obtain ⟨htake, hdrop⟩ := takeWhile_and_dropWhile hword hrest
    refine lex_cons ?_
    change lexeme? c (cs ++ rest) = _
    rw [lexeme?, if_neg (Bool.eq_false_iff.1 hdigit), if_pos hstart, htake, hdrop, ← hcs,
      String.ofList_toList]

/-! ## Numbers -/

theorem reads_number {text : String} (htext : text ≠ "") (hdigits : ∀ c ∈ text.toList, c.isDigit)
    (hrest : ∀ c ∈ rest.head?, isWordChar c = false ∧ c ≠ '.') :
    Reads (text.toList ++ rest) [.number text] rest := by
  obtain ⟨c, cs, hcs⟩ := List.exists_cons_of_ne_nil (mt String.toList_eq_nil_iff.1 htext)
  rw [hcs] at hdigits
  obtain ⟨hc, hdigits⟩ := List.forall_mem_cons.1 hdigits
  have hstops : ∀ c ∈ rest.head?, c.isDigit = false := by
    intro c hmem
    have := (hrest c hmem).1
    simp only [isWordChar, Bool.or_eq_false_iff] at this
    exact this.1.2
  obtain ⟨htake, hdrop⟩ := takeWhile_and_dropWhile hdigits hstops
  have hfraction : fraction rest = ([], rest) := by
    unfold fraction
    split
    · exact absurd rfl (hrest '.' rfl).2
    · rfl
  have hexponent : exponent rest = ([], rest) := by
    cases rest with
    | nil => rfl
    | cons e more =>
      rw [exponent, if_neg]
      rintro ⟨rfl | rfl, -⟩
      · exact absurd (hrest 'e' rfl).1 (by decide)
      · exact absurd (hrest 'E' rfl).1 (by decide)
  have hends : rest.head?.any isWordChar = false := by
    cases rest with
    | nil => rfl
    | cons a more => exact (hrest a rfl).1
  rw [hcs]
  refine lex_cons ?_
  change lexeme? c (cs ++ rest) = _
  rw [lexeme?, if_pos hc, htake, hdrop, hfraction, number?, hexponent, List.append_nil,
    List.append_nil, if_neg (Bool.eq_false_iff.1 hends), ← hcs, String.ofList_toList]

/-! ## Names between quotes -/

theorem unquote?_doubled {quote : Char} (hquote : quote ≠ '\x00')
    (hrest : rest.head? ≠ some quote) :
    ∀ {name : List Char}, '\x00' ∉ name →
      unquote? quote (Value.doubled quote name ++ quote :: rest) = some (name, rest)
  | [], _ => by
    rw [Value.doubled, List.nil_append, unquote?.eq_def]
    simp only [if_neg hquote, if_true]
    cases rest with
    | nil => rfl
    | cons d more => exact if_neg fun h => hrest (congrArg some h)
  | c :: name, hname => by
    rw [List.mem_cons, not_or] at hname
    have ih := unquote?_doubled hquote hrest hname.2
    rw [Value.doubled]
    split
    · rename_i hc
      subst hc
      rw [List.cons_append, List.cons_append, unquote?.eq_def]
      simp only [if_neg hquote, if_true, ih, Option.map_some]
    · rename_i hc
      rw [List.cons_append, unquote?.eq_def]
      simp only [if_neg (Ne.symm hname.1), if_neg hc, ih, Option.map_some]

theorem reads_quoted {name : List Char} (hname : '\x00' ∉ name)
    (hrest : rest.head? ≠ some '\x22') :
    Reads ('\x22' :: Value.doubled '\x22' name ++ '\x22' :: rest)
      [.quoted (String.ofList name)] rest := by
  refine lex_cons ?_
  have hunquote := unquote?_doubled (by decide) hrest hname
  change ((unquote? '\x22' (Value.doubled '\x22' name ++ '\x22' :: rest)).map fun p =>
    ([Lexeme.quoted (String.ofList p.1)], p.2)) = _
  rw [hunquote, Option.map_some]

/-! ## Placeholders and symbols -/

theorem reads_placeholder (hrest : ∀ c ∈ rest.head?, c.isDigit = false) :
    Reads ('?' :: rest) [.placeholder ""] rest := by
  obtain ⟨htake, hdrop⟩ := takeWhile_and_dropWhile (List.forall_mem_nil _) hrest
  rw [List.nil_append] at htake hdrop
  refine lex_cons ?_
  change some ([Lexeme.placeholder (String.ofList (rest.takeWhile (·.isDigit)))],
    rest.dropWhile (·.isDigit)) = _
  rw [htake, hdrop]

/-- Whether a mark and the character behind it are the beginning of something else together: of a
longer mark or of a number. -/
def goesOn (mark : List Char) (c : Char) : Bool :=
  marks.any ((mark ++ [c]).isPrefixOf ·) || (mark == ['.'] && c.isDigit)

/-- **The longest mark is found**: none that it begins with stands before it, and what stands behind
does not go on to a longer one. -/
theorem find?_marks {mark : List Char} (hmark : mark ∈ marks)
    (hrest : ∀ c ∈ rest.head?, goesOn mark c = false) :
    marks.find? (·.isPrefixOf (mark ++ rest)) = some mark := by
  obtain ⟨before, behind, hsplit⟩ := List.append_of_mem hmark
  have hordered : marks.Pairwise fun m m' => ¬ m <+: m' := by decide
  rw [hsplit, List.pairwise_append] at hordered
  refine List.find?_eq_some_iff_append.2
    ⟨List.isPrefixOf_iff_prefix.2 (List.prefix_append mark rest), before, behind, hsplit, ?_⟩
  intro m hm
  rw [Bool.not_eq_true', Bool.eq_false_iff, ne_eq, List.isPrefixOf_iff_prefix]
  intro hbegins
  rcases List.prefix_or_prefix_of_prefix hbegins (List.prefix_append mark rest) with hle | hle
  · exact hordered.2.2 m hm mark List.mem_cons_self hle
  · obtain ⟨more, rfl⟩ := hle
    rw [List.prefix_append_right_inj] at hbegins
    cases more with
    | nil =>
      refine hordered.2.2 _ hm mark List.mem_cons_self ⟨[], ?_⟩
      rw [List.append_nil, List.append_nil]
    | cons c more =>
      obtain ⟨rest, rfl⟩ := hbegins
      have hlonger := hrest c rfl
      rw [goesOn, Bool.or_eq_false_iff, List.any_eq_false] at hlonger
      refine hlonger.1 (mark ++ c :: more) (hsplit ▸ List.mem_append_left _ hm) ?_
      rw [List.isPrefixOf_iff_prefix]
      exact ⟨more, List.append_assoc mark [c] more⟩

theorem reads_symbol {text : String} (htext : text.toList ∈ marks.drop 2)
    (hrest : ∀ c ∈ rest.head?, goesOn text.toList c = false) :
    Reads (text.toList ++ rest) [.symbol text] rest := by
  have hfind := find?_marks (List.mem_of_mem_drop htext) hrest
  have hbegins : ∀ mark ∈ marks.drop 2, mark ≠ [] ∧ mark ≠ ['-', '-'] ∧ mark ≠ ['/', '*'] ∧
      (mark.head?.any Char.isDigit = false ∧ mark.head?.any isWordStart = false ∧
        mark.head?.any isBlank = false) ∧ mark.head? ≠ some '?' ∧ mark.head? ≠ some '\x22' ∧
      mark.head? ≠ some '\x27' ∧ (mark.head? = some '.' → mark = ['.']) := by decide
  obtain ⟨hne, hline, hblock, hbegins⟩ := hbegins _ htext
  obtain ⟨c, cs, hcs⟩ := List.exists_cons_of_ne_nil hne
  rw [hcs] at hfind hline hblock hbegins hrest
  simp only [List.head?_cons, Option.any_some, ne_eq, Option.some.injEq] at hbegins
  obtain ⟨⟨hdigit, hstart, hblank⟩, hplace, hdouble, hsingle, hdot⟩ := hbegins
  have hnumber : ¬ (c = '.' ∧ (cs ++ rest).head?.any Char.isDigit) := by
    rintro ⟨hc, hdigit⟩
    obtain ⟨rfl, rfl⟩ := List.cons_eq_cons.1 (hdot hc)
    cases rest with
    | nil => cases hdigit
    | cons d more =>
      have hd := hrest d rfl
      rw [goesOn, Bool.or_eq_false_iff] at hd
      exact absurd hdigit (Bool.eq_false_iff.1 hd.2)
  have htext : String.ofList (c :: cs) = text := hcs ▸ String.ofList_toList
  rw [hcs]
  refine lex_cons ?_
  change lexeme? c (cs ++ rest) = _
  rw [lexeme?, if_neg (Bool.eq_false_iff.1 hdigit), if_neg (Bool.eq_false_iff.1 hstart),
    if_neg (Bool.eq_false_iff.1 hblank), if_neg hnumber, if_neg hplace, if_neg hdouble,
    if_neg hsingle, ← List.cons_append, hfind, Option.map_some, List.drop_left, atMark,
    if_neg hline, if_neg hblock, htext]

end

end Lexeme

end SqlTree
