import SqlTree.Sql.Chunk

/-!
# Fragments

A fragment is a list of chunks; a statement is the fragment that holds all of it. Fragments are
joined by appending, so the order of the placeholders in the text is the order of the values in
`Fragment.params`.

* `Fragment.text` writes the chunks with the spaces between them.
* `Fragment.params` collects the bound values.
* `separated`, `parens`, `named` and `call` build the usual shapes.
-/

namespace SqlTree

/-- A sequence of chunks. -/
abbrev Fragment := List Chunk

namespace Fragment

/-! ## Building -/

/-- The fragment of one token. -/
def token (t : Token) : Fragment := [.token t]

/-- The fragment of one quoted name. -/
def ident (name : String) : Fragment := [.ident name]

/-- The fragment of one natural number. -/
def number (n : Nat) : Fragment := [.number n]

/-- The fragment of one value: `NULL` is written out, any other value is bound to a
placeholder. -/
def value : Value → Fragment
  | .null => [.token .null]
  | v => [.placeholder v]

/-- The fragment of one text taken as it is, with its placeholders bound to `arguments`. -/
def verbatim (text : String) (arguments : List Value) : Fragment := [.verbatim text arguments]

/-- A fragment between parentheses. -/
def parens (f : Fragment) : Fragment := .token .lparen :: f ++ [.token .rparen]

/-- A function applied to arguments. -/
def call (name : String) (arguments : Fragment) : Fragment := .function name :: parens arguments

/-- A fragment with a name given to it. -/
def named (f : Fragment) (name : String) : Fragment := f ++ [.token .as_, .ident name]

/-- The fragments with a token between neighbours. -/
def separated (t : Token) (fs : List Fragment) : Fragment := List.intercalate [.token t] fs

/-! ## Reading -/

/-- The text of a fragment: its chunks in order, with a space between two where one stands. -/
def text : Fragment → String
  | [] => ""
  | [c] => c.text
  | c :: d :: rest =>
    c.text ++ (if c.spaceBetween d then " " else "") ++ text (d :: rest)

/-- The bound values, in the order of their placeholders in the text. -/
def params (f : Fragment) : List Value := f.flatMap Chunk.values

@[simp]
theorem params_nil : params [] = [] := rfl

@[simp]
theorem params_cons (c : Chunk) (f : Fragment) : params (c :: f) = c.values ++ params f := by
  simp [params]

@[simp]
theorem params_append (f g : Fragment) : params (f ++ g) = params f ++ params g := by
  simp [params]

@[simp]
theorem params_parens (f : Fragment) : params f.parens = params f := by
  simp [parens, Chunk.values]

/-- Separators bind nothing: the values are those of the separated fragments, one behind the
other. -/
theorem params_separated (t : Token) (fs : List Fragment) :
    params (separated t fs) = fs.flatMap params := by
  induction fs with
  | nil => rfl
  | cons f rest ih =>
    cases rest with
    | nil => simp [separated, List.intercalate]
    | cons g rest =>
      rw [List.flatMap_cons, ← ih]
      simp [separated, List.intercalate, params, Chunk.values]

/-- The text and the bound values, for diagnostics. -/
def describe (f : Fragment) : String :=
  "sql: \x22" ++ f.text ++ "\x22, params: [" ++
    String.intercalate ", " (f.params.map Value.describe) ++ "]"

end Fragment

end SqlTree
