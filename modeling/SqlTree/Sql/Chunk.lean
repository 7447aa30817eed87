import SqlTree.Sql.Token
import SqlTree.Value

/-!
# Chunks

A statement is written as a sequence of chunks: tokens, quoted names, numbers, placeholders with
the values bound to them, and pieces of text that are taken as they are.

* `Chunk.text` is the written form of one chunk.
* `Chunk.spaceBetween` says where a space stands between two neighbours.
* `Chunk.values` are the values bound to the placeholders in a chunk.
-/

namespace SqlTree

/-- A piece of a statement. -/
inductive Chunk where
  /-- A keyword, an operator or a punctuation mark. -/
  | token (t : Token)
  /-- A name between double quotes. -/
  | ident (name : String)
  /-- A natural number. -/
  | number (n : Nat)
  /-- A placeholder bound to a value. -/
  | placeholder (v : Value)
  /-- The name of a function, written without a space before its parenthesis. -/
  | function (name : String)
  /-- Text taken as it is, with placeholders of its own bound to `arguments` in order. -/
  | verbatim (text : String) (arguments : List Value)
  deriving DecidableEq, Inhabited

namespace Chunk

/-- A name between double quotes, with every double quote inside it written twice. -/
def quotedName (name : String) : String :=
  "\x22" ++ String.ofList (Value.doubled '\x22' name.toList) ++ "\x22"

/-- The written form of a chunk. -/
def text : Chunk → String
  | token t => t.text
  | ident name => quotedName name
  | number n => toString n
  | placeholder _ => "?"
  | function name => name
  | verbatim text _ => text

/-- The values bound in a chunk, in the order of their placeholders. -/
def values : Chunk → List Value
  | placeholder v => [v]
  | verbatim _ arguments => arguments
  | _ => []

/-- Whether a space stands between two neighbouring chunks. There is none before a closing
parenthesis, a comma or a dot, none after an opening parenthesis or a dot, and none between a
function and its parenthesis. -/
def spaceBetween : Chunk → Chunk → Bool
  | _, token .rparen | _, token .comma | _, token .dot => false
  | token .lparen, _ | token .dot, _ => false
  | function _, token .lparen => false
  | _, _ => true

end Chunk

end SqlTree
