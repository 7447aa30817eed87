/-!
# Tokens

The fixed words, operators and punctuation marks of a statement. `Token.text` is how each is
written; two words that always stand together, as in `GROUP BY`, are one token. Tokens whose word is
reserved have an underscore behind it.
-/

namespace SqlTree

/-- A keyword, an operator or a punctuation mark. -/
inductive Token where
  | select | distinct | from_ | where_ | groupBy | having | orderBy | limit | offset
  | deleteFrom | join | leftJoin | on | as_
  | asc | desc | nullsFirst | nullsLast
  | and | or | not
  | in_ | is | isNot | like | null
  | eq | ne | lt | le | gt | ge
  | plus | minus | star | slash | concat
  | lparen | rparen | comma | dot
  deriving DecidableEq, Repr, Inhabited

/-- The written form of a token. -/
def Token.text : Token → String
  | select => "SELECT"
  | distinct => "DISTINCT"
  | from_ => "FROM"
  | where_ => "WHERE"
  | groupBy => "GROUP BY"
  | having => "HAVING"
  | orderBy => "ORDER BY"
  | limit => "LIMIT"
  | offset => "OFFSET"
  | deleteFrom => "DELETE FROM"
  | join => "JOIN"
  | leftJoin => "LEFT JOIN"
  | on => "ON"
  | as_ => "AS"
  | asc => "ASC"
  | desc => "DESC"
  | nullsFirst => "NULLS FIRST"
  | nullsLast => "NULLS LAST"
  | and => "AND"
  | or => "OR"
  | not => "NOT"
  | in_ => "IN"
  | is => "IS"
  | isNot => "IS NOT"
  | like => "LIKE"
  | null => "NULL"
  | eq => "="
  | ne => "<>"
  | lt => "<"
  | le => "<="
  | gt => ">"
  | ge => ">="
  | plus => "+"
  | minus => "-"
  | star => "*"
  | slash => "/"
  | concat => "||"
  | lparen => "("
  | rparen => ")"
  | comma => ","
  | dot => "."

end SqlTree
