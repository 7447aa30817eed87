import SqlTree.Alias.Forest
import SqlTree.Text.Lowercase

/-!
# Names of occurrences

Every occurrence in a statement gets a name. Names that users gave are kept, and two occurrences
with one of them are ambiguous. All other occurrences go by the name of their table, with a number
behind it when another occurrence goes by the same name. Names are compared without regard to case.

* `Forest.occurrences` lists the occurrences among identities, each once.
* `assignNames` gives them their names.
-/

namespace SqlTree

/-- An occurrence to be named: its root, the name it goes by, and whether the user gave it that
name. -/
structure Occurrence where
  root : Alias
  name : String
  isUserGiven : Bool
  deriving DecidableEq

/-- The occurrence with the given root. One without user name and table goes by `subquery`. -/
def Forest.occurrence (f : Forest) (root : Alias) : Occurrence :=
  ⟨root, (f.identityName? root).getD "subquery", (f.userName? root).isSome⟩

/-- The occurrences among identities, each once, in order of appearance. -/
def Forest.occurrences (f : Forest) (aliases : List Alias) : List Occurrence :=
  (aliases.map f.root).eraseDups.map f.occurrence

/-- The first name, in order, that the user gave to an occurrence and that stands in lowercase among
the names that the user gave to earlier ones. -/
def repeatedName? (given : List String) : List Occurrence → Option String
  | [] => none
  | o :: rest =>
    if o.isUserGiven then
      if Text.lower o.name ∈ given then some o.name
      else repeatedName? (Text.lower o.name :: given) rest
    else repeatedName? given rest

/-- The name with the smallest number from `n` on that is not taken, among the given number of
candidates and the one behind them. -/
def numberedFrom (taken : List String) (name : String) (n : Nat) : Nat → String
  | 0 => name ++ toString n
  | candidates + 1 =>
    if Text.lower (name ++ toString n) ∈ taken then
      numberedFrom taken name (n + 1) candidates
    else name ++ toString n

/-- The name with the smallest positive number that is not taken. One of the first numbers, one more
than there are names taken, is free. -/
def numbered (taken : List String) (name : String) : String :=
  numberedFrom taken name 1 taken.length

/-- The names of occurrences, when `all` are the names they go by and `taken` the names in use, both
in lowercase. -/
def namesFrom (all taken : List String) : List Occurrence → List (Alias × String)
  | [] => []
  | o :: rest =>
    if o.isUserGiven ∨ all.count (Text.lower o.name) = 1 then
      (o.root, o.name) :: namesFrom all taken rest
    else
      let name := numbered taken o.name
      (o.root, name) :: namesFrom all (Text.lower name :: taken) rest

/-- The names of occurrences. -/
def assignNames (os : List Occurrence) : Except CompileError (List (Alias × String)) :=
  match repeatedName? [] os with
  | some name => .error (.repeatedName name)
  | none =>
    let all := os.map (Text.lower ·.name)
    .ok (namesFrom all all os)

end SqlTree
