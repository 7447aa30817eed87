/-!
# Names without regard to ASCII case

Tables, columns and join keys are compared without regard to the case of the letters `A` to `Z`;
all other characters are compared as they are.
-/

namespace SqlTree

namespace Text

/-- The text with the capitals `A` to `Z` made small. -/
def asciiLower (s : String) : String := String.ofList (s.toList.map Char.toLower)

/-- Whether two names are equal up to ASCII case. -/
def sameName (a b : String) : Bool := asciiLower a == asciiLower b

/-- Whether two lists hold the same names, each as often, in any order and up to ASCII case. -/
def sameNames (as bs : List String) : Bool := (as.map asciiLower).isPerm (bs.map asciiLower)

@[simp]
theorem sameName_iff {a b : String} : sameName a b = true ↔ asciiLower a = asciiLower b := by
  simp [sameName]

@[simp]
theorem sameNames_iff {as bs : List String} :
    sameNames as bs = true ↔ (as.map asciiLower).Perm (bs.map asciiLower) := by
  simp [sameNames, List.isPerm_iff]

end Text

end SqlTree
