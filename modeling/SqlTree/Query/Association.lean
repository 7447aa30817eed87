import SqlTree.Query.Derive

/-!
# Associations

A declared relationship from one table to another: the foreign key between them, the side that holds
it, a key to join under, and the request on the other table that a join takes over.
-/

namespace SqlTree

/-- A relationship from a table to the table of `destination`. -/
structure Association where
  key : String
  link : JoinLink
  destination : Query

namespace Association

/-- The origin holds a foreign key to the destination. -/
def belongsTo (origin destination : String) : Association :=
  ⟨destination, ⟨{ origin := origin, destination := destination }, true⟩, .table destination⟩

/-- The destination holds a foreign key to the origin, in one row at most. -/
def hasOne (origin destination : String) : Association :=
  ⟨destination, ⟨{ origin := destination, destination := origin }, false⟩, .table destination⟩

/-- The destination holds a foreign key to the origin. -/
def hasMany (origin destination : String) : Association := hasOne origin destination

variable (a : Association)

/-- The association under another key. -/
def withKey (key : String) : Association := { a with key := key }

/-- The association by the given columns of the table that holds the foreign key. -/
def heldBy (columns : List String) : Association :=
  { a with link := { a.link with key := { a.link.key with originColumns? := some columns } } }

/-- The association by the given columns of the table that the foreign key refers to. -/
def referencing (columns : List String) : Association :=
  { a with link := { a.link with key := { a.link.key with destinationColumns? := some columns } } }

/-- The association to another request. -/
def withDestination (destination : Query) : Association := { a with destination := destination }

/-- The join of an association, which selects what the destination selects, or nothing. -/
def toJoin (kind : JoinKind) (isSelected : Bool) : Join :=
  ⟨a.key, kind, a.link, [], if isSelected then a.destination else a.destination.selectNothing⟩

end Association

namespace Query

variable (q : Query) (a : Association)

/-- The request with an association joined and selected. -/
def including (kind : JoinKind) : AliasM Query := q.withJoin a.key (a.toJoin kind true)

/-- The request with an association joined and nothing selected from it. -/
def joining (kind : JoinKind) : AliasM Query := q.withJoin a.key (a.toJoin kind false)

end Query

end SqlTree
