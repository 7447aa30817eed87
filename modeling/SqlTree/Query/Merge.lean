import SqlTree.Query.Basic

/-!
# Merging requests

Two requests on one occurrence of a table merge into one that asks for both: conditions are
combined, orders follow each other, joins under one key are merged. Their occurrences become one
occurrence, which may turn out to be impossible, as may merging two joins that link different
tables; then the requests don't merge.

* `Clauses.merge` and `Source.merge` are the two parts that do not look into joins.
* `Query.merge`, `Join.merge` and `mergeJoins` walk the second request.
-/

namespace SqlTree

/-- Two optional things combined, or the one that is there. -/
def mergeWith {α : Type} (combine : α → α → α) : Option α → Option α → Option α
  | some a, some b => some (combine a b)
  | some a, none => some a
  | none, b? => b?

/-- The clauses of both: conditions together, the later selection unless it is empty, the later
group and limit, the orders behind each other. -/
def Clauses.merge (a b : Clauses) : Clauses where
  selection := if b.selection.isEmpty then a.selection else b.selection
  distinct := a.distinct || b.distinct
  filter? := mergeWith (.zipWith .and) a.filter? b.filter?
  group? := b.group? <|> a.group?
  having? := mergeWith .and a.having? b.having?
  order := a.order.followedBy b.order
  limit? := b.limit? <|> a.limit?

/-- One occurrence for two sources that each may have one. -/
def mergeAliases : Option Alias → Option Alias → UnifyM (Option Alias)
  | some a, some b => do
    UnifyM.unify a b
    return some a
  | some a, none => return some a
  | none, b? => return b?

/-- One source for two references to the same table. -/
def Source.merge : Source → Source → UnifyM Source
  | .table name alias?, .table name' alias?' => do
    if Text.sameName name name' then
      return .table name (← mergeAliases alias? alias?')
    else failure
  | _, _ => failure

/-- Whether two links are between the same tables in the same direction. Only then can they compare
the same columns. -/
def JoinLink.isBetweenSameTables (a b : JoinLink) : Bool :=
  a.isHeldByParent == b.isHeldByParent && Text.sameName a.key.origin b.key.origin &&
    Text.sameName a.key.destination b.key.destination

/-- The links that `a` has to agree with once a join with the links `more` is merged into it: each
that differs from the link of `a` as it is written, once. -/
def Join.linksWith (a : Join) (more : List JoinLink) : List JoinLink :=
  more.foldl
    (fun links l => if l = a.link ∨ l ∈ links then links else links ++ [l]) a.mergedLinks

mutual

/-- One request for two requests on one occurrence. -/
def Query.merge (a : Query) : Query → UnifyM Query
  | ⟨source, clauses, joins, _⟩ => do
    let source ← a.source.merge source
    let joins ← mergeJoins a.joins joins
    return ⟨source, a.clauses.merge clauses, joins, false⟩

/-- One join for two joins under one key. -/
def Join.merge (a : Join) : Join → UnifyM Join
  | ⟨_, kind, link, mergedLinks, query⟩ => do
    if a.link.isBetweenSameTables link then
      let merged ← a.query.merge query
      return ⟨a.key, a.kind.merge kind, a.link, a.linksWith (link :: mergedLinks), merged⟩
    else failure

/-- The joins `mine` with more joins merged into them one by one; a join under a new key goes to the
end. -/
def mergeJoins (mine : List Join) : List Join → UnifyM (List Join)
  | [] => return mine
  | j :: rest => do
    match Join.find? j.key mine with
    | none => mergeJoins (mine ++ [j]) rest
    | some k => do
      let merged ← k.merge j
      mergeJoins (merged.replace mine) rest

end

end SqlTree
