import SqlTree.Proofs.Runs
import SqlTree.Row.Layout

/-!
# Requests with one layout

The layout of rows depends on little of a request: the keys of its joins, and how many columns each
of its nodes selects. `Query.LaidOutAs` says that two requests, in forests of their own, have the
same of both, or fail to be counted for the same reason. Then they are equally wide
(`Query.LaidOutAs.width_eq`), and their rows are laid out alike (`Query.LaidOutAs.rowLayout?_eq`).
-/

namespace SqlTree

mutual

/-- The request `q'` in the forest `g` has joins under the same keys as `q` in the forest `f`, and
at each node the same number of columns is counted. -/
inductive Query.LaidOutAs (f g : Forest) (db : Schema) : Query → Query → Prop
  | node {source source' : Source} {clauses clauses' : Clauses} {joins joins' : List Join}
      {isQualified isQualified' : Bool} :
      itemsWidth g db source'.alias? (source'.width g db) clauses'.selection =
        itemsWidth f db source.alias? (source.width f db) clauses.selection →
      JoinsLaidOutAs f g db joins joins' →
        Query.LaidOutAs f g db ⟨source, clauses, joins, isQualified⟩
          ⟨source', clauses', joins', isQualified'⟩

/-- The joins `joins'` in the forest `g` have the keys of `joins` in the forest `f`, and requests
where the same numbers of columns are counted. -/
inductive JoinsLaidOutAs (f g : Forest) (db : Schema) : List Join → List Join → Prop
  | nil : JoinsLaidOutAs f g db [] []
  | cons {key : String} {kind kind' : JoinKind} {link link' : JoinLink}
      {mergedLinks mergedLinks' : List JoinLink} {q q' : Query} {rest rest' : List Join} :
      Query.LaidOutAs f g db q q' → JoinsLaidOutAs f g db rest rest' →
        JoinsLaidOutAs f g db (⟨key, kind, link, mergedLinks, q⟩ :: rest)
          (⟨key, kind', link', mergedLinks', q'⟩ :: rest')

end

section

variable {f g : Forest} {db : Schema}

mutual

/-- Requests that are laid out alike are equally wide. -/
theorem Query.LaidOutAs.width_eq : ∀ {q q' : Query}, q.LaidOutAs f g db q' →
    q'.width g db = q.width f db
  | _, _, .node hown hjoins => by
    rw [Query.width, Query.width, hown, hjoins.width_eq]

theorem JoinsLaidOutAs.width_eq : ∀ {joins joins' : List Join},
    JoinsLaidOutAs f g db joins joins' → joinsWidth g db joins' = joinsWidth f db joins
  | _, _, .nil => by rw [joinsWidth, joinsWidth]
  | _, _, .cons hq hrest => by
    rw [joinsWidth, joinsWidth, Join.width, Join.width, hq.width_eq, hrest.width_eq]

end

mutual

theorem Query.LaidOutAs.layoutFrom_eq : ∀ {q q' : Query}, q.LaidOutAs f g db q' →
    ∀ start, q'.layoutFrom g db start = q.layoutFrom f db start
  | _, _, .node hown hjoins, start => by
    rw [Query.layoutFrom, Query.layoutFrom, hown]
    refine bind_congr_ok fun width _ => ?_
    rw [hjoins.layout_eq]

theorem JoinsLaidOutAs.layout_eq : ∀ {joins joins' : List Join},
    JoinsLaidOutAs f g db joins joins' → ∀ (seen : List String) (start : Nat),
      joinsLayout g db seen start joins' = joinsLayout f db seen start joins
  | _, _, .nil, seen, start => by rw [joinsLayout, joinsLayout]
  | _, _, .cons hq hrest, seen, start => by
    rw [joinsLayout, joinsLayout, joinLayout, joinLayout, hq.layoutFrom_eq]
    refine ite_congr rfl (fun _ => throw_bind_congr _ _ _) fun _ => ?_
    refine bind_congr_ok fun layout _ => ?_
    rw [hrest.layout_eq]

end

mutual

theorem Query.laidOutAs_self : ∀ q : Query, q.LaidOutAs f f db q
  | ⟨_, _, joins, _⟩ => .node rfl (joinsLaidOutAs_self joins)

theorem joinsLaidOutAs_self : ∀ joins : List Join, JoinsLaidOutAs f f db joins joins
  | [] => .nil
  | ⟨_, _, _, _, query⟩ :: rest => .cons (Query.laidOutAs_self query) (joinsLaidOutAs_self rest)

end

theorem JoinsLaidOutAs.isEmpty_eq {joins joins' : List Join}
    (h : JoinsLaidOutAs f g db joins joins') : joins'.isEmpty = joins.isEmpty := by
  cases h <;> rfl

/-- **Rows of requests that are laid out alike have one layout.** -/
theorem Query.LaidOutAs.rowLayout?_eq {q q' : Query} (h : q.LaidOutAs f g db q') :
    q'.rowLayout? g db = q.rowLayout? f db := by
  have hfrom := h.layoutFrom_eq 0
  cases h with
  | node hown hjoins => rw [rowLayout?, rowLayout?, hjoins.isEmpty_eq, hfrom]

end

end SqlTree
