import SqlTree.Proofs.Query.Nodes
import SqlTree.Proofs.Query.Places

/-!
# Occurrences place by place

At each place a request is one occurrence, if it is one at all. A merge makes one of the two
occurrences at each place where both requests are one, and keeps the one that there is elsewhere.

* `Query.aliasAt` is the occurrence at a place, and `Query.placedAliases` lists all of them with
  their places. Where the occurrences of a request differ each is at one place.
* `Query.aliasAt_meet`: the occurrence at a place of a merge.
* `Query.meet_pairs_at`: of the pairs that a merge comes upon, the one at a place.
-/

namespace SqlTree

/-! ## The occurrence at a place -/

/-- The occurrence that a request is at the place that keys of joins lead to. -/
def Query.aliasAt (q : Query) : List String → Option Alias
  | [] => q.source.alias?
  | key :: path => (Join.find? key q.joins).bind fun j => aliasAt j.query path

theorem Query.bind_place? (h? : Option JoinHead) (q : Query) (path : List String) :
    (q.place? h? path).bind (·.source.alias?) = q.aliasAt path := by
  induction path generalizing h? q with
  | nil => rfl
  | cons key path ih =>
    rw [place?, aliasAt]
    cases Join.find? key q.joins with
    | none => rfl
    | some j => exact ih _ j.query

mutual

/-- The occurrences of a request and of its joins, with their places. -/
def Query.placedAliases : Query → List (List String × Alias)
  | ⟨source, _, joins, _⟩ => source.alias?.toList.map ([], ·) ++ joinsPlacedAliases joins

/-- The occurrences of joins with their places. -/
def joinsPlacedAliases : List Join → List (List String × Alias)
  | [] => []
  | j :: rest => joinPlacedAliases j ++ joinsPlacedAliases rest

/-- The occurrences of a join with their places. -/
def joinPlacedAliases : Join → List (List String × Alias)
  | ⟨key, _, _, _, query⟩ => query.placedAliases.map fun p => (key :: p.1, p.2)

end

mutual

/-- Without their places they are the occurrences of the level. -/
theorem Query.map_placedAliases : ∀ q : Query, q.placedAliases.map (·.2) = q.levelAliases
  | ⟨source, _, joins, _⟩ => by
    rw [Query.placedAliases, Query.levelAliases, List.map_append, map_joinsPlacedAliases joins,
      List.map_map]
    exact congrArg (· ++ _) (List.map_id _)

theorem map_joinsPlacedAliases : ∀ joins : List Join,
    (joinsPlacedAliases joins).map (·.2) = joinsLevelAliases joins
  | [] => rfl
  | j :: rest => by
    rw [joinsPlacedAliases, joinsLevelAliases, List.map_append, map_joinPlacedAliases j,
      map_joinsPlacedAliases rest]

theorem map_joinPlacedAliases : ∀ j : Join, (joinPlacedAliases j).map (·.2) = joinLevelAliases j
  | ⟨_, _, _, _, query⟩ => by
    rw [joinPlacedAliases, joinLevelAliases, List.map_map, ← query.map_placedAliases]
    rfl

end

theorem joinsPlacedAliases_eq (joins : List Join) :
    joinsPlacedAliases joins = joins.flatMap joinPlacedAliases := by
  induction joins with
  | nil => rfl
  | cons j rest ih => rw [joinsPlacedAliases, ih, List.flatMap_cons]

theorem Query.placedAliases_eq (q : Query) : q.placedAliases =
    q.source.alias?.toList.map ([], ·) ++ q.joins.flatMap joinPlacedAliases := by
  obtain ⟨source, clauses, joins, isQualified⟩ := q
  rw [placedAliases, joinsPlacedAliases_eq]

theorem Query.mem_placedAliases {q : Query} {path : List String} {x : Alias}
    (h : q.aliasAt path = some x) : (path, x) ∈ q.placedAliases := by
  induction path generalizing q with
  | nil =>
    rw [placedAliases_eq]
    refine List.mem_append_left _ (List.mem_map.2 ⟨x, ?_, rfl⟩)
    exact Option.mem_toList.2 h
  | cons key path ih =>
    obtain ⟨j, hj, hbelow⟩ := Option.bind_eq_some_iff.1 h
    obtain rfl := Join.key_of_find? hj
    rw [placedAliases_eq]
    refine List.mem_append_right _ (List.mem_flatMap.2 ⟨j, List.mem_of_find?_eq_some hj, ?_⟩)
    have hbelow := ih hbelow
    obtain ⟨key, kind, link, mergedLinks, query⟩ := j
    rw [joinPlacedAliases]
    exact List.mem_map.2 ⟨_, hbelow, rfl⟩

/-! ## Merging -/

theorem meetAliases_pairs (a? b? : Option Alias) : (meetAliases a? b?).pairs = pairOf a? b? := by
  cases a? with
  | none => rfl
  | some a => cases b? <;> rfl

theorem meetAliases_result (a? b? : Option Alias) :
    (meetAliases a? b?).result? = some (a? <|> b?) := by
  cases a? with
  | none => rfl
  | some a => cases b? <;> rfl

/-- What two sources come to is a table, if they are one and the same. -/
theorem Source.meet_eq_some_iff {s s' t : Source} : (s.meet s').result? = some t ↔
    ∃ name name' alias? alias?', s = .table name alias? ∧ s' = .table name' alias?' ∧
      Text.sameName name name' = true ∧ t = .table name (alias? <|> alias?') := by
  constructor
  · intro h
    cases s with
    | nested query alias? => cases h
    | table name alias? =>
      cases s' with
      | nested query alias?' => cases h
      | table name' alias?' =>
        rw [meet] at h
        split at h
        · rename_i hname
          rw [Meeting.result?_bind, meetAliases_result] at h
          exact ⟨name, name', alias?, alias?', rfl, rfl, hname, (Option.some.inj h).symm⟩
        · cases h
  · rintro ⟨name, name', alias?, alias?', rfl, rfl, hname, rfl⟩
    rw [meet, if_pos hname, Meeting.result?_bind, meetAliases_result]
    rfl

theorem Source.meet_eq_some {s s' t : Source} (h : (s.meet s').result? = some t) :
    (s.meet s').pairs = pairOf s.alias? s'.alias? ∧ t.alias? = (s.alias? <|> s'.alias?) := by
  obtain ⟨name, name', alias?, alias?', rfl, rfl, hname, rfl⟩ := Source.meet_eq_some_iff.1 h
  rw [meet, if_pos hname, Meeting.pairs_bind, meetAliases_pairs, meetAliases_result]
  exact ⟨List.append_nil _, rfl⟩

section

variable {a b q : Query}

/-- The occurrence at a place of a merge is that of the first request which is one there. -/
theorem Query.aliasAt_meet (hb : b.KeysDiffer) (hq : (a.meet b).result? = some q)
    (path : List String) : q.aliasAt path = (a.aliasAt path <|> b.aliasAt path) := by
  have hplaces : meetPlaces? (a.place? none path) (b.place? none path) =
      some (q.place? none path) := b.meet_places hb hq rfl path
  rw [← q.bind_place? none, ← a.bind_place? none, ← b.bind_place? none]
  cases hp : a.place? none path with
  | none =>
    rw [hp] at hplaces
    rw [← Option.some.inj hplaces]
    rfl
  | some p =>
    cases hr : b.place? none path with
    | none =>
      rw [hp, hr, meetPlaces?_none_right] at hplaces
      rw [← Option.some.inj hplaces]
      cases p.source.alias? <;> simp
    | some r =>
      rw [hp, hr] at hplaces
      obtain ⟨t, ht, hmerged⟩ := Option.map_eq_some_iff.1 hplaces
      obtain ⟨_, -, ht⟩ := Option.bind_eq_some_iff.1 ht
      obtain ⟨source, hsource, ht⟩ := Option.bind_eq_some_iff.1 ht
      obtain rfl := Option.some.inj ht
      rw [← hmerged]
      exact (Source.meet_eq_some hsource).2

theorem Query.aliasAt_of_meet (hb : b.KeysDiffer) (hq : (a.meet b).result? = some q)
    {path : List String} {x : Alias} (hx : q.aliasAt path = some x) :
    a.aliasAt path = some x ∨ b.aliasAt path = some x := by
  rw [aliasAt_meet hb hq] at hx
  cases ha : a.aliasAt path with
  | none =>
    rw [ha] at hx
    exact .inr hx
  | some y =>
    rw [ha] at hx
    exact .inl hx

/-- Joins under one key merge where the requests do. -/
theorem Query.exists_meet_of_find? {key : String} {k j : Join} (hb : b.KeysDiffer)
    (hq : (a.meet b).result? = some q) (hk : Join.find? key a.joins = some k)
    (hj : Join.find? key b.joins = some j) : ∃ m, (k.meet j).result? = some m := by
  obtain ⟨source, joins, -, hjoins, -⟩ := Query.meet_eq_some hq
  have hat := ((meetJoins_result (b.keysDiffer_iff.1 hb).1).2 joins hjoins).2 key
  rw [hk, hj, meetAt?, meetOptions] at hat
  obtain ⟨m, hm, -⟩ := Option.map_eq_some_iff.1 hat
  exact ⟨m, hm⟩

/-- The pairs of joins that merge are those of their requests. -/
theorem Join.pairs_of_meet {k j m : Join} (hm : (k.meet j).result? = some m) :
    (k.meet j).pairs = (k.query.meet j.query).pairs := by
  obtain ⟨hhead, hquery⟩ := Join.meet_eq_some hm
  obtain ⟨key, kind, link, mergedLinks, query⟩ := j
  have hlinks : k.link.isBetweenSameTables link = true := by
    rw [JoinHead.merge?] at hhead
    split at hhead
    · assumption
    · cases hhead
  simp only [Join.meet, if_pos hlinks, Meeting.pairs_bind, hquery, Option.elim_some,
    Meeting.pairs_pure, List.append_nil]

/-- The pairs that a merge comes upon: that of the sources, and those of the joins under one key. -/
theorem Query.pairs_of_meet (hb : b.KeysDiffer) (hq : (a.meet b).result? = some q) :
    (a.meet b).pairs = pairOf a.source.alias? b.source.alias? ++ b.joins.flatMap fun j =>
      (Join.find? j.key a.joins).elim [] fun k => (k.query.meet j.query).pairs := by
  have hkeys := (b.keysDiffer_iff.1 hb).1
  obtain ⟨source, joins, hsource, hjoins, -⟩ := Query.meet_eq_some hq
  have hbelow : (b.joins.flatMap fun j =>
      (Join.find? j.key a.joins).elim [] fun k => (k.query.meet j.query).pairs) =
        (meetJoins a.joins b.joins).pairs := by
    rw [meetJoins_pairs hkeys hjoins]
    refine List.flatMap_congr fun j hj => ?_
    cases hk : Join.find? j.key a.joins with
    | none => rfl
    | some k =>
      obtain ⟨m, hm⟩ := Query.exists_meet_of_find? hb hq hk (Join.find?_of_mem hkeys hj)
      exact (Join.pairs_of_meet hm).symm
  rw [hbelow, ← (Source.meet_eq_some hsource).1]
  obtain ⟨source', clauses', joins', isQualified'⟩ := b
  simp only [Query.meet, Meeting.pairs_bind, hsource, hjoins, Option.elim_some, Meeting.pairs_pure,
    List.append_nil]

/-- Where only the join under one key adds to a list, the list is what it adds. -/
theorem Join.flatMap_eq_elim {β : Type} {joins : List Join} {key : String} {F : Join → List β}
    (hkeys : (joins.map (·.key)).Nodup) (hF : ∀ j ∈ joins, j.key ≠ key → F j = []) :
    joins.flatMap F = (find? key joins).elim [] F := by
  induction joins with
  | nil => rfl
  | cons j rest ih =>
    obtain ⟨hj, hrest⟩ := List.nodup_cons.1 hkeys
    obtain ⟨hFj, hF⟩ := List.forall_mem_cons.1 hF
    have ih := ih hrest hF
    rw [List.flatMap_cons, ih]
    by_cases hkey : key = j.key
    · subst hkey
      rw [find?_cons_self, find?_eq_none_iff_not_mem.2 hj]
      exact List.append_nil _
    · rw [find?_cons_of_ne hkey, hFj (Ne.symm hkey), List.nil_append]

section

variable {ι : Type} [DecidableEq ι] {part : Alias → ι} {tag : List String → ι}

/-- Pairs that are each at one place, and those at each place. The places are told apart by tags,
and an occurrence belongs to the part with the tag of its place. -/
structure ArePlaced (part : Alias → ι) (tag : List String → ι) (pairs : List (Alias × Alias))
    (pairsAt : List String → List (Alias × Alias)) : Prop where
  tagged : ∀ p ∈ pairs, ∃ path, part p.1 = tag path ∧ part p.2 = tag path
  filter_eq : ∀ path, pairs.filter (part ·.1 = tag path) = pairsAt path

/-- Pairs on top, and beneath each key pairs that are placed there. -/
theorem arePlaced_append {joins : List Join} {top : List (Alias × Alias)}
    {below : Join → List (Alias × Alias)} {pairsBelow : Join → List String → List (Alias × Alias)}
    (htag : tag.Injective) (hkeys : (joins.map (·.key)).Nodup)
    (htop : ∀ p ∈ top, part p.1 = tag [] ∧ part p.2 = tag [])
    (hbelow : ∀ j ∈ joins,
      ArePlaced part (fun path => tag (j.key :: path)) (below j) (pairsBelow j)) :
    ArePlaced part tag (top ++ joins.flatMap below) fun
      | [] => top
      | key :: path => (Join.find? key joins).elim [] fun j => pairsBelow j path := by
  refine ⟨fun p hp => ?_, fun path => ?_⟩
  · rcases List.mem_append.1 hp with hp | hp
    · exact ⟨[], htop p hp⟩
    · obtain ⟨j, hj, hp⟩ := List.mem_flatMap.1 hp
      obtain ⟨path, hpath⟩ := (hbelow j hj).tagged p hp
      exact ⟨j.key :: path, hpath⟩
  · rw [List.filter_append]
    cases path with
    | nil =>
      have hothers : (joins.flatMap below).filter (part ·.1 = tag []) = [] := by
        refine List.filter_eq_nil_iff.2 fun p hp => ?_
        obtain ⟨j, hj, hp⟩ := List.mem_flatMap.1 hp
        obtain ⟨path, hpath, -⟩ := (hbelow j hj).tagged p hp
        rw [decide_eq_true_eq, hpath]
        exact fun h => List.cons_ne_nil _ _ (htag h)
      rw [hothers, List.append_nil, List.filter_eq_self.2 fun p hp => by simp [(htop p hp).1]]
    | cons key path =>
      have hfirst : top.filter (part ·.1 = tag (key :: path)) = [] := by
        refine List.filter_eq_nil_iff.2 fun p hp => ?_
        rw [decide_eq_true_eq, (htop p hp).1]
        exact fun h => List.cons_ne_nil _ _ (htag h).symm
      have hothers : ∀ j ∈ joins, j.key ≠ key →
          (below j).filter (part ·.1 = tag (key :: path)) = [] := by
        intro j hj hkey
        refine List.filter_eq_nil_iff.2 fun p hp => ?_
        obtain ⟨path', hpath, -⟩ := (hbelow j hj).tagged p hp
        rw [decide_eq_true_eq, hpath]
        exact fun h => hkey (List.cons.inj (htag h)).1
      rw [hfirst, List.nil_append, List.filter_flatMap, Join.flatMap_eq_elim hkeys hothers]
      dsimp only
      cases hj : Join.find? key joins with
      | none => rfl
      | some j =>
        obtain rfl := Join.key_of_find? hj
        exact (hbelow j (List.mem_of_find?_eq_some hj)).filter_eq path

/-- **The pairs that a merge comes upon** are each at one place, and the one at a place is that of
the occurrences there. -/
theorem Query.meet_pairs_at (part : Alias → ι) : ∀ (b : Query) {a q : Query}
    {tag : List String → ι}, tag.Injective → b.KeysDiffer → (a.meet b).result? = some q →
      (∀ path x, a.aliasAt path = some x → part x = tag path) →
      (∀ path x, b.aliasAt path = some x → part x = tag path) →
      ArePlaced part tag (a.meet b).pairs fun path => pairOf (a.aliasAt path) (b.aliasAt path) := by
  refine Query.joinsInduction fun b ih => ?_
  intro a q tag htag hb hq ha' hb'
  obtain ⟨hkeys, hjoins⟩ := b.keysDiffer_iff.1 hb
  have htop : ∀ p ∈ pairOf a.source.alias? b.source.alias?,
      part p.1 = tag [] ∧ part p.2 = tag [] := by
    intro p hp
    obtain ⟨hx, hy⟩ := mem_pairOf.1 hp
    exact ⟨ha' [] p.1 hx, hb' [] p.2 hy⟩
  have hbelow : ∀ j ∈ b.joins, ArePlaced part (fun path => tag (j.key :: path))
      ((Join.find? j.key a.joins).elim [] fun k => (k.query.meet j.query).pairs)
      fun path => pairOf (a.aliasAt (j.key :: path)) (j.query.aliasAt path) := by
    intro j hj
    cases hk : Join.find? j.key a.joins with
    | none => exact ⟨fun p hp => absurd hp List.not_mem_nil, fun path => by rw [aliasAt, hk]; rfl⟩
    | some k =>
      have hfind := Join.find?_of_mem hkeys hj
      obtain ⟨m, hm⟩ := Query.exists_meet_of_find? hb hq hk hfind
      simp only [aliasAt, hk]
      have hinjective : (fun path => tag (j.key :: path)).Injective :=
        fun p p' h => (List.cons.inj (htag h)).2
      refine ih j hj hinjective (hjoins j hj) (Join.meet_eq_some hm).2 (fun path x hx => ?_)
        (fun path x hx => ?_)
      · exact ha' _ x (by rw [aliasAt, hk]; exact hx)
      · exact hb' _ x (by rw [aliasAt, hfind]; exact hx)
  have hplaced := arePlaced_append htag hkeys htop hbelow
  rw [Query.pairs_of_meet hb hq]
  refine ⟨hplaced.tagged, fun path => (hplaced.filter_eq path).trans ?_⟩
  cases path with
  | nil => rfl
  | cons key path =>
    simp only [aliasAt]
    cases hj : Join.find? key b.joins with
    | none => exact (pairOf_none_right _).symm
    | some j =>
      obtain rfl := Join.key_of_find? hj
      rfl

end

end

end SqlTree
