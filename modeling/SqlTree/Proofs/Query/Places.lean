import SqlTree.Proofs.Query.Meeting
import SqlTree.Proofs.Query.MergedLinks

/-!
# Requests place by place

The keys of joins lead from a request to each place in it. Merging two requests merges what they are
at each place where both have one, and leaves what only one of them has.

* `Query.joinsInduction` is induction from the requests of joins to the request.
* `Query.place?` is what a request is at a place, and `Place.merge?` merges two places.
* `Query.meet_places`: what a merge gives, if anything, is at each place the merge of what the two
  are there. `Query.meet_exists`: it gives something if the two merge at each place.
* `Query.meet_pairs_at`: the pairs of occurrences that a merge comes upon at one place.
-/

namespace SqlTree

/-! ## Joins by their keys -/

/-- What holds of a request when it holds of those of its joins holds of every request. -/
theorem Query.joinsInduction {P : Query → Prop}
    (step : ∀ q : Query, (∀ j ∈ q.joins, P j.query) → P q) (q : Query) : P q :=
  step q fun j _ => joinsInduction step j.query
termination_by sizeOf q
decreasing_by
  rename_i hj
  have hlt := List.sizeOf_lt_of_mem hj
  obtain ⟨source, clauses, joins, isQualified⟩ := q
  obtain ⟨key, kind, link, mergedLinks, query⟩ := j
  rw [Query.mk.sizeOf_spec]
  rw [Join.mk.sizeOf_spec] at hlt
  simp only at hlt ⊢
  omega

namespace Join

variable {key : String} {j k m : Join} {joins : List Join}

theorem find?_cons_self (j : Join) (joins : List Join) : find? j.key (j :: joins) = some j := by
  rw [find?, List.find?_cons, beq_self_eq_true]

theorem find?_cons_of_ne (h : key ≠ j.key) : find? key (j :: joins) = find? key joins := by
  rw [find?, List.find?_cons, beq_eq_false_iff_ne.2 h.symm, find?]

theorem find?_concat_of_ne (h : key ≠ j.key) : find? key (joins ++ [j]) = find? key joins := by
  rw [find?, List.find?_append, List.find?_cons, beq_eq_false_iff_ne.2 h.symm, List.find?_nil,
    Option.or_none, find?]

theorem find?_concat_self (h : find? j.key joins = none) :
    find? j.key (joins ++ [j]) = some j := by
  rw [find?] at h
  rw [find?, List.find?_append, h, List.find?_cons, beq_self_eq_true, Option.none_or]

theorem find?_replace_of_ne (h : key ≠ m.key) : find? key (m.replace joins) = find? key joins := by
  induction joins with
  | nil => rfl
  | cons j rest ih =>
    rw [replace]
    split
    · rename_i hkey
      rw [find?_cons_of_ne h, find?_cons_of_ne (hkey ▸ h)]
    · by_cases hj : key = j.key
      · subst hj
        rw [find?_cons_self, find?_cons_self]
      · rw [find?_cons_of_ne hj, find?_cons_of_ne hj, ih]

theorem find?_replace_self (h : find? m.key joins = some k) :
    find? m.key (m.replace joins) = some m := by
  induction joins with
  | nil => cases h
  | cons j rest ih =>
    rw [replace]
    split
    · exact find?_cons_self m rest
    · rename_i hkey
      rw [find?_cons_of_ne (Ne.symm hkey)] at h ⊢
      exact ih h

theorem find?_of_mem (h : (joins.map (·.key)).Nodup) (hj : j ∈ joins) :
    find? j.key joins = some j := by
  induction joins with
  | nil => cases hj
  | cons i rest ih =>
    obtain ⟨hi, hrest⟩ := List.nodup_cons.1 h
    rcases List.mem_cons.1 hj with rfl | hj
    · exact find?_cons_self j rest
    · have hne : j.key ≠ i.key := fun hkey => hi (List.mem_map.2 ⟨j, hj, hkey⟩)
      rw [find?_cons_of_ne hne, ih hrest hj]

theorem find?_eq_none_iff_not_mem : find? key joins = none ↔ key ∉ joins.map (·.key) := by
  rw [find?_eq_none_iff]
  simp

/-- A merged join keeps its key. -/
theorem key_of_meet (h : (k.meet j).result? = some m) : m.key = k.key := by
  obtain ⟨key, kind, link, mergedLinks, query⟩ := j
  rw [meet] at h
  split at h
  · rw [Meeting.result?_bind] at h
    obtain ⟨q, -, h⟩ := Option.bind_eq_some_iff.1 h
    obtain rfl := Option.some.inj h
    rfl
  · cases h

end Join

/-- Two things that may be there come to what they merge into, or to the one that is there. They
come to nothing if they don't merge. -/
def meetOptions {α : Type} (merge? : α → α → Option α) : Option α → Option α → Option (Option α)
  | some a, some b => (merge? a b).map some
  | some a, none => some (some a)
  | none, b? => some b?

/-- What two joins come to that there may be under one key. -/
def meetAt? : Option Join → Option Join → Option (Option Join) :=
  meetOptions fun k j => (k.meet j).result?

theorem meetAt?_none_right (k? : Option Join) : meetAt? k? none = some k? := by
  cases k? <;> rfl

section

variable {mine more joins : List Join}

/-- One join more is merged with the one under its key. -/
theorem meetAt?_step {j m : Join} {mine' : List Join} (hj : j.key ∉ more.map (·.key))
    (hself : Join.find? j.key mine' = some m)
    (hmeet : meetAt? (Join.find? j.key mine) (some j) = some (some m))
    (hothers : ∀ key, key ≠ j.key → Join.find? key mine' = Join.find? key mine) (key : String) :
    meetAt? (Join.find? key mine') (Join.find? key more) =
      meetAt? (Join.find? key mine) (Join.find? key (j :: more)) := by
  by_cases hkey : key = j.key
  · subst hkey
    rw [hself, Join.find?_eq_none_iff_not_mem.2 hj, Join.find?_cons_self, hmeet, meetAt?_none_right]
  · rw [hothers key hkey, Join.find?_cons_of_ne hkey]

/-- **What merging joins gives**, if anything: the keys of the one request and the new ones of the
other, and under each key what the two have there, merged. It gives something just when the joins
under each key merge. -/
theorem meetJoins_result (hkeys : (more.map (·.key)).Nodup) :
    ((meetJoins mine more).result?.isSome ↔
      ∀ key, (meetAt? (Join.find? key mine) (Join.find? key more)).isSome) ∧
    ∀ out, (meetJoins mine more).result? = some out →
      out.map (·.key) = mine.map (·.key) ++ (more.map (·.key)).filter (· ∉ mine.map (·.key)) ∧
      ∀ key, meetAt? (Join.find? key mine) (Join.find? key more) = some (Join.find? key out) := by
  induction more generalizing mine with
  | nil =>
    rw [meetJoins]
    refine ⟨iff_of_true rfl fun key => ?_, fun out hout => ?_⟩
    · rw [Join.find?, Join.find?, List.find?_nil, meetAt?_none_right]
      rfl
    · obtain rfl := Option.some.inj hout
      exact ⟨(List.append_nil _).symm, fun key => meetAt?_none_right _⟩
  | cons j rest ih =>
    obtain ⟨hj, hrest⟩ := List.nodup_cons.1 hkeys
    -- With the first join merged into `mine` the rest goes on, and `mine` has the same keys, or one
    -- more at its end.
    have hgo : ∀ {mine' : List Join} {m : Join}, Join.find? j.key mine' = some m →
        meetAt? (Join.find? j.key mine) (some j) = some (some m) →
        (∀ key, key ≠ j.key → Join.find? key mine' = Join.find? key mine) →
        (mine'.map (·.key) ++ (rest.map (·.key)).filter (· ∉ mine'.map (·.key)) =
          mine.map (·.key) ++ ((j :: rest).map (·.key)).filter (· ∉ mine.map (·.key))) →
        ((meetJoins mine' rest).result?.isSome ↔
          ∀ key, (meetAt? (Join.find? key mine) (Join.find? key (j :: rest))).isSome) ∧
        ∀ out, (meetJoins mine' rest).result? = some out →
          out.map (·.key) =
            mine.map (·.key) ++ ((j :: rest).map (·.key)).filter (· ∉ mine.map (·.key)) ∧
          ∀ key, meetAt? (Join.find? key mine) (Join.find? key (j :: rest)) =
            some (Join.find? key out) := by
      intro mine' m hself hmeet hothers hnames
      have hstep := meetAt?_step hj hself hmeet hothers
      obtain ⟨hsome, hout⟩ := @ih mine' hrest
      simp only [hstep] at hsome hout
      exact ⟨hsome, fun out h => ⟨(hout out h).1.trans hnames, (hout out h).2⟩⟩
    rw [meetJoins]
    cases hfind : Join.find? j.key mine with
    | none =>
      refine hgo (Join.find?_concat_self hfind) (by rw [hfind]; rfl)
        (fun key hkey => Join.find?_concat_of_ne hkey) ?_
      have hnew := Join.find?_eq_none_iff_not_mem.1 hfind
      have hothers : (rest.map (·.key)).filter (· ∉ (mine ++ [j]).map (·.key)) =
          (rest.map (·.key)).filter (· ∉ mine.map (·.key)) := by
        refine List.filter_congr fun key hkey => ?_
        have hne : key ≠ j.key := by
          rintro rfl
          exact hj hkey
        simp [hne]
      rw [hothers, List.map_cons, List.filter_cons_of_pos (by simpa using hnew), List.map_append,
        List.map_singleton, List.append_assoc, List.singleton_append]
    | some k =>
      have hkey : k.key = j.key := Join.key_of_find? hfind
      simp only [Meeting.result?_bind]
      cases hmeet : (k.meet j).result? with
      | none =>
        refine ⟨iff_of_false (by simp) fun hall => ?_, fun out hout => by cases hout⟩
        have hat := hall j.key
        rw [hfind, Join.find?_cons_self, meetAt?, meetOptions, hmeet] at hat
        cases hat
      | some m =>
        have hm : m.key = j.key := (Join.key_of_meet hmeet).trans hkey
        have hat : meetAt? (Join.find? j.key mine) (some j) = some (some m) := by
          rw [hfind, meetAt?, meetOptions, hmeet]
          rfl
        rw [← hm] at hfind
        rw [Option.bind_some]
        refine hgo (hm ▸ Join.find?_replace_self hfind) hat
          (fun key hne => Join.find?_replace_of_ne (hm ▸ hne)) ?_
        have hmem : j.key ∈ mine.map (·.key) :=
          List.mem_map.2 ⟨k, List.mem_of_find?_eq_some hfind, hkey⟩
        rw [Join.map_key_replace, List.map_cons, List.filter_cons_of_neg (by simpa using hmem)]

/-- What holds of all joins, and of what two of them merge into, holds of all merged joins. -/
theorem meetJoins_forall {P : Join → Prop} (hmine : ∀ k ∈ mine, P k) (hmore : ∀ j ∈ more, P j)
    (hmeet : ∀ j ∈ more, ∀ k m, P k → (k.meet j).result? = some m → P m)
    (h : (meetJoins mine more).result? = some joins) : ∀ m ∈ joins, P m := by
  induction more generalizing mine with
  | nil =>
    obtain rfl := Option.some.inj h
    exact hmine
  | cons j rest ih =>
    obtain ⟨hj, hrest⟩ := List.forall_mem_cons.1 hmore
    obtain ⟨hmeetj, hmeet⟩ := List.forall_mem_cons.1 hmeet
    rw [meetJoins] at h
    cases hfind : Join.find? j.key mine with
    | none =>
      rw [hfind] at h
      exact ih (List.forall_mem_append.2 ⟨hmine, by simpa using hj⟩) hrest hmeet h
    | some k =>
      simp only [hfind, Meeting.result?_bind] at h
      obtain ⟨m, hm, h⟩ := Option.bind_eq_some_iff.1 h
      have hk := hmine k (List.mem_of_find?_eq_some hfind)
      exact ih (Join.forall_replace hmine (hmeetj k m hk hm)) hrest hmeet h

/-- The pairs that merging joins comes upon are those of the joins under one key. -/
theorem meetJoins_pairs (hkeys : (more.map (·.key)).Nodup)
    (h : (meetJoins mine more).result? = some joins) : (meetJoins mine more).pairs =
      more.flatMap fun j => (Join.find? j.key mine).elim [] fun k => (k.meet j).pairs := by
  induction more generalizing mine with
  | nil => rfl
  | cons j rest ih =>
    obtain ⟨hj, hrest⟩ := List.nodup_cons.1 hkeys
    have hothers : ∀ {mine' : List Join},
        (∀ key, key ≠ j.key → Join.find? key mine' = Join.find? key mine) →
        (rest.flatMap fun j => (Join.find? j.key mine').elim [] fun k => (k.meet j).pairs) =
          rest.flatMap fun j => (Join.find? j.key mine).elim [] fun k => (k.meet j).pairs := by
      intro mine' hsame
      refine List.flatMap_congr fun j' hj' => ?_
      rw [hsame]
      exact fun hkey => hj (List.mem_map.2 ⟨j', hj', hkey⟩)
    rw [meetJoins] at h ⊢
    rw [List.flatMap_cons]
    cases hfind : Join.find? j.key mine with
    | none =>
      rw [hfind] at h
      simp only
      rw [ih hrest h, hothers fun key hkey => Join.find?_concat_of_ne hkey]
      rfl
    | some k =>
      simp only [hfind, Meeting.result?_bind] at h
      obtain ⟨m, hm, h⟩ := Option.bind_eq_some_iff.1 h
      have hkey : m.key = j.key := (Join.key_of_meet hm).trans (Join.key_of_find? hfind)
      simp only [Meeting.pairs_bind, hm]
      rw [Option.elim_some, ih hrest h,
        hothers fun key hne => Join.find?_replace_of_ne (hkey ▸ hne), Option.elim_some]

end

/-! ## Places -/

/-- Links with more links behind them: each that is written in another way than the own link, and
once. -/
def linksFrom (own : JoinLink) (links more : List JoinLink) : List JoinLink :=
  more.foldl (fun links l => if l = own ∨ l ∈ links then links else links ++ [l]) links

/-- How a request is joined. -/
structure JoinHead where
  kind : JoinKind
  link : JoinLink
  mergedLinks : List JoinLink

/-- How a join is joined. -/
def Join.head (j : Join) : JoinHead := ⟨j.kind, j.link, j.mergedLinks⟩

/-- How two requests on one association are joined as one. -/
def JoinHead.merge? (h h' : JoinHead) : Option JoinHead :=
  if h.link.isBetweenSameTables h'.link then
    some ⟨h.kind.merge h'.kind, h.link, linksFrom h.link h.mergedLinks (h'.link :: h'.mergedLinks)⟩
  else none

/-- What a request is at one place: how it is joined there, unless it stands on top, its source, its
clauses and the keys of its joins. -/
structure Place where
  head? : Option JoinHead
  source : Source
  clauses : Clauses
  keys : List String
  isQualified : Bool

/-- What two requests at one place are together. -/
def Place.merge? (p r : Place) : Option Place := do
  let head? ← meetOptions JoinHead.merge? p.head? r.head?
  let source ← (p.source.meet r.source).result?
  return ⟨head?, source, p.clauses.merge r.clauses,
    p.keys ++ r.keys.filter (· ∉ p.keys), false⟩

/-- What a request is on top, when it is joined in the given way. -/
def Query.top (head? : Option JoinHead) (q : Query) : Place :=
  ⟨head?, q.source, q.clauses, q.joins.map (·.key), q.isQualified⟩

/-- What a request is at the place that keys of joins lead to, if it is there. -/
def Query.place? (head? : Option JoinHead) (q : Query) : List String → Option Place
  | [] => some (q.top head?)
  | key :: path => (Join.find? key q.joins).bind fun j => place? (some j.head) j.query path

/-- What two requests come to at one place. -/
def meetPlaces? : Option Place → Option Place → Option (Option Place) := meetOptions Place.merge?

theorem meetPlaces?_none_right (p? : Option Place) : meetPlaces? p? none = some p? := by
  cases p? <;> rfl

section

variable {h? h?' m? : Option JoinHead} {k j m : Join} {a b q : Query}

/-- A merged join is joined as the two are together, and is the merge of their requests. -/
theorem Join.meet_eq_some (h : (k.meet j).result? = some m) :
    k.head.merge? j.head = some m.head ∧ (k.query.meet j.query).result? = some m.query := by
  obtain ⟨key, kind, link, mergedLinks, query⟩ := j
  rw [meet] at h
  split at h
  · rename_i hlinks
    rw [Meeting.result?_bind] at h
    obtain ⟨q, hq, h⟩ := Option.bind_eq_some_iff.1 h
    obtain rfl := Option.some.inj h
    exact ⟨if_pos hlinks, hq⟩
  · cases h

theorem Join.exists_meet (hhead : (k.head.merge? j.head).isSome)
    (hquery : (k.query.meet j.query).result?.isSome) : (k.meet j).result?.isSome := by
  obtain ⟨key, kind, link, mergedLinks, query⟩ := j
  obtain ⟨q, hq⟩ := Option.isSome_iff_exists.1 hquery
  rw [JoinHead.merge?] at hhead
  split at hhead
  · rename_i hlinks
    have hlinks : k.link.isBetweenSameTables link = true := hlinks
    have hq : (k.query.meet query).result? = some q := hq
    rw [meet, if_pos hlinks, Meeting.result?_bind, hq]
    rfl
  · cases hhead

theorem Query.meet_eq_some (h : (a.meet b).result? = some q) : ∃ source joins,
    (a.source.meet b.source).result? = some source ∧
      (meetJoins a.joins b.joins).result? = some joins ∧
      q = ⟨source, a.clauses.merge b.clauses, joins, false⟩ := by
  obtain ⟨source, clauses, joins, isQualified⟩ := b
  rw [meet] at h
  simp only [Meeting.result?_bind] at h
  obtain ⟨source', hsource, h⟩ := Option.bind_eq_some_iff.1 h
  obtain ⟨joins', hjoins, h⟩ := Option.bind_eq_some_iff.1 h
  exact ⟨source', joins', hsource, hjoins, (Option.some.inj h).symm⟩

theorem Query.exists_meet (hsource : (a.source.meet b.source).result?.isSome)
    (hjoins : (meetJoins a.joins b.joins).result?.isSome) : (a.meet b).result?.isSome := by
  obtain ⟨source, clauses, joins, isQualified⟩ := b
  obtain ⟨source', hsource⟩ := Option.isSome_iff_exists.1 hsource
  obtain ⟨joins', hjoins⟩ := Option.isSome_iff_exists.1 hjoins
  rw [meet]
  simp only [Meeting.result?_bind, hsource, Option.bind_some, hjoins]
  rfl

/-- The requests merge at every place. -/
def Query.MeetsAt (a b : Query) (h? h?' : Option JoinHead) : Prop :=
  ∀ path, (meetPlaces? (a.place? h? path) (b.place? h?' path)).isSome

/-- **What a merge gives** is at every place what the two requests come to there. -/
theorem Query.meet_places : ∀ (b : Query) {a q : Query} {h? h?' m? : Option JoinHead},
    b.KeysDiffer → (a.meet b).result? = some q →
      meetOptions JoinHead.merge? h? h?' = some m? →
      ∀ path, meetPlaces? (a.place? h? path) (b.place? h?' path) = some (q.place? m? path) := by
  refine Query.joinsInduction fun b ih => ?_
  intro a q h? h?' m? hb hq hheads path
  obtain ⟨hkeys, hbelow⟩ := b.keysDiffer_iff.1 hb
  obtain ⟨source, joins, hsource, hjoins, rfl⟩ := Query.meet_eq_some hq
  obtain ⟨hnames, hat⟩ := (meetJoins_result hkeys).2 joins hjoins
  cases path with
  | nil =>
    have htop : (a.top h?).merge? (b.top h?') =
        some (Query.top m? ⟨source, a.clauses.merge b.clauses, joins, false⟩) := by
      simp only [Place.merge?, Query.top, hheads, hsource, hnames]
      rfl
    change ((a.top h?).merge? (b.top h?')).map some = _
    rw [htop]
    rfl
  | cons key path =>
    have hat := hat key
    simp only [Query.place?]
    cases hk : Join.find? key a.joins with
    | none =>
      rw [hk] at hat
      rw [← Option.some.inj hat]
      rfl
    | some k =>
      cases hj : Join.find? key b.joins with
      | none =>
        rw [hk, hj, meetAt?_none_right] at hat
        rw [← Option.some.inj hat, Option.bind_none, meetPlaces?_none_right]
      | some j =>
        rw [hk, hj, meetAt?, meetOptions] at hat
        obtain ⟨m, hm, hfind⟩ := Option.map_eq_some_iff.1 hat
        obtain ⟨hhead, hquery⟩ := Join.meet_eq_some hm
        have hmem := List.mem_of_find?_eq_some hj
        rw [← hfind]
        simp only [Option.bind_some]
        refine ih j hmem (hbelow j hmem) hquery ?_ path
        rw [meetOptions, hhead]
        rfl

/-- **A merge gives something** if the two requests merge at every place. -/
theorem Query.meet_exists : ∀ (b : Query) {a : Query} {h? h?' : Option JoinHead},
    b.KeysDiffer → a.MeetsAt b h? h?' → (a.meet b).result?.isSome := by
  refine Query.joinsInduction fun b ih => ?_
  intro a h? h?' hb hmeets
  obtain ⟨hkeys, hbelow⟩ := b.keysDiffer_iff.1 hb
  refine Query.exists_meet ?_ ((meetJoins_result hkeys).1.2 fun key => ?_)
  · have htop := hmeets []
    simp only [Query.place?, meetPlaces?, meetOptions, Place.merge?, Option.isSome_map] at htop
    obtain ⟨p, hp⟩ := Option.isSome_iff_exists.1 htop
    obtain ⟨_, -, hp⟩ := Option.bind_eq_some_iff.1 hp
    obtain ⟨source, hsource, -⟩ := Option.bind_eq_some_iff.1 hp
    exact Option.isSome_iff_exists.2 ⟨source, hsource⟩
  · cases hk : Join.find? key a.joins with
    | none => rfl
    | some k =>
      cases hj : Join.find? key b.joins with
      | none => rfl
      | some j =>
        have hbeneath : k.query.MeetsAt j.query (some k.head) (some j.head) := by
          intro path
          have hpath := hmeets (key :: path)
          simpa only [Query.place?, hk, hj, Option.bind_some] using hpath
        have hhead : (k.head.merge? j.head).isSome := by
          have htop := hbeneath []
          simp only [Query.place?, Query.top, meetPlaces?, meetOptions, Place.merge?,
            Option.isSome_map] at htop
          obtain ⟨p, hp⟩ := Option.isSome_iff_exists.1 htop
          obtain ⟨_, hheads, -⟩ := Option.bind_eq_some_iff.1 hp
          obtain ⟨h, hh, -⟩ := Option.map_eq_some_iff.1 hheads
          exact Option.isSome_iff_exists.2 ⟨h, hh⟩
        have hmem := List.mem_of_find?_eq_some hj
        rw [meetAt?, meetOptions, Option.isSome_map]
        exact Join.exists_meet hhead (ih j hmem (hbelow j hmem) hbeneath)

/-- Merging keeps keys apart. -/
theorem Query.meet_keysDiffer : ∀ (b : Query) {a q : Query}, a.KeysDiffer → b.KeysDiffer →
    (a.meet b).result? = some q → q.KeysDiffer := by
  refine Query.joinsInduction fun b ih => ?_
  intro a q ha hb hq
  obtain ⟨hkeys, hbelow⟩ := b.keysDiffer_iff.1 hb
  obtain ⟨hkeys', hbelow'⟩ := a.keysDiffer_iff.1 ha
  obtain ⟨source, joins, -, hjoins, rfl⟩ := Query.meet_eq_some hq
  refine (Query.keysDiffer_iff _).2 ⟨?_, ?_⟩
  · change (joins.map (·.key)).Nodup
    rw [((meetJoins_result hkeys).2 joins hjoins).1]
    refine hkeys'.append (hkeys.filter _) fun key hkey hnew => ?_
    simp only [List.mem_filter, decide_eq_true_eq] at hnew
    exact hnew.2 hkey
  · refine meetJoins_forall (P := fun j => j.query.KeysDiffer) hbelow' hbelow ?_ hjoins
    intro j hj k m hk hm
    exact ih j hj hk (hbelow j hj) (Join.meet_eq_some hm).2

end

end SqlTree
