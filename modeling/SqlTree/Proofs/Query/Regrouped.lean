import SqlTree.Proofs.Query.PlacedPairs
import SqlTree.Proofs.Statement.Flat

/-!
# Three requests

Three requests are merged by merging the first two and the third into what comes out, or the first
and what comes out of the last two. At each place the one merge gives what the other one gives: how
requests are joined, their sources and their clauses come to the same. Only orders are nested in
another way, so it is the flat requests that are the same.

* `AssocUpTo` says that three things merge the same, whichever two are merged first, up to a view.
  `Place.merge?_assoc` says so of places.
* `Query.flat_eq_of_places`: requests with the same flat places are the same flat request.
* `Query.meet_regroup`: one merge gives something if the other one does, and the flat request is the
  same.
-/

namespace SqlTree

/-- Merging three things comes to the same, as far as the view goes, whichever two are merged first.
-/
def AssocUpTo {α β : Type} (merge? : α → α → Option α) (view : α → β) : Prop :=
  ∀ a b c, ((merge? a b).bind (merge? · c)).map view = ((merge? b c).bind (merge? a)).map view

theorem AssocUpTo.meetOptions {α β : Type} {merge? : α → α → Option α} {view : α → β}
    (h : AssocUpTo merge? view) : AssocUpTo (meetOptions merge?) (Option.map view) := by
  intro a? b? c?
  cases a? with
  | none =>
    change (SqlTree.meetOptions merge? b? c?).map _ =
      ((SqlTree.meetOptions merge? b? c?).bind some).map _
    cases SqlTree.meetOptions merge? b? c? <;> rfl
  | some a =>
    cases b? with
    | none => rfl
    | some b =>
      cases c? with
      | none =>
        change (((merge? a b).map some).bind (SqlTree.meetOptions merge? · none)).map _ =
          ((merge? a b).map some).map _
        cases merge? a b <;> rfl
      | some c =>
        have hleft : ((merge? a b).map some).bind (SqlTree.meetOptions merge? · (some c)) =
            ((merge? a b).bind (merge? · c)).map some := by
          cases merge? a b <;> rfl
        have hright : ((merge? b c).map some).bind (SqlTree.meetOptions merge? (some a)) =
            ((merge? b c).bind (merge? a)).map some := by
          cases merge? b c <;> rfl
        have hsome := congrArg (Option.map some) (h a b c)
        rw [SqlTree.meetOptions, hleft, SqlTree.meetOptions, hright]
        simp only [Option.map_map] at hsome ⊢
        exact hsome

/-! ## Clauses -/

theorem mergeWith_assoc {α : Type} {combine : α → α → α}
    (h : ∀ a b c, combine (combine a b) c = combine a (combine b c)) (a? b? c? : Option α) :
    mergeWith combine (mergeWith combine a? b?) c? =
      mergeWith combine a? (mergeWith combine b? c?) := by
  cases a? with
  | none => rfl
  | some a =>
    cases b? with
    | none => rfl
    | some b =>
      cases c? with
      | none => rfl
      | some c => exact congrArg some (h a b c)

theorem Lookup.zipWith_assoc {α : Type} {combine : α → α → α}
    (h : ∀ a b c, combine (combine a b) c = combine a (combine b c)) (x y z : Lookup α) :
    zipWith combine (zipWith combine x y) z = zipWith combine x (zipWith combine y z) := by
  refine congrArg mk (funext fun db => ?_)
  simp only [resolve_zipWith]
  cases x.resolve db with
  | error e => rfl
  | ok a =>
    cases y.resolve db with
    | error e => rfl
    | ok b =>
      cases z.resolve db with
      | error e => rfl
      | ok c => exact congrArg Except.ok (h a b c)

theorem Expr.and_assoc {ρ : Type} (a b c : Expr ρ) : (a.and b).and c = a.and (b.and c) := by
  simp only [Expr.and, conjuncts, List.append_assoc]

/-- Clauses of three requests come to the same, but for how orders are nested. -/
theorem Clauses.flat_merge_assoc (a b c : Clauses) :
    ((a.merge b).merge c).flat = (a.merge (b.merge c)).flat := by
  have hselection : ((a.merge b).merge c).selection = (a.merge (b.merge c)).selection := by
    simp only [merge]
    by_cases hc : c.selection.isEmpty <;> simp [hc]
  have hgroup : ((a.merge b).merge c).group? = (a.merge (b.merge c)).group? := by
    simp only [merge]
    cases c.group? <;> rfl
  have hlimit : ((a.merge b).merge c).limit? = (a.merge (b.merge c)).limit? := by
    simp only [merge]
    cases c.limit? <;> rfl
  rw [flat, flat, hselection, hgroup, hlimit]
  simp only [merge, Bool.or_assoc, mergeWith_assoc (Lookup.zipWith_assoc Expr.and_assoc),
    mergeWith_assoc Expr.and_assoc, SortOrder.flat_followedBy_assoc]

/-! ## Joins and sources -/

section

variable {own l : JoinLink} {links more : List JoinLink}

theorem linksFrom_append (own : JoinLink) (links more more' : List JoinLink) :
    linksFrom own links (more ++ more') = linksFrom own (linksFrom own links more) more' :=
  List.foldl_append

theorem mem_linksFrom_of_mem (h : l ∈ links) : l ∈ linksFrom own links more := by
  induction more generalizing links with
  | nil => exact h
  | cons l' more ih =>
    rw [linksFrom, List.foldl_cons]
    refine ih ?_
    split
    · exact h
    · exact List.mem_append_left _ h

/-- Links that are behind a link are there in the end, but for the own one. -/
theorem mem_linksFrom (h : l ∈ more) : l = own ∨ l ∈ linksFrom own links more := by
  induction more generalizing links with
  | nil => cases h
  | cons l' more ih =>
    rw [linksFrom, List.foldl_cons]
    rcases List.mem_cons.1 h with rfl | h
    · split
      · rename_i hor
        exact hor.imp_right mem_linksFrom_of_mem
      · exact .inr (mem_linksFrom_of_mem (List.mem_append_right _ List.mem_cons_self))
    · exact ih h

theorem linksFrom_cons (own l : JoinLink) (links more : List JoinLink) :
    linksFrom own links (l :: more) =
      linksFrom own (if l = own ∨ l ∈ links then links else links ++ [l]) more := rfl

/-- A link that is there already changes nothing. -/
theorem linksFrom_append_cons (h : l ∈ links) (start more : List JoinLink) :
    linksFrom own start (links ++ l :: more) = linksFrom own start (links ++ more) := by
  rw [linksFrom_append, linksFrom_append, linksFrom_cons, if_pos (mem_linksFrom h)]

/-- Links that were gathered behind a link are gathered as if they had not been. -/
theorem linksFrom_linksFrom (own own' : JoinLink) (links links' more : List JoinLink) :
    linksFrom own links (own' :: linksFrom own' links' more) =
      linksFrom own links (own' :: (links' ++ more)) := by
  induction more generalizing links' with
  | nil => rw [List.append_nil, linksFrom.eq_1 own', List.foldl_nil]
  | cons l more ih =>
    rw [linksFrom_cons own', ih]
    split
    · rename_i hor
      have hmem : l ∈ own' :: links' := List.mem_cons.2 hor
      exact (linksFrom_append_cons hmem links more).symm
    · rw [List.append_assoc, List.singleton_append]

end

theorem JoinKind.merge_assoc (a b c : JoinKind) : (a.merge b).merge c = a.merge (b.merge c) := by
  cases a <;> cases b <;> cases c <;> rfl

theorem JoinHead.merge?_eq_some {h h' m : JoinHead} : h.merge? h' = some m ↔
    h.link.isBetweenSameTables h'.link = true ∧ m = ⟨h.kind.merge h'.kind, h.link,
      linksFrom h.link h.mergedLinks (h'.link :: h'.mergedLinks)⟩ := by
  rw [merge?]
  split
  · rename_i hlinks
    simp [hlinks, eq_comm]
  · rename_i hlinks
    simp [hlinks]

theorem JoinHead.merge?_assoc : AssocUpTo JoinHead.merge? id := by
  intro a b c
  rw [Option.map_id_apply, Option.map_id_apply]
  ext m
  simp only [Option.bind_eq_some_iff, JoinHead.merge?_eq_some]
  constructor
  · rintro ⟨_, ⟨hab, rfl⟩, hac, rfl⟩
    refine ⟨_, ⟨?_, rfl⟩, hab, ?_⟩
    · exact JoinLink.isBetweenSameTables_trans (JoinLink.isBetweenSameTables_symm hab) hac
    · simp only [JoinKind.merge_assoc, linksFrom_linksFrom, ← linksFrom_append, List.cons_append]
  · rintro ⟨_, ⟨hbc, rfl⟩, hab, rfl⟩
    refine ⟨_, ⟨hab, rfl⟩, JoinLink.isBetweenSameTables_trans hab hbc, ?_⟩
    simp only [JoinKind.merge_assoc, linksFrom_linksFrom, ← linksFrom_append, List.cons_append]

/-- Three sources come to the same. -/
theorem Source.meet_assoc : AssocUpTo (fun s s' : Source => (s.meet s').result?) id := by
  intro a b c
  rw [Option.map_id_apply, Option.map_id_apply]
  ext t
  simp only [Option.bind_eq_some_iff, Source.meet_eq_some_iff]
  constructor
  · rintro ⟨_, ⟨name, name', x, y, rfl, rfl, hab, rfl⟩, _, name'', _, z, ⟨⟩, rfl, hac, rfl⟩
    refine ⟨_, ⟨name', name'', y, z, rfl, rfl, ?_, rfl⟩, name, name', x, _, rfl, rfl, hab, ?_⟩
    · rw [Text.sameName_iff] at hab hac ⊢
      exact hab.symm.trans hac
    · cases x <;> rfl
  · rintro ⟨_, ⟨name', name'', y, z, rfl, rfl, hbc, rfl⟩, name, _, x, _, rfl, ⟨⟩, hab, rfl⟩
    refine ⟨_, ⟨name, name', x, y, rfl, rfl, hab, rfl⟩, name, name'', _, z, rfl, rfl, ?_, ?_⟩
    · rw [Text.sameName_iff] at hab hbc ⊢
      exact hab.trans hbc
    · cases x <;> rfl

/-! ## Places -/

/-- The place with a flat order. -/
def Place.flat (p : Place) : Place := { p with clauses := p.clauses.flat }

theorem Place.merge?_eq (p r : Place) : p.merge? r =
    (meetOptions JoinHead.merge? p.head? r.head?).bind fun head? =>
      (p.source.meet r.source).result?.bind fun source =>
        some ⟨head?, source, p.clauses.merge r.clauses, p.keys ++ r.keys.filter (· ∉ p.keys),
          false⟩ := rfl

/-- Two steps of two things each are done for the one and then for the other. -/
theorem bind_bind_comm {α β α' β' γ : Type} (x : Option α) (y : Option β) (k : α → Option α')
    (l : β → Option β') (F : α' → β' → γ) :
    (x.bind fun a => y.bind fun b => (k a).bind fun a' => (l b).bind fun b' => some (F a' b')) =
      (x.bind k).bind fun a' => (y.bind l).bind fun b' => some (F a' b') := by
  cases x with
  | none => rfl
  | some a =>
    cases y with
    | none =>
      simp only [Option.bind_some, Option.bind_none]
      cases k a <;> rfl
    | some b => rfl

/-- New keys of the second and then of the third request are those of both that are new. -/
theorem keys_assoc (p r s : List String) :
    (p ++ r.filter (· ∉ p)) ++ s.filter (· ∉ p ++ r.filter (· ∉ p)) =
      p ++ (r ++ s.filter (· ∉ r)).filter (· ∉ p) := by
  rw [List.append_assoc, List.filter_append, List.filter_filter]
  refine congrArg (fun more => p ++ (r.filter (· ∉ p) ++ more)) (List.filter_congr fun key _ => ?_)
  by_cases hp : key ∈ p <;> simp [hp]

/-- **Three places merge the same**, whichever two are merged first. -/
theorem Place.merge?_assoc : AssocUpTo Place.merge? Place.flat := by
  intro p r s
  have hheads := JoinHead.merge?_assoc.meetOptions p.head? r.head? s.head?
  have hsources := Source.meet_assoc p.source r.source s.source
  rw [Option.map_id, Option.map_id_apply, Option.map_id_apply] at hheads
  rw [Option.map_id_apply, Option.map_id_apply] at hsources
  have hleft : (p.merge? r).bind (·.merge? s) =
      ((meetOptions JoinHead.merge? p.head? r.head?).bind
        (meetOptions JoinHead.merge? · s.head?)).bind fun head? =>
      ((p.source.meet r.source).result?.bind fun t => (t.meet s.source).result?).bind
        fun source => some ⟨head?, source, (p.clauses.merge r.clauses).merge s.clauses,
          (p.keys ++ r.keys.filter (· ∉ p.keys)) ++
            s.keys.filter (· ∉ p.keys ++ r.keys.filter (· ∉ p.keys)), false⟩ := by
    rw [← bind_bind_comm, merge?_eq]
    simp only [Option.bind_assoc, Option.bind_some]
    rfl
  have hright : (r.merge? s).bind p.merge? =
      ((meetOptions JoinHead.merge? r.head? s.head?).bind
        (meetOptions JoinHead.merge? p.head? ·)).bind fun head? =>
      ((r.source.meet s.source).result?.bind fun t => (p.source.meet t).result?).bind
        fun source => some ⟨head?, source, p.clauses.merge (r.clauses.merge s.clauses),
          p.keys ++ (r.keys ++ s.keys.filter (· ∉ r.keys)).filter (· ∉ p.keys), false⟩ := by
    rw [← bind_bind_comm, merge?_eq]
    simp only [Option.bind_assoc, Option.bind_some]
    rfl
  rw [hleft, hright, hheads, hsources, Option.map_bind, Option.map_bind]
  refine congrArg (Option.bind _) (funext fun head? => ?_)
  change Option.map flat (Option.bind _ _) = Option.map flat (Option.bind _ _)
  rw [Option.map_bind, Option.map_bind]
  refine congrArg (Option.bind _) (funext fun source => ?_)
  change some (flat _) = some (flat _)
  simp only [flat, Clauses.flat_merge_assoc, keys_assoc]

/-! ## Requests -/

/-- Joins under the same keys in the same order that are the same flat joins. -/
theorem map_flat_eq {joins joins' : List Join} (hkeys : joins.map (·.key) = joins'.map (·.key))
    (hflat : ∀ j ∈ joins, ∀ j' ∈ joins', j.key = j'.key → j.flat = j'.flat) :
    joins.map (·.flat) = joins'.map (·.flat) := by
  induction joins generalizing joins' with
  | nil => rw [List.map_eq_nil_iff.1 hkeys.symm]
  | cons j rest ih =>
    cases joins' with
    | nil => cases hkeys
    | cons j' rest' =>
      obtain ⟨hkey, hrest⟩ := List.cons.inj hkeys
      rw [List.map_cons, List.map_cons,
        hflat j List.mem_cons_self j' List.mem_cons_self hkey,
        ih hrest fun k hk k' hk' => hflat k (.tail _ hk) k' (.tail _ hk')]

/-- **Requests with the same flat places** are the same flat request. -/
theorem Query.flat_eq_of_places : ∀ (q : Query) {q' : Query} {h? h?' : Option JoinHead},
    q.KeysDiffer → q'.KeysDiffer →
      (∀ path, (q.place? h? path).map Place.flat = (q'.place? h?' path).map Place.flat) →
      q.flat = q'.flat := by
  refine Query.joinsInduction fun q ih => ?_
  intro q' h? h?' hq hq' hplaces
  obtain ⟨hkeys, hbelow⟩ := q.keysDiffer_iff.1 hq
  obtain ⟨hkeys', hbelow'⟩ := q'.keysDiffer_iff.1 hq'
  have htop : (q.top h?).flat = (q'.top h?').flat := Option.some.inj (hplaces [])
  have hjoins : q.joins.map (·.flat) = q'.joins.map (·.flat) := by
    refine map_flat_eq (congrArg Place.keys htop) fun j hj j' hj' hkey => ?_
    have hbeneath : ∀ path, (j.query.place? (some j.head) path).map Place.flat =
        (j'.query.place? (some j'.head) path).map Place.flat := by
      intro path
      have hpath := hplaces (j.key :: path)
      rw [place?, place?, Join.find?_of_mem hkeys hj, hkey, Join.find?_of_mem hkeys' hj'] at hpath
      exact hpath
    have hquery := ih j hj (hbelow j hj) (hbelow' j' hj') hbeneath
    have hhead : j.head = j'.head :=
      Option.some.inj (congrArg Place.head? (Option.some.inj (hbeneath [])))
    obtain ⟨key, kind, link, mergedLinks, query⟩ := j
    obtain ⟨key', kind', link', mergedLinks', query'⟩ := j'
    obtain ⟨rfl, rfl, rfl⟩ := JoinHead.mk.inj hhead
    obtain rfl : key = key' := hkey
    rw [Join.flat_eq, Join.flat_eq]
    exact congrArg (Join.mk key kind link mergedLinks) hquery
  rw [flat_eq, flat_eq, hjoins, show q.source = q'.source from congrArg Place.source htop,
    show q.clauses.flat = q'.clauses.flat from congrArg Place.clauses htop,
    show q.isQualified = q'.isQualified from congrArg Place.isQualified htop]

section

variable {a b c m n : Query} (hb : b.KeysDiffer) (hc : c.KeysDiffer)

include hb hc

/-- Three requests that merge at each place from the left merge from the left. -/
theorem Query.exists_meet_left
    (h : ∀ path, ((meetPlaces? (a.place? none path) (b.place? none path)).bind
      (meetPlaces? · (c.place? none path))).isSome) :
    ∃ m n, (a.meet b).result? = some m ∧ (m.meet c).result? = some n := by
  have hfirst : (a.meet b).result?.isSome := b.meet_exists hb fun path =>
    Option.isSome_of_isSome_bind (h path)
  obtain ⟨m, hm⟩ := Option.isSome_iff_exists.1 hfirst
  have hmeets : m.MeetsAt c none none := by
    intro path
    have hpath := h path
    rwa [b.meet_places hb hm rfl path, Option.bind_some] at hpath
  obtain ⟨n, hn⟩ := Option.isSome_iff_exists.1 (c.meet_exists hc hmeets)
  exact ⟨m, n, hm, hn⟩

theorem Query.exists_meet_right
    (h : ∀ path, ((meetPlaces? (b.place? none path) (c.place? none path)).bind
      (meetPlaces? (a.place? none path))).isSome) :
    ∃ m n, (b.meet c).result? = some m ∧ (a.meet m).result? = some n := by
  have hfirst : (b.meet c).result?.isSome := c.meet_exists hc fun path =>
    Option.isSome_of_isSome_bind (h path)
  obtain ⟨m, hm⟩ := Option.isSome_iff_exists.1 hfirst
  have hmeets : a.MeetsAt m none none := by
    intro path
    have hpath := h path
    rwa [c.meet_places hc hm rfl path, Option.bind_some] at hpath
  obtain ⟨n, hn⟩ := Option.isSome_iff_exists.1
    (m.meet_exists (c.meet_keysDiffer hb hc hm) hmeets)
  exact ⟨m, n, hm, hn⟩

variable (ha : a.KeysDiffer)

include ha

/-- What three requests give, merged from the left, is at each place what comes of merging there. -/
theorem Query.meet_left (hm : (a.meet b).result? = some m) (hn : (m.meet c).result? = some n) :
    n.KeysDiffer ∧ ∀ path, (meetPlaces? (a.place? none path) (b.place? none path)).bind
      (meetPlaces? · (c.place? none path)) = some (n.place? none path) := by
  refine ⟨c.meet_keysDiffer (b.meet_keysDiffer ha hb hm) hc hn, fun path => ?_⟩
  rw [b.meet_places hb hm rfl path]
  exact c.meet_places hc hn rfl path

theorem Query.meet_right (hm : (b.meet c).result? = some m) (hn : (a.meet m).result? = some n) :
    n.KeysDiffer ∧ ∀ path, (meetPlaces? (b.place? none path) (c.place? none path)).bind
      (meetPlaces? (a.place? none path)) = some (n.place? none path) := by
  have hdiffer := c.meet_keysDiffer hb hc hm
  refine ⟨m.meet_keysDiffer ha hdiffer hn, fun path => ?_⟩
  rw [c.meet_places hc hm rfl path]
  exact m.meet_places hdiffer hn rfl path

/-- **Three requests merge from the left if they merge from the right**, into the same flat request.
-/
theorem Query.meet_regroup :
    ((∃ m n, (a.meet b).result? = some m ∧ (m.meet c).result? = some n) ↔
      ∃ m n, (b.meet c).result? = some m ∧ (a.meet m).result? = some n) ∧
    ∀ m n m' n', (a.meet b).result? = some m → (m.meet c).result? = some n →
      (b.meet c).result? = some m' → (a.meet m').result? = some n' → n'.flat = n.flat := by
  have hplaces : ∀ path, ((meetPlaces? (a.place? none path) (b.place? none path)).bind
      (meetPlaces? · (c.place? none path))).map (Option.map Place.flat) =
        ((meetPlaces? (b.place? none path) (c.place? none path)).bind
          (meetPlaces? (a.place? none path))).map (Option.map Place.flat) :=
    fun path => Place.merge?_assoc.meetOptions _ _ _
  have hsome := fun path => congrArg Option.isSome (hplaces path)
  simp only [Option.isSome_map] at hsome
  refine ⟨⟨?_, ?_⟩, fun m n m' n' hm hn hm' hn' => ?_⟩
  · rintro ⟨m, n, hm, hn⟩
    refine Query.exists_meet_right hb hc fun path => (hsome path).symm.trans ?_
    exact congrArg Option.isSome ((Query.meet_left hb hc ha hm hn).2 path)
  · rintro ⟨m, n, hm, hn⟩
    refine Query.exists_meet_left hb hc fun path => (hsome path).trans ?_
    exact congrArg Option.isSome ((Query.meet_right hb hc ha hm hn).2 path)
  · obtain ⟨hdiffer, hleft⟩ := Query.meet_left hb hc ha hm hn
    obtain ⟨hdiffer', hright⟩ := Query.meet_right hb hc ha hm' hn'
    have hsame : ∀ path, (n'.place? none path).map Place.flat =
        (n.place? none path).map Place.flat := by
      intro path
      have hpath := hplaces path
      rw [hleft path, hright path] at hpath
      exact (Option.some.inj hpath).symm
    exact n'.flat_eq_of_places hdiffer' hdiffer hsame

end

end SqlTree
