import SqlTree.Proofs.Alias.Linked
import SqlTree.Proofs.Query.FailedMerge
import SqlTree.Proofs.Query.Regrouped

/-!
# Two requests exchanged

Whether two requests merge does not depend on which of them is merged into the other, and what comes
out differs only in what the order tells: whose selection, group and limit are taken, how names are
spelled, and in which sequence conditions, orders and joins stand.

* `ExchangesUpTo` says that two things merge, or don't, whichever is merged into the other, and that
  what comes out is alike. `Place.merge?_exchange` says so of places, and `Query.meet_exchange` of
  requests.
* `Query.mem_meet_pairs`: a merge comes upon the two occurrences at each place where both requests
  have one. So both merges come upon the same pairs, in another order and exchanged, which the
  forest takes as well.
* `Query.merge_exchange` puts both together.
-/

namespace SqlTree

/-! ## Things that may be there -/

/-- Two things merge or don't, whichever is merged into the other, and then what comes out is
alike. -/
def ExchangesUpTo {α : Type} (merge? : α → α → Option α) (R : α → α → Prop) : Prop :=
  ∀ a b, Option.Rel R (merge? a b) (merge? b a)

section

variable {α β : Type} {R : α → α → Prop}

theorem optionRel_refl (hrefl : ∀ a, R a a) (a? : Option α) : Option.Rel R a? a? := by
  cases a? with
  | none => exact .none
  | some a => exact .some (hrefl a)

theorem optionRel_bind {S : β → β → Prop} {a? b? : Option α} {k l : α → Option β}
    (h : Option.Rel R a? b?) (hk : ∀ a b, R a b → Option.Rel S (k a) (l b)) :
    Option.Rel S (a?.bind k) (b?.bind l) := by
  cases h with
  | none => exact .none
  | some hab => exact hk _ _ hab

theorem ExchangesUpTo.meetOptions {merge? : α → α → Option α} (h : ExchangesUpTo merge? R)
    (hrefl : ∀ a, R a a) : ExchangesUpTo (meetOptions merge?) (Option.Rel R) := by
  intro a? b?
  cases a? with
  | none =>
    cases b? with
    | none => exact .some .none
    | some b => exact .some (.some (hrefl b))
  | some a =>
    cases b? with
    | none => exact .some (.some (hrefl a))
    | some b =>
      rw [SqlTree.meetOptions, SqlTree.meetOptions, Option.map_eq_bind, Option.map_eq_bind]
      exact optionRel_bind (h a b) fun _ _ hab => .some (.some hab)

theorem mergeWith_exchange {combine : α → α → α} (hrefl : ∀ a, R a a)
    (hcombine : ∀ a b, R (combine a b) (combine b a)) (a? b? : Option α) :
    Option.Rel R (mergeWith combine a? b?) (mergeWith combine b? a?) := by
  cases a? with
  | none =>
    cases b? with
    | none => exact .none
    | some b => exact .some (hrefl b)
  | some a =>
    cases b? with
    | none => exact .some (hrefl a)
    | some b => exact .some (hcombine a b)

theorem isSome_orElse_comm (a? b? : Option α) : (a? <|> b?).isSome = (b? <|> a?).isSome := by
  cases a? <;> cases b? <;> rfl

end

/-! ## Clauses -/

/-- The conditions have the same terms, each as often. -/
def Expr.SameConjuncts (e e' : Expr Alias) : Prop := e.conjuncts.Perm e'.conjuncts

/-- Whatever the schema, both conditions can be found or none, and then they have the same terms. -/
structure Lookup.SameConjuncts (l l' : Lookup (Expr Alias)) : Prop where
  resolves_iff : ∀ db, (∃ e, l.resolve db = .ok e) ↔ ∃ e', l'.resolve db = .ok e'
  same : ∀ {db e e'}, l.resolve db = .ok e → l'.resolve db = .ok e' → e.SameConjuncts e'

theorem Expr.sameConjuncts_self (e : Expr Alias) : e.SameConjuncts e := .refl _

theorem Expr.and_exchange (e e' : Expr Alias) : (e.and e').SameConjuncts (e'.and e) := by
  rw [SameConjuncts, conjuncts_and, conjuncts_and]
  exact List.perm_append_comm

theorem Lookup.sameConjuncts_self (l : Lookup (Expr Alias)) : l.SameConjuncts l where
  resolves_iff _ := Iff.rfl
  same he he' := by
    obtain rfl := Except.ok.inj (he.symm.trans he')
    exact Expr.sameConjuncts_self _

theorem Lookup.resolve_zipWith_eq_ok {α β γ : Type} {combine : α → β → γ} {x : Lookup α}
    {y : Lookup β} {db : Schema} {c : γ} : (zipWith combine x y).resolve db = .ok c ↔
      ∃ a b, x.resolve db = .ok a ∧ y.resolve db = .ok b ∧ c = combine a b := by
  rw [resolve_zipWith]
  cases x.resolve db with
  | error e => simp [Except.bind]
  | ok a => cases y.resolve db <;> simp [Except.bind, eq_comm]

theorem Lookup.and_exchange (l l' : Lookup (Expr Alias)) :
    (zipWith .and l l').SameConjuncts (zipWith .and l' l) := by
  refine ⟨fun db => ?_, fun {db e e'} he he' => ?_⟩
  · simp only [resolve_zipWith_eq_ok]
    constructor
    · rintro ⟨_, a, b, ha, hb, rfl⟩
      exact ⟨_, b, a, hb, ha, rfl⟩
    · rintro ⟨_, b, a, hb, ha, rfl⟩
      exact ⟨_, a, b, ha, hb, rfl⟩
  · obtain ⟨a, b, ha, hb, rfl⟩ := resolve_zipWith_eq_ok.1 he
    obtain ⟨b', a', hb', ha', rfl⟩ := resolve_zipWith_eq_ok.1 he'
    obtain rfl := Except.ok.inj (ha.symm.trans ha')
    obtain rfl := Except.ok.inj (hb.symm.trans hb')
    exact Expr.and_exchange a b

/-- The clauses ask for different rows or not, have the same conditions, and both have a group and
a limit or none. -/
structure Clauses.IsAlike (c c' : Clauses) : Prop where
  distinct : c'.distinct = c.distinct
  filter : Option.Rel Lookup.SameConjuncts c.filter? c'.filter?
  group : c'.group?.isSome = c.group?.isSome
  having : Option.Rel Expr.SameConjuncts c.having? c'.having?
  limit : c'.limit?.isSome = c.limit?.isSome

theorem Clauses.isAlike_self (c : Clauses) : c.IsAlike c where
  distinct := rfl
  filter := optionRel_refl Lookup.sameConjuncts_self _
  group := rfl
  having := optionRel_refl Expr.sameConjuncts_self _
  limit := rfl

theorem Clauses.merge_swap (c c' : Clauses) : (c.merge c').IsAlike (c'.merge c) where
  distinct := Bool.or_comm _ _
  filter := mergeWith_exchange Lookup.sameConjuncts_self Lookup.and_exchange _ _
  group := isSome_orElse_comm _ _
  having := mergeWith_exchange Expr.sameConjuncts_self Expr.and_exchange _ _
  limit := isSome_orElse_comm _ _

/-! ## Places -/

/-- Sources that are the same table up to ASCII case, or not a table both. -/
def Source.IsAlike (s s' : Source) : Prop :=
  s'.tableName?.map Text.asciiLower = s.tableName?.map Text.asciiLower

/-- Both joins leave out rows without an associated row, or both keep them. -/
def JoinHead.SameKind (h h' : JoinHead) : Prop := h'.kind = h.kind

/-- What two requests are at one place is joined in the same way, from the same table, with clauses
that are alike. -/
structure Place.IsAlike (p p' : Place) : Prop where
  head : Option.Rel JoinHead.SameKind p.head? p'.head?
  source : p.source.IsAlike p'.source
  clauses : p.clauses.IsAlike p'.clauses

theorem JoinHead.sameKind_self (h : JoinHead) : h.SameKind h := rfl

theorem Place.isAlike_self (p : Place) : p.IsAlike p :=
  ⟨optionRel_refl JoinHead.sameKind_self _, rfl, p.clauses.isAlike_self⟩

theorem JoinKind.merge_comm (k k' : JoinKind) : k.merge k' = k'.merge k := by
  cases k <;> cases k' <;> rfl

theorem JoinKind.merge_eq_required_iff {k k' : JoinKind} :
    k.merge k' = .required ↔ k = .required ∨ k' = .required := by
  cases k <;> cases k' <;> simp [merge]

theorem JoinHead.merge?_exchange : ExchangesUpTo merge? SameKind := by
  intro h h'
  by_cases hlinks : h.link.isBetweenSameTables h'.link = true
  · rw [merge?, merge?, if_pos hlinks, if_pos (JoinLink.isBetweenSameTables_symm hlinks)]
    exact .some (JoinKind.merge_comm _ _)
  · have hlinks' : ¬ h'.link.isBetweenSameTables h.link = true := fun hlinks' =>
      hlinks (JoinLink.isBetweenSameTables_symm hlinks')
    rw [merge?, merge?, if_neg hlinks, if_neg hlinks']
    exact .none

/-- A source that another one can be merged with can be merged with that one. -/
theorem Source.exists_meet_swap {s s' t : Source} (h : (s.meet s').result? = some t) :
    ∃ t', (s'.meet s).result? = some t' ∧ t.IsAlike t' := by
  obtain ⟨name, name', a?, a?', rfl, rfl, hname, rfl⟩ := Source.meet_eq_some_iff.1 h
  have hname' := (Text.sameName_iff.1 hname).symm
  exact ⟨_, Source.meet_eq_some_iff.2 ⟨name', name, a?', a?, rfl, rfl, Text.sameName_iff.2 hname',
    rfl⟩, congrArg some hname'⟩

theorem Source.meet_exchange :
    ExchangesUpTo (fun s s' : Source => (s.meet s').result?) Source.IsAlike := by
  intro s s'
  change Option.Rel IsAlike (s.meet s').result? (s'.meet s).result?
  cases h : (s.meet s').result? with
  | some t =>
    obtain ⟨t', ht', halike⟩ := Source.exists_meet_swap h
    rw [ht']
    exact .some halike
  | none =>
    cases h' : (s'.meet s).result? with
    | none => exact .none
    | some t' =>
      obtain ⟨t, ht, -⟩ := Source.exists_meet_swap h'
      rw [h] at ht
      cases ht

/-- **Two places merge alike**, whichever is merged into the other. -/
theorem Place.merge?_exchange : ExchangesUpTo Place.merge? Place.IsAlike := by
  intro p r
  rw [Place.merge?_eq, Place.merge?_eq]
  have hheads := JoinHead.merge?_exchange.meetOptions JoinHead.sameKind_self p.head? r.head?
  refine optionRel_bind hheads fun h? h?' hhead => ?_
  refine optionRel_bind (Source.meet_exchange p.source r.source) fun s s' hsource => ?_
  exact .some ⟨hhead, hsource, Clauses.merge_swap _ _⟩

/-! ## Requests -/

variable {a b m m' : Query} {path : List String}

/-- The request is joined there, and rows without it are left out. -/
def Query.IsRequiredAt (q : Query) (path : List String) : Prop :=
  ∃ p, q.place? none path = some p ∧ ∃ h, p.head? = some h ∧ h.kind = .required

/-- At each place the requests are alike, or neither has the place. -/
def Query.IsAlike (q q' : Query) : Prop :=
  ∀ path, Option.Rel Place.IsAlike (q.place? none path) (q'.place? none path)

theorem meetPlaces?_exchange : ExchangesUpTo meetPlaces? (Option.Rel Place.IsAlike) :=
  Place.merge?_exchange.meetOptions Place.isAlike_self

/-- Requests that merge at every place do so the other way round. -/
theorem Query.meetsAt_swap (h : a.MeetsAt b none none) : b.MeetsAt a none none := fun path =>
  (isSome_eq_of_optionRel (meetPlaces?_exchange _ _)).trans (h path)

theorem Query.meet_place? (hb : b.KeysDiffer) (h : (a.meet b).result? = some m)
    (path : List String) :
    meetPlaces? (a.place? none path) (b.place? none path) = some (m.place? none path) :=
  b.meet_places hb h rfl path

theorem Query.meetsAt_of_meet (hb : b.KeysDiffer) (h : (a.meet b).result? = some m) :
    a.MeetsAt b none none := by
  intro path
  rw [Query.meet_place? hb h]
  rfl

/-- **The walks through two requests** come to something whichever is merged into the other, and to
what is alike. -/
theorem Query.meet_exchange (ha : a.KeysDiffer) (hb : b.KeysDiffer) :
    Option.Rel Query.IsAlike (a.meet b).result? (b.meet a).result? := by
  cases hm : (a.meet b).result? with
  | none =>
    cases hm' : (b.meet a).result? with
    | none => exact .none
    | some m' =>
      have hsome := b.meet_exists hb (Query.meetsAt_swap (Query.meetsAt_of_meet ha hm'))
      rw [hm] at hsome
      cases hsome
  | some m =>
    obtain ⟨m', hm'⟩ := Option.isSome_iff_exists.1
      (a.meet_exists ha (Query.meetsAt_swap (Query.meetsAt_of_meet hb hm)))
    rw [hm']
    refine .some fun path => ?_
    have hrel := meetPlaces?_exchange (a.place? none path) (b.place? none path)
    rw [Query.meet_place? hb hm, Query.meet_place? ha hm'] at hrel
    cases hrel with
    | some hrel => exact hrel

/-- Two places merged are required if either is. -/
theorem Place.required_of_merge? {p r n : Place} (h : p.merge? r = some n) :
    (∃ h, n.head? = some h ∧ h.kind = .required) ↔
      (∃ h, p.head? = some h ∧ h.kind = .required) ∨
        ∃ h, r.head? = some h ∧ h.kind = .required := by
  rw [Place.merge?_eq] at h
  obtain ⟨head?, hhead, h⟩ := Option.bind_eq_some_iff.1 h
  obtain ⟨source, -, h⟩ := Option.bind_eq_some_iff.1 h
  obtain rfl := Option.some.inj h
  cases hp : p.head? with
  | none =>
    rw [hp] at hhead
    obtain rfl := Option.some.inj hhead
    simp
  | some h =>
    cases hr : r.head? with
    | none =>
      rw [hp, hr] at hhead
      obtain rfl := Option.some.inj hhead
      simp
    | some h' =>
      rw [hp, hr] at hhead
      obtain ⟨_, hmerged, rfl⟩ := Option.map_eq_some_iff.1 hhead
      obtain ⟨-, rfl⟩ := JoinHead.merge?_eq_some.1 hmerged
      simp only [Option.some.injEq, exists_eq_left', JoinKind.merge_eq_required_iff]

/-- **A merge is required** where either request is. -/
theorem Query.meet_isRequiredAt (hb : b.KeysDiffer) (h : (a.meet b).result? = some m) :
    m.IsRequiredAt path ↔ a.IsRequiredAt path ∨ b.IsRequiredAt path := by
  have hplaces := Query.meet_place? hb h path
  rw [IsRequiredAt, IsRequiredAt, IsRequiredAt]
  cases hp : a.place? none path with
  | none =>
    rw [hp] at hplaces
    rw [← Option.some.inj hplaces]
    simp
  | some p =>
    cases hr : b.place? none path with
    | none =>
      rw [hp, hr] at hplaces
      rw [← Option.some.inj hplaces]
      simp
    | some r =>
      rw [hp, hr] at hplaces
      obtain ⟨n, hn, hplace⟩ := Option.map_eq_some_iff.1 hplaces
      rw [← hplace]
      simpa only [Option.some.injEq, exists_eq_left'] using Place.required_of_merge? hn

/-- **The pairs that a merge comes upon** are the two occurrences at each place where both requests
have one. -/
theorem Query.mem_meet_pairs : ∀ (b : Query) {a m : Query}, b.KeysDiffer →
    (a.meet b).result? = some m → ∀ p : Alias × Alias, p ∈ (a.meet b).pairs ↔
      ∃ path, a.aliasAt path = some p.1 ∧ b.aliasAt path = some p.2 := by
  refine Query.joinsInduction fun b ih => ?_
  intro a m hb hm p
  obtain ⟨hkeys, hbelow⟩ := b.keysDiffer_iff.1 hb
  have hjoins : ∀ {j k : Join}, Join.find? j.key b.joins = some j →
      Join.find? j.key a.joins = some k → (p ∈ (k.query.meet j.query).pairs ↔
        ∃ path, k.query.aliasAt path = some p.1 ∧ j.query.aliasAt path = some p.2) := by
    intro j k hj hk
    obtain ⟨n, hn⟩ := Query.exists_meet_of_find? hb hm hk hj
    have hmem := List.mem_of_find?_eq_some hj
    exact ih j hmem (hbelow j hmem) (Join.meet_eq_some hn).2 p
  rw [Query.pairs_of_meet hb hm, List.mem_append, mem_pairOf]
  constructor
  · rintro (htop | hp)
    · exact ⟨[], htop⟩
    · obtain ⟨j, hj, hp⟩ := List.mem_flatMap.1 hp
      have hfind := Join.find?_of_mem hkeys hj
      cases hk : Join.find? j.key a.joins with
      | none =>
        rw [hk] at hp
        cases hp
      | some k =>
        rw [hk] at hp
        obtain ⟨path, hx, hy⟩ := (hjoins hfind hk).1 hp
        exact ⟨j.key :: path, by rw [aliasAt, hk]; exact hx, by rw [aliasAt, hfind]; exact hy⟩
  · rintro ⟨path, hx, hy⟩
    cases path with
    | nil => exact .inl ⟨hx, hy⟩
    | cons key path =>
      obtain ⟨k, hk, hxk⟩ := Option.bind_eq_some_iff.1 hx
      obtain ⟨j, hj, hyj⟩ := Option.bind_eq_some_iff.1 hy
      obtain rfl := Join.key_of_find? hj
      refine .inr (List.mem_flatMap.2 ⟨j, List.mem_of_find?_eq_some hj, ?_⟩)
      rw [hk]
      exact (hjoins hj hk).2 ⟨path, hxk, hyj⟩

/-- Merging comes upon the same pairs whichever request is merged into the other. -/
theorem Query.samePairs_meet (ha : a.KeysDiffer) (hb : b.KeysDiffer)
    (hm : (a.meet b).result? = some m) (hm' : (b.meet a).result? = some m') :
    Forest.SamePairs (a.meet b).pairs (b.meet a).pairs := by
  intro x y
  simp only [b.mem_meet_pairs hb hm, a.mem_meet_pairs ha hm', and_comm, or_comm]

theorem Query.runs_merge {f g : Forest} : UnifyM.Runs (a.merge b) f m g ↔
    (a.meet b).result? = some m ∧ f.unifyAll (a.meet b).pairs = some g :=
  (Query.merge_follows b a).runs_iff

/-- A request that another one merges with merges with that one. -/
theorem Query.exists_merge_swap {f g : Forest} (hf : f.IsGrounded) (hclosed : f.IsClosed)
    (ha : a.IsWithin f) (hb : b.IsWithin f) (hka : a.KeysDiffer) (hkb : b.KeysDiffer)
    (h : UnifyM.Runs (a.merge b) f m g) : ∃ m' g', UnifyM.Runs (b.merge a) f m' g' := by
  obtain ⟨hm, hg⟩ := Query.runs_merge.1 h
  have hrel := Query.meet_exchange hka hkb
  rw [hm] at hrel
  obtain ⟨m', hm'⟩ := Option.isSome_iff_exists.1 (isSome_eq_of_optionRel hrel)
  have hpairs := (Query.meet_within b ha.levelIn hb.levelIn).pairs
  have hsame := Query.samePairs_meet hka hkb hm hm'
  obtain ⟨g', hg'⟩ := (hsame.exists_unifyAll_iff hf hclosed hpairs (hsame.held hpairs)).1 ⟨g, hg⟩
  exact ⟨m', g', Query.runs_merge.2 ⟨hm', hg'⟩⟩

/-- **Merging is symmetric.** Two requests merge if they merge the other way round. Then what comes
out has the same places, and at each of them it is joined in the same way, as required as either
request is there, reads from the same table up to ASCII case, and has clauses that are alike: the
same conditions in another order, and a group or limit where the other has one. -/
theorem Query.merge_exchange {f : Forest} (hf : f.IsGrounded) (hclosed : f.IsClosed)
    (ha : a.IsWithin f) (hb : b.IsWithin f) (hka : a.KeysDiffer) (hkb : b.KeysDiffer) :
    ((∃ m g, UnifyM.Runs (a.merge b) f m g) ↔ ∃ m g, UnifyM.Runs (b.merge a) f m g) ∧
    ∀ {m g m' g'}, UnifyM.Runs (a.merge b) f m g → UnifyM.Runs (b.merge a) f m' g' →
      ∀ path, Option.Rel Place.IsAlike (m.place? none path) (m'.place? none path) ∧
        (m.IsRequiredAt path ↔ a.IsRequiredAt path ∨ b.IsRequiredAt path) := by
  refine ⟨⟨?_, ?_⟩, fun {m g m' g'} h h' path => ?_⟩
  · rintro ⟨m, g, h⟩
    exact Query.exists_merge_swap hf hclosed ha hb hka hkb h
  · rintro ⟨m, g, h⟩
    exact Query.exists_merge_swap hf hclosed hb ha hkb hka h
  · obtain ⟨hm, -⟩ := Query.runs_merge.1 h
    obtain ⟨hm', -⟩ := Query.runs_merge.1 h'
    have hrel := Query.meet_exchange hka hkb
    rw [hm, hm'] at hrel
    refine ⟨?_, Query.meet_isRequiredAt hkb hm⟩
    cases hrel with
    | some halike => exact halike path

/-- The book `x` where a column is known, with its author. -/
def knownBook (x : Alias) (column : String) (kind : JoinKind) : Query :=
  { (Query.ofSource (.table "book" (some x))).filter (.isNotNull (.col column)) with
    joins := [((Association.belongsTo "book" "author").withKey "author").toJoin kind true] }

theorem knownBook_isWithin {f : Forest} {x : Alias} (hx : f.Holds x) (column : String)
    (kind : JoinKind) : (knownBook x column kind).IsWithin f := by
  refine ⟨⟨fun y hy => ?_, fun i hi => ?_, fun l hl db e he => ?_, nofun, nofun, nofun⟩, trivial,
    ?_, trivial⟩
  · obtain rfl := Option.some.inj hy
    exact hx
  · obtain rfl := List.mem_singleton.1 hi
    exact nofun
  · obtain rfl := Option.some.inj hl
    obtain rfl := Except.ok.inj he
    intro c hc
    obtain rfl := List.mem_singleton.1 hc
    exact nofun
  · refine ⟨⟨nofun, fun i hi => ?_, nofun, nofun, nofun, nofun⟩, trivial, trivial⟩
    obtain rfl := List.mem_singleton.1 hi
    exact nofun

theorem knownBook_keysDiffer (x : Alias) (column : String) (kind : JoinKind) :
    (knownBook x column kind).KeysDiffer := by
  refine (Query.keysDiffer_iff _).2 ⟨List.nodup_singleton _, fun j hj => ?_⟩
  obtain rfl := List.mem_singleton.1 hj
  exact Query.keysDiffer_of_joins_eq_nil rfl

/-- A book with a title and maybe an author, and a book with a number and its author, are the same
book with an author whichever is merged into the other. -/
theorem Query.merge_exchange_books : ∃ m g m' g',
    UnifyM.Runs ((knownBook ⟨0⟩ "title" .optional).merge (knownBook ⟨1⟩ "id" .required))
      twoOccurrences m g ∧
    UnifyM.Runs ((knownBook ⟨1⟩ "id" .required).merge (knownBook ⟨0⟩ "title" .optional))
      twoOccurrences m' g' ∧
    m.IsAlike m' ∧ m.IsRequiredAt ["author"] := by
  have hheld : twoOccurrences.Holds ⟨0⟩ ∧ twoOccurrences.Holds ⟨1⟩ :=
    ⟨Nat.zero_lt_two, Nat.one_lt_two⟩
  obtain ⟨hiff, hexchange⟩ := Query.merge_exchange twoOccurrences_isGrounded
    twoOccurrences_isClosed (knownBook_isWithin hheld.1 "title" .optional)
    (knownBook_isWithin hheld.2 "id" .required) (knownBook_keysDiffer _ _ _)
    (knownBook_keysDiffer _ _ _)
  obtain ⟨m, g, h⟩ : ∃ m g, UnifyM.Runs ((knownBook ⟨0⟩ "title" .optional).merge
      (knownBook ⟨1⟩ "id" .required)) twoOccurrences m g := ⟨_, _, rfl⟩
  obtain ⟨m', g', h'⟩ := hiff.1 ⟨m, g, h⟩
  refine ⟨m, g, m', g', h, h', fun path => (hexchange h h' path).1, ?_⟩
  exact (hexchange h h' ["author"]).2.2 (.inr ⟨_, rfl, _, rfl, rfl⟩)

end SqlTree
