import SqlTree.Proofs.Query.FailedMerge
import SqlTree.Proofs.Query.Regrouped

/-!
# Merging three requests

Merging three requests makes one of the occurrences at each place, in an order that depends on which
two are merged first. Where the requests have no occurrence in common to begin with, the places
don't get into each other's way, and at each place it does not matter which two are made one first.
So the forests left know the same of all identities, and the requests that come out, which differ in
how orders are nested, are compiled to the same.

* `Forest.placeOf` is the place of an occurrence.
* `Forest.unifyAll_regroup`: the occurrences of three requests are made one from the left if they
  are made one from the right, with the same result.
* `Query.meet_isWithin`: what a merge gives is within the forest.
* `Query.merge_regroup`: three requests merge from the left if they merge from the right, and what
  comes out is compiled to the same.
-/

namespace SqlTree

/-! ## Places of occurrences -/

namespace Forest

variable {f : Forest} {placed : List (List String × Alias)} {path : List String} {x y : Alias}

/-- The place of an occurrence, if it is at one. -/
def placeOf (f : Forest) (placed : List (List String × Alias)) (x : Alias) :
    Option (List String) :=
  (placed.find? fun p => f.root p.2 = f.root x).map (·.1)

theorem placeOf_congr (h : f.root x = f.root y) : f.placeOf placed x = f.placeOf placed y := by
  rw [placeOf, placeOf, h]

theorem placeOf_of_mem (hplaced : (placed.map fun p => f.root p.2).Nodup)
    (h : (path, x) ∈ placed) : f.placeOf placed x = some path := by
  rw [placeOf]
  cases hfind : placed.find? fun p => f.root p.2 = f.root x with
  | none =>
    have hnone := List.find?_eq_none.1 hfind _ h
    simp at hnone
  | some p =>
    have hroot : f.root p.2 = f.root x := by simpa using List.find?_some hfind
    rw [List.inj_on_of_nodup_map hplaced (List.mem_of_find?_eq_some hfind) h hroot]
    rfl

end Forest

section

variable {ι : Type} [DecidableEq ι] {part : Alias → ι} {tag : List String → ι}
  {ps qs : List (Alias × Alias)} {pairs pairs' : List String → List (Alias × Alias)}

theorem ArePlaced.append (hps : ArePlaced part tag ps pairs) (hqs : ArePlaced part tag qs pairs') :
    ArePlaced part tag (ps ++ qs) fun path => pairs path ++ pairs' path where
  tagged := List.forall_mem_append.2 ⟨hps.tagged, hqs.tagged⟩
  filter_eq path := by rw [List.filter_append, hps.filter_eq, hqs.filter_eq]

end

/-! ## Making occurrences one -/

namespace Forest

variable {f g : Forest}

/-- Pairs at the same places make the same of a forest if those at each place do. -/
theorem unifyAlike_of_placed {part : Alias → Option (List String)} {ps qs : List (Alias × Alias)}
    {pairs pairs' : List String → List (Alias × Alias)} (hf : f.IsGrounded) (hclosed : f.IsClosed)
    (hpart : ∀ c d, f.root c = f.root d → part c = part d)
    (hheld : ∀ p ∈ ps, f.Holds p.1 ∧ f.Holds p.2) (hheld' : ∀ p ∈ qs, f.Holds p.1 ∧ f.Holds p.2)
    (hps : ArePlaced part some ps pairs) (hqs : ArePlaced part some qs pairs')
    (h : ∀ path, f.UnifyAlike (pairs path) (pairs' path)) : f.UnifyAlike ps qs := by
  have hwithin : ∀ {rs : List (Alias × Alias)} {pairsAt : List String → List (Alias × Alias)},
      ArePlaced part some rs pairsAt → ∀ p ∈ rs, part p.1 = part p.2 := by
    intro rs pairsAt hrs p hp
    obtain ⟨path, hfst, hsnd⟩ := hrs.tagged p hp
    exact hfst.trans hsnd.symm
  have hnone : ∀ {rs : List (Alias × Alias)} {pairsAt : List String → List (Alias × Alias)},
      ArePlaced part some rs pairsAt → rs.filter (part ·.1 = none) = [] := by
    intro rs pairsAt hrs
    refine List.filter_eq_nil_iff.2 fun p hp => ?_
    obtain ⟨path, hfst, -⟩ := hrs.tagged p hp
    simp [hfst]
  refine unifyAlike_of_parts hf hclosed ⟨hpart, hheld, hwithin hps⟩ ⟨hpart, hheld', hwithin hqs⟩
    fun i => ?_
  cases i with
  | none =>
    rw [hnone hps, hnone hqs]
    exact .refl f []
  | some path =>
    rw [hps.filter_eq, hqs.filter_eq]
    exact h path

/-- **The occurrences of three requests at one place** become one whichever two become one first. -/
theorem unifyAlike_regroup {x? y? z? : Option Alias} (hf : f.IsGrounded) (hclosed : f.IsClosed)
    (hx : ∀ x ∈ x?, f.Holds x) (hy : ∀ y ∈ y?, f.Holds y) (hz : ∀ z ∈ z?, f.Holds z)
    (hxy : ∀ x ∈ x?, ∀ y ∈ y?, f.root x ≠ f.root y) (hxz : ∀ x ∈ x?, ∀ z ∈ z?, f.root x ≠ f.root z)
    (hyz : ∀ y ∈ y?, ∀ z ∈ z?, f.root y ≠ f.root z) :
    f.UnifyAlike (pairOf x? y? ++ pairOf (x? <|> y?) z?)
      (pairOf y? z? ++ pairOf x? (y? <|> z?)) := by
  cases x? with
  | none =>
    have hsame : pairOf none y? ++ pairOf (none <|> y?) z? =
        pairOf y? z? ++ pairOf none (y? <|> z?) := (List.append_nil _).symm
    rw [hsame]
    exact .refl f _
  | some x =>
    cases y? with
    | none => exact .refl f _
    | some y =>
      cases z? with
      | none => exact .refl f _
      | some z =>
        exact unifyAlike_assoc hf hclosed (hx x rfl) (hy y rfl) (hz z rfl) (hxy x rfl y rfl)
          (hxz x rfl z rfl).symm (hyz y rfl z rfl).symm

/-- Forests that know the same of all identities agree on them. -/
theorem Reshapes.agree {pending : List (Alias × String)} {e : Forest} (hf : e.Reshapes f)
    (hg : e.Reshapes g) (hentry : ∀ a, g.entry a = f.entry a)
    (hpending : ∀ p ∈ pending, f.Holds p.1) :
    Forest.Agree (Alias.shift f.cells.length 0) (fun _ => True) pending f g := by
  have hlength := hg.length_eq.trans hf.length_eq.symm
  have hroot : ∀ a, g.root a = f.root a := fun a => congrArg Entry.root (hentry a)
  have htable : ∀ a, g.tableName? a = f.tableName? a :=
    fun a => congrArg Entry.tableName? (hentry a)
  have hmove : Alias.shift f.cells.length 0 = id := funext (Alias.shift_zero _)
  rw [hmove]
  refine ⟨hf.grounded, hg.grounded, hf.closed, hg.closed,
    fun k => congrArg (Alias.mk <| · + k) hlength.symm, fun _ _ => trivial,
    fun _ ha => ha.of_length_eq hlength, hpending, fun _ _ => ?_,
    fun {a} _ => congrArg Entry.userName? (hentry a), fun {a} _ => ?_⟩
  · rw [id, id, hroot, hroot]
  · rw [id, htable]

end Forest

/-! ## Merging within a forest -/

section

variable {f : Forest}

theorem Expr.IsWithin.and {e e' : Expr Alias} (he : e.IsWithin f) (he' : e'.IsWithin f) :
    (e.and e').IsWithin f := by
  intro c hc
  rw [columns_and] at hc
  exact (List.mem_append.1 hc).elim (he c) (he' c)

/-- Two conditions that may depend on the schema, as one. -/
theorem Lookup.isWithin_and {l l' : Lookup (Expr Alias)}
    (hl : ∀ db e, l.resolve db = .ok e → e.IsWithin f)
    (hl' : ∀ db e, l'.resolve db = .ok e → e.IsWithin f) :
    ∀ db e, (Lookup.zipWith Expr.and l l').resolve db = .ok e → e.IsWithin f := by
  intro db e he
  rw [Lookup.resolve_zipWith] at he
  obtain ⟨d, hd, he⟩ := bind_eq_ok.1 he
  obtain ⟨d', hd', he⟩ := bind_eq_ok.1 he
  obtain rfl := Except.ok.inj he
  exact (hl db d hd).and (hl' db d' hd')

theorem mergeWith_forall {α : Type} {P : α → Prop} {combine : α → α → α} {a? b? : Option α}
    (ha : ∀ a ∈ a?, P a) (hb : ∀ b ∈ b?, P b) (h : ∀ a b, P a → P b → P (combine a b)) :
    ∀ c ∈ mergeWith combine a? b?, P c := by
  cases a? with
  | none => exact hb
  | some a =>
    cases b? with
    | none => exact ha
    | some b =>
      intro c hc
      obtain rfl := Option.some.inj hc
      exact h a b (ha a rfl) (hb b rfl)

/-- Merged clauses are within the forest. -/
theorem Query.IsNodeWithin.merge {a b q : Query} (ha : a.IsNodeWithin f) (hb : b.IsNodeWithin f)
    (hsource : ∀ x ∈ q.source.alias?, f.Holds x)
    (hclauses : q.clauses = a.clauses.merge b.clauses) : q.IsNodeWithin f := by
  refine ⟨hsource, ?_, ?_, ?_, ?_, ?_⟩ <;> rw [hclauses, Clauses.merge]
  · intro i hi
    simp only at hi
    split at hi
    · exact ha.selection i hi
    · exact hb.selection i hi
  · exact mergeWith_forall ha.filter hb.filter fun _ _ => Lookup.isWithin_and
  · intro l hl
    cases hgroup : b.clauses.group? with
    | none =>
      rw [hgroup] at hl
      exact ha.group l hl
    | some l' =>
      rw [hgroup] at hl
      exact hb.group l (hgroup ▸ hl)
  · exact mergeWith_forall ha.having hb.having fun x y hx hy => hx.and hy
  · intro e he
    rw [SortOrder.exprs_followedBy] at he
    exact (List.mem_append.1 he).elim (ha.order e) (hb.order e)

/-- **What a merge gives is within the forest.** -/
theorem Query.meet_isWithin : ∀ (b : Query) {a q : Query}, a.IsWithin f → b.IsWithin f →
    (a.meet b).result? = some q → q.IsWithin f := by
  refine Query.joinsInduction fun b ih => ?_
  intro a q ha hb hq
  obtain ⟨source, joins, hsource, hjoins, rfl⟩ := Query.meet_eq_some hq
  have halias : ∀ x ∈ source.alias?, f.Holds x := by
    rw [(Source.meet_eq_some hsource).2]
    intro x hx
    cases hown : a.source.alias? with
    | none =>
      rw [hown] at hx
      exact hb.self.source x hx
    | some own =>
      rw [hown] at hx
      exact ha.self.source x (hown ▸ hx)
  obtain ⟨name, name', alias?, alias?', -, -, -, rfl⟩ := Source.meet_eq_some_iff.1 hsource
  refine ⟨ha.self.merge hb.self halias rfl, trivial, joinsEverywhere_iff.2 ?_⟩
  refine meetJoins_forall (P := fun j => j.query.IsWithin f) (joinsEverywhere_iff.1 ha.joins)
    (joinsEverywhere_iff.1 hb.joins) ?_ hjoins
  intro j hj k m hk hm
  exact ih j hj hk (joinsEverywhere_iff.1 hb.joins j hj) (Join.meet_eq_some hm).2

end

/-! ## Three requests -/

section

variable {f g g' : Forest} {a b c m n m' n' : Query} {db : Schema}

/-- No two sources of the requests are one occurrence. -/
def Forest.TellsApart (f : Forest) (qs : List Query) : Prop :=
  ((qs.flatMap (·.levelAliases)).map f.root).Nodup

/-- The occurrences of requests with their places. -/
def placedIn (qs : List Query) : List (List String × Alias) := qs.flatMap (·.placedAliases)

theorem Forest.TellsApart.placeOf {qs : List Query} {q : Query} {path : List String} {x : Alias}
    (h : f.TellsApart qs) (hq : q ∈ qs) (hx : q.aliasAt path = some x) :
    f.placeOf (placedIn qs) x = some path := by
  refine Forest.placeOf_of_mem ?_ (List.mem_flatMap.2 ⟨q, hq, Query.mem_placedAliases hx⟩)
  have hroots : (placedIn qs).map (fun p => f.root p.2) =
      (qs.flatMap (·.levelAliases)).map f.root := by
    simp only [placedIn, List.map_flatMap, ← Query.map_placedAliases, List.map_map]
    rfl
  rw [hroots]
  exact h

/-- Occurrences of two of the requests are different. -/
theorem Forest.TellsApart.root_ne (h : f.TellsApart [a, b, c]) (path : List String) :
    (∀ x ∈ a.aliasAt path, ∀ y ∈ b.aliasAt path, f.root x ≠ f.root y) ∧
    (∀ x ∈ a.aliasAt path, ∀ z ∈ c.aliasAt path, f.root x ≠ f.root z) ∧
    ∀ y ∈ b.aliasAt path, ∀ z ∈ c.aliasAt path, f.root y ≠ f.root z := by
  have hmem : ∀ {q : Query} {x : Alias}, x ∈ q.aliasAt path → f.root x ∈
      q.levelAliases.map f.root := by
    intro q x hx
    rw [← q.map_placedAliases]
    exact List.mem_map.2 ⟨x, List.mem_map.2 ⟨_, Query.mem_placedAliases hx, rfl⟩, rfl⟩
  rw [TellsApart] at h
  simp only [List.flatMap_cons, List.flatMap_nil, List.append_nil, List.map_append] at h
  obtain ⟨-, hbc, habc⟩ := List.nodup_append'.1 h
  have hbc := (List.nodup_append'.1 hbc).2.2
  refine ⟨fun x hx y hy heq => ?_, fun x hx z hz heq => ?_, fun y hy z hz heq => ?_⟩
  · exact habc (hmem hx) (List.mem_append_left _ (heq ▸ hmem hy))
  · exact habc (hmem hx) (List.mem_append_right _ (heq ▸ hmem hz))
  · exact hbc (hmem hy) (heq ▸ hmem hz)

/-- Three requests merged, the first two first. -/
def Query.mergeLeft (a b c : Query) : UnifyM Query := do
  let m ← a.merge b
  m.merge c

/-- Three requests merged, the last two first. -/
def Query.mergeRight (a b c : Query) : UnifyM Query := do
  let m ← b.merge c
  a.merge m

theorem Query.runs_mergeLeft : UnifyM.Runs (a.mergeLeft b c) f n g ↔
    ∃ m, (a.meet b).result? = some m ∧ (m.meet c).result? = some n ∧
      f.unifyAll ((a.meet b).pairs ++ (m.meet c).pairs) = some g := by
  have hfollows := (Query.merge_follows b a).bind fun m => Query.merge_follows c m
  rw [mergeLeft, hfollows.runs_iff, Meeting.result?_bind, Meeting.pairs_bind]
  cases (a.meet b).result? <;> simp

theorem Query.runs_mergeRight : UnifyM.Runs (a.mergeRight b c) f n g ↔
    ∃ m, (b.meet c).result? = some m ∧ (a.meet m).result? = some n ∧
      f.unifyAll ((b.meet c).pairs ++ (a.meet m).pairs) = some g := by
  have hfollows := (Query.merge_follows c b).bind fun m => Query.merge_follows m a
  rw [mergeRight, hfollows.runs_iff, Meeting.result?_bind, Meeting.pairs_bind]
  cases (b.meet c).result? <;> simp

section

variable (ha : a.IsWithin f) (hb : b.IsWithin f) (hc : c.IsWithin f)

include ha hb hc

/-- The pairs that merging three requests comes upon were made, and what comes out is within the
forest. -/
theorem Query.mergeLeft_within (hm : (a.meet b).result? = some m)
    (hn : (m.meet c).result? = some n) : n.IsWithin f ∧
      ∀ p ∈ (a.meet b).pairs ++ (m.meet c).pairs, f.Holds p.1 ∧ f.Holds p.2 := by
  have hmerged := b.meet_isWithin ha hb hm
  exact ⟨c.meet_isWithin hmerged hc hn, List.forall_mem_append.2
    ⟨(Query.meet_within b ha.levelIn hb.levelIn).pairs,
      (Query.meet_within c hmerged.levelIn hc.levelIn).pairs⟩⟩

theorem Query.mergeRight_within (hm : (b.meet c).result? = some m)
    (hn : (a.meet m).result? = some n) : n.IsWithin f ∧
      ∀ p ∈ (b.meet c).pairs ++ (a.meet m).pairs, f.Holds p.1 ∧ f.Holds p.2 := by
  have hmerged := c.meet_isWithin hb hc hm
  exact ⟨m.meet_isWithin ha hmerged hn, List.forall_mem_append.2
    ⟨(Query.meet_within c hb.levelIn hc.levelIn).pairs,
      (Query.meet_within m ha.levelIn hmerged.levelIn).pairs⟩⟩

/-- **The occurrences of three requests** are made one from the left if they are made one from the
right, with the same result. -/
theorem Query.unifyAlike_regroup (hf : f.IsGrounded) (hclosed : f.IsClosed) (hkb : b.KeysDiffer)
    (hkc : c.KeysDiffer) (hapart : f.TellsApart [a, b, c]) (hm : (a.meet b).result? = some m)
    (hn : (m.meet c).result? = some n) (hm' : (b.meet c).result? = some m')
    (hn' : (a.meet m').result? = some n') : f.UnifyAlike
      ((a.meet b).pairs ++ (m.meet c).pairs) ((b.meet c).pairs ++ (a.meet m').pairs) := by
  have hpartA : ∀ path x, a.aliasAt path = some x → f.placeOf (placedIn [a, b, c]) x = some path :=
    fun path x => hapart.placeOf (by simp)
  have hpartB : ∀ path x, b.aliasAt path = some x → f.placeOf (placedIn [a, b, c]) x = some path :=
    fun path x => hapart.placeOf (by simp)
  have hpartC : ∀ path x, c.aliasAt path = some x → f.placeOf (placedIn [a, b, c]) x = some path :=
    fun path x => hapart.placeOf (by simp)
  have hpartM : ∀ path x, m.aliasAt path = some x →
      f.placeOf (placedIn [a, b, c]) x = some path := by
    intro path x hx
    exact (Query.aliasAt_of_meet hkb hm hx).elim (hpartA path x) (hpartB path x)
  have hpartM' : ∀ path x, m'.aliasAt path = some x →
      f.placeOf (placedIn [a, b, c]) x = some path := by
    intro path x hx
    exact (Query.aliasAt_of_meet hkc hm' hx).elim (hpartB path x) (hpartC path x)
  have hinj : (some : List String → Option (List String)).Injective := fun _ _ => Option.some.inj
  have hleft := (b.meet_pairs_at _ hinj hkb hm hpartA hpartB).append
    (c.meet_pairs_at _ hinj hkc hn hpartM hpartC)
  have hright := (c.meet_pairs_at _ hinj hkc hm' hpartB hpartC).append
    (m'.meet_pairs_at _ hinj (c.meet_keysDiffer hkb hkc hm') hn' hpartA hpartM')
  refine Forest.unifyAlike_of_placed hf hclosed (fun _ _ => Forest.placeOf_congr)
    (Query.mergeLeft_within ha hb hc hm hn).2 (Query.mergeRight_within ha hb hc hm' hn').2
    hleft hright fun path => ?_
  have hheld : ∀ {q : Query}, q.IsWithin f → ∀ x ∈ q.aliasAt path, f.Holds x := by
    intro q hq x hx
    refine hq.levelIn x ?_
    rw [← q.map_placedAliases]
    exact List.mem_map.2 ⟨_, Query.mem_placedAliases hx, rfl⟩
  obtain ⟨hxy, hxz, hyz⟩ := hapart.root_ne path
  rw [Query.aliasAt_meet hkb hm, Query.aliasAt_meet hkc hm']
  exact Forest.unifyAlike_regroup hf hclosed (hheld ha) (hheld hb) (hheld hc) hxy hxz hyz

end

/-- **Three requests without an occurrence in common** merge from the left if they merge from the
right, and what comes out is selected by the same statement, with rows prepared for the same, or
fails for the same reason. -/
theorem Query.merge_regroup (hf : f.IsGrounded) (hclosed : f.IsClosed) (ha : a.IsWithin f)
    (hb : b.IsWithin f) (hc : c.IsWithin f) (hka : a.KeysDiffer) (hkb : b.KeysDiffer)
    (hkc : c.KeysDiffer) (hapart : f.TellsApart [a, b, c]) :
    ((∃ n g, UnifyM.Runs (a.mergeLeft b c) f n g) ↔
      ∃ n g, UnifyM.Runs (a.mergeRight b c) f n g) ∧
    ∀ {n g n' g'}, UnifyM.Runs (a.mergeLeft b c) f n g → UnifyM.Runs (a.mergeRight b c) f n' g' →
      ∀ db, (n'.selectStatement db).outcome g' = (n.selectStatement db).outcome g ∧
        (n'.prepare db).outcome g' = (n.prepare db).outcome g := by
  obtain ⟨hexists, hflat⟩ := Query.meet_regroup hkb hkc hka
  have halike := fun {m n m' n' : Query} (hm : (a.meet b).result? = some m)
    (hn : (m.meet c).result? = some n) (hm' : (b.meet c).result? = some m')
    (hn' : (a.meet m').result? = some n') =>
      Query.unifyAlike_regroup ha hb hc hf hclosed hkb hkc hapart hm hn hm' hn'
  refine ⟨⟨?_, ?_⟩, fun {n g n' g'} hleft hright db => ?_⟩
  · rintro ⟨n, g, hruns⟩
    obtain ⟨m, hm, hn, hg⟩ := Query.runs_mergeLeft.1 hruns
    obtain ⟨m', n', hm', hn'⟩ := hexists.1 ⟨m, n, hm, hn⟩
    obtain ⟨g', hg'⟩ := (halike hm hn hm' hn').exists_iff.1 ⟨g, hg⟩
    exact ⟨n', g', Query.runs_mergeRight.2 ⟨m', hm', hn', hg'⟩⟩
  · rintro ⟨n', g', hruns⟩
    obtain ⟨m', hm', hn', hg'⟩ := Query.runs_mergeRight.1 hruns
    obtain ⟨m, n, hm, hn⟩ := hexists.2 ⟨m', n', hm', hn'⟩
    obtain ⟨g, hg⟩ := (halike hm hn hm' hn').exists_iff.2 ⟨g', hg'⟩
    exact ⟨n, g, Query.runs_mergeLeft.2 ⟨m, hm, hn, hg⟩⟩
  · obtain ⟨m, hm, hn, hg⟩ := Query.runs_mergeLeft.1 hleft
    obtain ⟨m', hm', hn', hg'⟩ := Query.runs_mergeRight.1 hright
    obtain ⟨-, hpairs⟩ := Query.mergeLeft_within ha hb hc hm hn
    obtain ⟨hwithin, hpairs'⟩ := Query.mergeRight_within ha hb hc hm' hn'
    have hreshapes := Forest.unifyAll_reshapes hf hclosed hpairs hg
    have hreshapes' := Forest.unifyAll_reshapes hf hclosed hpairs' hg'
    have hentry := (halike hm hn hm' hn').entry_eq hg hg'
    have hwithin := hwithin.mono ⟨hreshapes.closed, hreshapes.length_eq.ge⟩
    have hover : n'.IsOver fun _ => True :=
      (Query.isOver_holds_iff.2 hwithin).mono fun _ _ => trivial
    have hheld : ∀ p ∈ n'.openTables ++ [], g.Holds p.1 := by
      rw [List.append_nil]
      exact n'.openTables_held hwithin
    have hagree := hreshapes.agree hreshapes' hentry hheld
    have hsame := hflat m n m' n' hm hn hm' hn'
    -- In the one forest the requests are compiled as the flat one is, and in the other one as in
    -- the one.
    refine ⟨(n'.selectStatement_agrees hover hwithin hagree).outcome_eq.trans ?_,
      (n'.prepare_agrees hover hwithin hagree).outcome_eq.trans ?_⟩
    · rw [← n'.selectStatement_flat, hsame, n.selectStatement_flat]
    · rw [← n'.prepare_flat, hsame, n.prepare_flat]

end

/-- The book `x` with its author, by a column. -/
def bookBy (x : Alias) (column : String) : Query :=
  (bookAs x (.belongsTo "book" "author")).order [⟨.col column, .unspecified⟩]

theorem bookBy_isWithin {f : Forest} {x : Alias} (hx : f.Holds x) (column : String) :
    (bookBy x column).IsWithin f := by
  refine ⟨⟨fun y hy => ?_, fun i hi => ?_, nofun, nofun, nofun, fun e he => ?_⟩, trivial, ?_,
    trivial⟩
  · obtain rfl := Option.some.inj hy
    exact hx
  · obtain rfl := List.mem_singleton.1 hi
    exact nofun
  · obtain rfl := List.mem_singleton.1 he
    intro c hc
    obtain rfl := List.mem_singleton.1 hc
    exact nofun
  · refine ⟨⟨nofun, fun i hi => ?_, nofun, nofun, nofun, nofun⟩, trivial, trivial⟩
    obtain rfl := List.mem_singleton.1 hi
    exact nofun

theorem bookBy_keysDiffer (x : Alias) (column : String) : (bookBy x column).KeysDiffer := by
  refine (Query.keysDiffer_iff _).2 ⟨List.nodup_singleton _, fun j hj => ?_⟩
  obtain rfl := List.mem_singleton.1 hj
  exact Query.keysDiffer_of_joins_eq_nil rfl

/-- Three identities, the first of them named. -/
def threeOccurrences : Forest := (twoOccurrences.fresh none).2

/-- Three books by one column each are the book by these columns, whichever two are merged first. -/
theorem Query.merge_regroup_books : ∃ n g n' g',
    UnifyM.Runs ((bookBy ⟨0⟩ "id").mergeLeft (bookBy ⟨1⟩ "title") (bookBy ⟨2⟩ "authorId"))
      threeOccurrences n g ∧
    UnifyM.Runs ((bookBy ⟨0⟩ "id").mergeRight (bookBy ⟨1⟩ "title") (bookBy ⟨2⟩ "authorId"))
      threeOccurrences n' g' ∧
    (n'.selectStatement bookCatalog.schema).outcome g' =
      (n.selectStatement bookCatalog.schema).outcome g := by
  have hf := (Forest.fresh_coarsens twoOccurrences_isGrounded none).grounded
  have hclosed := (Forest.fresh_widens twoOccurrences_isClosed none).closed
  have hheld : ∀ i < 3, threeOccurrences.Holds ⟨i⟩ := fun i hi => hi
  have hapart : threeOccurrences.TellsApart
      [bookBy ⟨0⟩ "id", bookBy ⟨1⟩ "title", bookBy ⟨2⟩ "authorId"] := by
    rw [Forest.TellsApart]
    decide
  obtain ⟨hexists, hsame⟩ := Query.merge_regroup hf hclosed
    (bookBy_isWithin (hheld 0 (by decide)) "id") (bookBy_isWithin (hheld 1 (by decide)) "title")
    (bookBy_isWithin (hheld 2 (by decide)) "authorId") (bookBy_keysDiffer _ _)
    (bookBy_keysDiffer _ _) (bookBy_keysDiffer _ _) hapart
  obtain ⟨n, g, hleft⟩ : ∃ n g, UnifyM.Runs
      ((bookBy ⟨0⟩ "id").mergeLeft (bookBy ⟨1⟩ "title") (bookBy ⟨2⟩ "authorId"))
        threeOccurrences n g := ⟨_, _, rfl⟩
  obtain ⟨n', g', hright⟩ := hexists.1 ⟨n, g, hleft⟩
  exact ⟨n, g, n', g', hleft, hright, (hsame hleft hright _).1⟩

end SqlTree
