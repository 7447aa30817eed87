import SqlTree.Proofs.Alias.Entry

/-!
# Pairs of occurrences

A list of pairs of identities is made one pair by pair. Pairs that have nothing to do with each
other don't get into each other's way, and what is known of an occurrence in the end comes from the
pairs it is concerned by.

* `Forest.unifyAll` makes one all pairs, and `Forest.unifyFirst` those in front of the first that
  can't be.
* `Forest.unifyAlike_of_parts`: two lists make the same of a forest when their parts do.
* `Entry.clash?_assoc` and `Entry.absorb_assoc`: three occurrences clash or not, and come to the
  same, whichever two become one first. So making the pairs one comes to the same
  (`Forest.unifyAlike_assoc`).
-/

namespace SqlTree

/-- The pair of two identities, if there are two. -/
def pairOf : Option Alias → Option Alias → List (Alias × Alias)
  | some a, some b => [(a, b)]
  | _, _ => []

theorem pairOf_none_right (a? : Option Alias) : pairOf a? none = [] := by
  cases a? <;> rfl

theorem mem_pairOf {a? b? : Option Alias} {p : Alias × Alias} :
    p ∈ pairOf a? b? ↔ a? = some p.1 ∧ b? = some p.2 := by
  cases a? <;> cases b? <;> simp [pairOf, Prod.ext_iff, eq_comm]

/-! ## What three occurrences come to -/

/-- Names that are the same as one name are the same as each other. -/
theorem clashOf_assoc (same : String → String → Bool) (key : String → String)
    (hsame : ∀ x y, same x y = true ↔ key x = key y) (x? y? z? : Option String) :
    (clashOf same x? y? = none ∧ clashOf same (x? <|> y?) z? = none) ↔
      (clashOf same y? z? = none ∧ clashOf same x? (y? <|> z?) = none) := by
  cases x? <;> cases y? <;> cases z? <;> simp [clashOf, hsame]
  grind

namespace Entry

theorem absorb_assoc (u v w : Entry) : (u.absorb v).absorb w = u.absorb (v.absorb w) := by
  obtain ⟨root, tableName?, userName?⟩ := u
  cases tableName? <;> cases userName? <;> rfl

/-- **Three occurrences don't clash** whichever two become one first. -/
theorem clash?_assoc (u v w : Entry) : (u.clash? v = none ∧ (u.absorb v).clash? w = none) ↔
    (v.clash? w = none ∧ u.clash? (v.absorb w) = none) := by
  have hnames := clashOf_assoc (· == ·) id (fun _ _ => beq_iff_eq) u.userName?
    v.userName? w.userName?
  have htables := clashOf_assoc Text.sameName Text.asciiLower
    (fun _ _ => Text.sameName_iff) u.tableName? v.tableName? w.tableName?
  simp only [clash?, absorb, Forest.orElse_eq_none]
  rw [and_and_and_comm, hnames, htables, and_and_and_comm]

end Entry

namespace Forest

/-! ## One pair after the other -/

/-- Makes one occurrence of each pair, if all of them can be. -/
def unifyAll (f : Forest) : List (Alias × Alias) → Option Forest
  | [] => some f
  | p :: rest => (f.unify p.1 p.2).bind (·.unifyAll rest)

/-- Makes one occurrence of each pair in front of the first that can't be. -/
def unifyFirst (f : Forest) : List (Alias × Alias) → Forest
  | [] => f
  | p :: rest =>
    match f.unify p.1 p.2 with
    | some g => g.unifyFirst rest
    | none => f

theorem unifyAll_append (f : Forest) (ps qs : List (Alias × Alias)) :
    f.unifyAll (ps ++ qs) = (f.unifyAll ps).bind (·.unifyAll qs) := by
  induction ps generalizing f with
  | nil => rfl
  | cons p ps ih =>
    rw [List.cons_append, unifyAll, unifyAll]
    cases f.unify p.1 p.2 with
    | none => rfl
    | some g => exact ih g

theorem unifyFirst_of_unifyAll_eq_some {f g : Forest} {ps : List (Alias × Alias)}
    (h : f.unifyAll ps = some g) (qs : List (Alias × Alias)) :
    f.unifyFirst (ps ++ qs) = g.unifyFirst qs := by
  induction ps generalizing f with
  | nil =>
    obtain rfl := Option.some.inj h
    rfl
  | cons p ps ih =>
    rw [unifyAll] at h
    obtain ⟨e, he, h⟩ := Option.bind_eq_some_iff.1 h
    rw [List.cons_append, unifyFirst, he]
    exact ih h

theorem unifyFirst_eq {f g : Forest} {ps : List (Alias × Alias)} (h : f.unifyAll ps = some g) :
    f.unifyFirst ps = g := by
  have hfirst := unifyFirst_of_unifyAll_eq_some h []
  rwa [List.append_nil] at hfirst

/-- Pairs behind one that can't be made one are not come upon. -/
theorem unifyFirst_of_unifyAll_eq_none {f : Forest} {ps : List (Alias × Alias)}
    (h : f.unifyAll ps = none) (qs : List (Alias × Alias)) :
    f.unifyFirst (ps ++ qs) = f.unifyFirst ps := by
  induction ps generalizing f with
  | nil => cases h
  | cons p ps ih =>
    rw [unifyAll] at h
    rw [List.cons_append, unifyFirst, unifyFirst]
    cases hunify : f.unify p.1 p.2 with
    | none => rfl
    | some g =>
      rw [hunify] at h
      exact ih h

theorem unify_of_isSame {f : Forest} {a b : Alias} (h : f.isSame a b) : f.unify a b = some f :=
  if_pos h

theorem unify_isSame {f g : Forest} {a b : Alias} (hf : f.IsGrounded) (hclosed : f.IsClosed)
    (hb : f.Holds b) (h : f.unify a b = some g) : g.isSame a b := by
  rw [unify] at h
  split at h
  · rename_i hsame
    obtain rfl := Option.some.inj h
    exact hsame
  · split at h
    · cases h
    · cases hlink : f.link b a with
      | error e =>
        rw [hlink] at h
        cases h
      | ok g' =>
        rw [hlink] at h
        obtain rfl := Option.some.inj h
        have hroot := (link_root_eq hf hlink).2.1 (hclosed.holds_root hb)
        rw [isSame, hroot, beq_self_eq_true]

theorem unifyFirst_coarsens (ps : List (Alias × Alias)) {f : Forest} (hf : f.IsGrounded) :
    Coarsens f (f.unifyFirst ps) := by
  induction ps generalizing f with
  | nil => exact hf.coarsens_self
  | cons p ps ih =>
    rw [unifyFirst]
    split
    · rename_i g hg
      have hstep := unify_coarsens hf hg
      exact hstep.trans (ih hstep.grounded)
    · exact hf.coarsens_self

/-! ## What becomes of identities -/

/-- The forest `g` has as many identities as `f`, and its proxies end at identities that were
made. -/
structure Reshapes (f g : Forest) : Prop where
  grounded : g.IsGrounded
  closed : g.IsClosed
  length_eq : g.cells.length = f.cells.length

variable {f g e e' : Forest} {a b c : Alias} {ps qs : List (Alias × Alias)}

theorem reshapes_self (hf : f.IsGrounded) (hclosed : f.IsClosed) : f.Reshapes f :=
  ⟨hf, hclosed, rfl⟩

theorem Reshapes.trans (h : f.Reshapes e) (h' : e.Reshapes g) : f.Reshapes g :=
  ⟨h'.grounded, h'.closed, h'.length_eq.trans h.length_eq⟩

theorem link_reshapes (hf : f.IsGrounded) (hclosed : f.IsClosed) (ha : f.Holds a) (hb : f.Holds b)
    (h : f.link a b = .ok g) : f.Reshapes g := by
  cases hclash : (f.entry b).clash? (f.entry a) with
  | some e =>
    rw [link_of_clash hf hclash] at h
    cases h
  | none =>
    obtain ⟨g', hg', hlength, -⟩ := link_of_noClash hf hclosed ha hb hclash
    obtain rfl := Except.ok.inj (hg'.symm.trans h)
    exact ⟨(link_root_eq hf h).1.grounded, (link_widens hf hclosed hb h).closed, hlength⟩

/-- Two occurrences that can be made one don't clash, and one takes over what is known of the
other. -/
theorem unify_eq_some (hf : f.IsGrounded) (hclosed : f.IsClosed) (ha : f.Holds a) (hb : f.Holds b)
    (h : f.unify a b = some g) : (f.entry a).clash? (f.entry b) = none ∧ f.Reshapes g ∧
      ∀ c, g.entry c = if f.root c = f.root b ∨ f.root c = f.root a then
        (f.entry a).absorb (f.entry b) else f.entry c := by
  have hclash : (f.entry a).clash? (f.entry b) = none := by
    by_contra hne
    rw [unify_of_clash hf hne] at h
    cases h
  obtain ⟨g', hg', hlength, hentry⟩ := unify_of_noClash hf hclosed ha hb hclash
  obtain rfl := Option.some.inj (hg'.symm.trans h)
  exact ⟨hclash, ⟨(unify_coarsens hf h).grounded, (unify_widens hf hclosed ha h).closed, hlength⟩,
    hentry⟩

/-- The roots of occurrences two of which were made one. -/
theorem root_of_unified (hentry : ∀ c, g.entry c =
      if f.root c = f.root b ∨ f.root c = f.root a then (f.entry a).absorb (f.entry b)
      else f.entry c) (c : Alias) :
    g.root c = if f.root c = f.root b ∨ f.root c = f.root a then f.root a else f.root c := by
  refine (congrArg Entry.root (hentry c)).trans ?_
  split <;> rfl

theorem unifyAll_reshapes (hf : f.IsGrounded) (hclosed : f.IsClosed)
    (hps : ∀ p ∈ ps, f.Holds p.1 ∧ f.Holds p.2) (h : f.unifyAll ps = some g) : f.Reshapes g := by
  induction ps generalizing f with
  | nil =>
    obtain rfl := Option.some.inj h
    exact reshapes_self hf hclosed
  | cons p ps ih =>
    obtain ⟨⟨ha, hb⟩, hps⟩ := List.forall_mem_cons.1 hps
    obtain ⟨e, he, h⟩ := Option.bind_eq_some_iff.1 h
    obtain ⟨-, hstep, -⟩ := unify_eq_some hf hclosed ha hb he
    refine hstep.trans (ih hstep.grounded hstep.closed (fun q hq => ?_) h)
    exact ⟨(hps q hq).1.of_length_eq hstep.length_eq, (hps q hq).2.of_length_eq hstep.length_eq⟩

/-! ## Parts of a list -/

/-- No identity outside of `S` is one occurrence with one in `S`. -/
def Separates (f : Forest) (S : Alias → Prop) : Prop := ∀ c d, S c → f.root c = f.root d → S d

/-- What is separate stays so when occurrences on one side are made one. -/
theorem Separates.unify {S : Alias → Prop} (hS : f.Separates S)
    (hentry : ∀ c, g.entry c = if f.root c = f.root b ∨ f.root c = f.root a then
      (f.entry a).absorb (f.entry b) else f.entry c) (hab : S a ↔ S b) : g.Separates S := by
  have hroot := root_of_unified hentry
  have htouched : ∀ c, S c → f.root c = f.root b ∨ f.root c = f.root a → S a := by
    rintro c hc (hcb | hca)
    · exact hab.2 (hS c b hc hcb)
    · exact hS c a hc hca
  intro c d hc hcd
  rw [hroot, hroot] at hcd
  by_cases hd : f.root d = f.root b ∨ f.root d = f.root a
  · have ha : S a := by
      by_cases hc' : f.root c = f.root b ∨ f.root c = f.root a
      · exact htouched c hc hc'
      · rw [if_neg hc', if_pos hd] at hcd
        exact hS c a hc hcd
    rcases hd with hdb | hda
    · exact hS b d (hab.1 ha) hdb.symm
    · exact hS a d ha hda.symm
  · rw [if_neg hd] at hcd
    by_cases hc' : f.root c = f.root b ∨ f.root c = f.root a
    · rw [if_pos hc'] at hcd
      exact hS a d (htouched c hc hc') hcd
    · rw [if_neg hc'] at hcd
      exact hS c d hc hcd

/-- **What is known of the identities in `S` in the end** is what the pairs in `S` alone would have
made of it. -/
theorem unifyAll_filter {S : Alias → Prop} [DecidablePred S] (hf : f.IsGrounded)
    (hclosed : f.IsClosed) (hfe : f.Reshapes e) (hS : f.Separates S) (hS' : e.Separates S)
    (hentry : ∀ c, S c → e.entry c = f.entry c)
    (hps : ∀ p ∈ ps, (f.Holds p.1 ∧ f.Holds p.2) ∧ (S p.1 ↔ S p.2)) (h : f.unifyAll ps = some g) :
    ∃ e', e.unifyAll (ps.filter (S ·.1)) = some e' ∧ ∀ c, S c → e'.entry c = g.entry c := by
  induction ps generalizing f e with
  | nil =>
    obtain rfl := Option.some.inj h
    exact ⟨e, rfl, hentry⟩
  | cons p ps ih =>
    obtain ⟨⟨⟨ha, hb⟩, hboth⟩, hps⟩ := List.forall_mem_cons.1 hps
    obtain ⟨f₁, hunify, h⟩ := Option.bind_eq_some_iff.1 h
    obtain ⟨hclash, hstep, hentry₁⟩ := unify_eq_some hf hclosed ha hb hunify
    have hps₁ : ∀ q ∈ ps, (f₁.Holds q.1 ∧ f₁.Holds q.2) ∧ (S q.1 ↔ S q.2) := fun q hq =>
      ⟨(hps q hq).1.imp (·.of_length_eq hstep.length_eq) (·.of_length_eq hstep.length_eq),
        (hps q hq).2⟩
    have hS₁ : f₁.Separates S := hS.unify hentry₁ hboth
    by_cases hp : S p.1
    · -- The pair is made one in both forests, and clashes in neither.
      rw [List.filter_cons_of_pos (by simpa using hp), unifyAll]
      rw [← hentry p.1 hp, ← hentry p.2 (hboth.1 hp)] at hclash
      obtain ⟨e₁, he₁, -⟩ := unify_of_noClash hfe.grounded hfe.closed
        (ha.of_length_eq hfe.length_eq) (hb.of_length_eq hfe.length_eq) hclash
      obtain ⟨-, hstep', hentry₁'⟩ := unify_eq_some hfe.grounded hfe.closed
        (ha.of_length_eq hfe.length_eq) (hb.of_length_eq hfe.length_eq) he₁
      have hreshapes : f₁.Reshapes e₁ := ⟨hstep'.grounded, hstep'.closed,
        hstep'.length_eq.trans (hfe.length_eq.trans hstep.length_eq.symm)⟩
      rw [he₁, Option.bind_some]
      refine ih hstep.grounded hstep.closed hreshapes hS₁ (hS'.unify hentry₁' hboth)
        (fun c hc => ?_) hps₁ h
      have hroot : ∀ c, S c → e.root c = f.root c := fun c hc => congrArg Entry.root (hentry c hc)
      rw [hentry₁, hentry₁', hroot c hc, hroot p.1 hp, hroot p.2 (hboth.1 hp), hentry c hc,
        hentry p.1 hp, hentry p.2 (hboth.1 hp)]
    · -- The pair is none of `S`, which it leaves as it is.
      rw [List.filter_cons_of_neg (by simpa using hp)]
      have hreshapes : f₁.Reshapes e :=
        ⟨hfe.grounded, hfe.closed, hfe.length_eq.trans hstep.length_eq.symm⟩
      refine ih hstep.grounded hstep.closed hreshapes hS₁ hS' (fun c hc => ?_) hps₁ h
      rw [hentry₁, if_neg, hentry c hc]
      rintro (hcb | hca)
      · exact hp (hboth.2 (hS c p.2 hc hcb))
      · exact hp (hS c p.1 hc hca)

/-- Where a list can't be made one there is a first pair that can't be. -/
theorem unifyAll_eq_none (h : f.unifyAll ps = none) : ∃ qs p rest e,
    ps = qs ++ p :: rest ∧ f.unifyAll qs = some e ∧ e.unify p.1 p.2 = none := by
  induction ps generalizing f with
  | nil => cases h
  | cons p ps ih =>
    rw [unifyAll] at h
    cases hunify : f.unify p.1 p.2 with
    | none => exact ⟨[], p, ps, f, rfl, rfl, hunify⟩
    | some f₁ =>
      rw [hunify] at h
      obtain ⟨qs, q, rest, e, rfl, hqs, hq⟩ := ih h
      refine ⟨p :: qs, q, rest, e, rfl, ?_, hq⟩
      rw [unifyAll, hunify]
      exact hqs

section

variable {ι : Type} {part : Alias → ι}

/-- The parts of identities are those of occurrences, and all pairs were made and stay within one
part. -/
structure IsParted (f : Forest) (part : Alias → ι) (ps : List (Alias × Alias)) : Prop where
  part_eq : ∀ c d, f.root c = f.root d → part c = part d
  held : ∀ p ∈ ps, f.Holds p.1 ∧ f.Holds p.2
  within : ∀ p ∈ ps, part p.1 = part p.2

theorem IsParted.separates (h : f.IsParted part ps) (i : ι) : f.Separates (part · = i) :=
  fun c d hc hcd => (h.part_eq c d hcd).symm.trans hc

theorem IsParted.pairs (h : f.IsParted part ps) (i : ι) :
    ∀ p ∈ ps, (f.Holds p.1 ∧ f.Holds p.2) ∧ (part p.1 = i ↔ part p.2 = i) :=
  fun p hp => ⟨h.held p hp, by rw [h.within p hp]⟩

variable [DecidableEq ι]

theorem IsParted.unifyAll_part (h : f.IsParted part ps) (hf : f.IsGrounded) (hclosed : f.IsClosed)
    (hg : f.unifyAll ps = some g) (i : ι) : ∃ e, f.unifyAll (ps.filter (part ·.1 = i)) = some e ∧
      ∀ c, part c = i → e.entry c = g.entry c :=
  unifyAll_filter hf hclosed (reshapes_self hf hclosed) (h.separates i) (h.separates i)
    (fun _ _ => rfl) (h.pairs i) hg

/-- A list that can't be made one has a part that can't be. -/
theorem IsParted.exists_part_eq_none (h : f.IsParted part ps) (hf : f.IsGrounded)
    (hclosed : f.IsClosed) (hnone : f.unifyAll ps = none) :
    ∃ i, f.unifyAll (ps.filter (part ·.1 = i)) = none := by
  obtain ⟨qs, p, rest, f₁, rfl, hqs, hp⟩ := unifyAll_eq_none hnone
  have hsub : ∀ q ∈ qs, q ∈ qs ++ p :: rest := fun q hq => List.mem_append_left _ hq
  have hparted : f.IsParted part qs := ⟨h.part_eq, fun q hq => h.held q (hsub q hq),
    fun q hq => h.within q (hsub q hq)⟩
  obtain ⟨ha, hb⟩ := h.held p (by simp)
  have hboth := h.within p (by simp)
  have hstep := unifyAll_reshapes hf hclosed hparted.held hqs
  obtain ⟨e, he, hentry⟩ := hparted.unifyAll_part hf hclosed hqs (part p.1)
  have hstep' := unifyAll_reshapes hf hclosed
    (fun q hq => hparted.held q (List.mem_of_mem_filter hq)) he
  refine ⟨part p.1, ?_⟩
  rw [List.filter_append, List.filter_cons_of_pos (by simp), unifyAll_append, he, Option.bind_some,
    unifyAll]
  have hclash : (e.entry p.1).clash? (e.entry p.2) ≠ none := by
    rw [hentry p.1 rfl, hentry p.2 hboth.symm]
    intro hclash
    obtain ⟨g, hg, -⟩ := unify_of_noClash hstep.grounded hstep.closed
      (ha.of_length_eq hstep.length_eq) (hb.of_length_eq hstep.length_eq) hclash
    rw [hg] at hp
    cases hp
  rw [unify_of_clash hstep'.grounded hclash]
  rfl

/-- Both lists of pairs can be made one or none, and what is known of all identities in the end is
the same. -/
structure UnifyAlike (f : Forest) (ps qs : List (Alias × Alias)) : Prop where
  exists_iff : (∃ g, f.unifyAll ps = some g) ↔ ∃ g, f.unifyAll qs = some g
  entry_eq : ∀ {g g'}, f.unifyAll ps = some g → f.unifyAll qs = some g' →
    ∀ c, g'.entry c = g.entry c

theorem UnifyAlike.refl (f : Forest) (ps : List (Alias × Alias)) : f.UnifyAlike ps ps where
  exists_iff := Iff.rfl
  entry_eq hg hg' c := by rw [Option.some.inj (hg.symm.trans hg')]

theorem UnifyAlike.symm (h : f.UnifyAlike ps qs) : f.UnifyAlike qs ps where
  exists_iff := h.exists_iff.symm
  entry_eq hg hg' c := (h.entry_eq hg' hg c).symm

/-- A list whose parts can be made one as those of another list can be made one if that can. -/
theorem exists_unifyAll_of_parts (hf : f.IsGrounded) (hclosed : f.IsClosed)
    (hps : f.IsParted part ps) (hqs : f.IsParted part qs)
    (hparts : ∀ i, f.UnifyAlike (ps.filter (part ·.1 = i)) (qs.filter (part ·.1 = i)))
    (h : f.unifyAll ps = some g) : ∃ g', f.unifyAll qs = some g' := by
  by_contra hnone
  have hnone : f.unifyAll qs = none :=
    Option.eq_none_iff_forall_ne_some.2 fun g' hg' => hnone ⟨g', hg'⟩
  obtain ⟨i, hi⟩ := hqs.exists_part_eq_none hf hclosed hnone
  obtain ⟨e, he, -⟩ := hps.unifyAll_part hf hclosed h i
  obtain ⟨e', he'⟩ := (hparts i).exists_iff.1 ⟨e, he⟩
  rw [hi] at he'
  cases he'

/-- **Two lists of pairs make the same of a forest** when their parts do. -/
theorem unifyAlike_of_parts (hf : f.IsGrounded) (hclosed : f.IsClosed) (hps : f.IsParted part ps)
    (hqs : f.IsParted part qs)
    (hparts : ∀ i, f.UnifyAlike (ps.filter (part ·.1 = i)) (qs.filter (part ·.1 = i))) :
    f.UnifyAlike ps qs where
  exists_iff := by
    constructor
    · rintro ⟨g, hg⟩
      exact exists_unifyAll_of_parts hf hclosed hps hqs hparts hg
    · rintro ⟨g, hg⟩
      exact exists_unifyAll_of_parts hf hclosed hqs hps (fun i => (hparts i).symm) hg
  entry_eq {g g'} hg hg' c := by
    obtain ⟨e, he, hentry⟩ := hps.unifyAll_part hf hclosed hg (part c)
    obtain ⟨e', he', hentry'⟩ := hqs.unifyAll_part hf hclosed hg' (part c)
    rw [← hentry' c rfl, (hparts (part c)).entry_eq he he', hentry c rfl]

end

/-! ## Three occurrences -/

theorem exists_unify_iff (hf : f.IsGrounded) (hclosed : f.IsClosed) (ha : f.Holds a)
    (hb : f.Holds b) :
    (∃ g, f.unify a b = some g) ↔ (f.entry a).clash? (f.entry b) = none := by
  constructor
  · rintro ⟨g, hg⟩
    exact (unify_eq_some hf hclosed ha hb hg).1
  · intro hclash
    obtain ⟨g, hg, -⟩ := unify_of_noClash hf hclosed ha hb hclash
    exact ⟨g, hg⟩

/-- Two pairs are made one when the first is, and then the second. -/
theorem unifyAll_two {p q : Alias × Alias} : f.unifyAll [p, q] = some g ↔
    ∃ e, f.unify p.1 p.2 = some e ∧ e.unify q.1 q.2 = some g := by
  simp only [unifyAll, Option.bind_eq_some_iff, Option.some.injEq, exists_eq_right]

/-- What is known of `c` once `a` and `b` are one occurrence. -/
def joined (f : Forest) (a b c : Alias) : Entry :=
  if f.root c = f.root b ∨ f.root c = f.root a then (f.entry a).absorb (f.entry b) else f.entry c

theorem root_joined (f : Forest) (a b c : Alias) : (f.joined a b c).root =
    if f.root c = f.root b ∨ f.root c = f.root a then f.root a else f.root c := by
  rw [joined]
  split <;> rfl

/-- Two pairs can be made one if the first doesn't clash, and the second doesn't behind it. -/
theorem unifyAll_two_iff {d : Alias} (hf : f.IsGrounded) (hclosed : f.IsClosed) (ha : f.Holds a)
    (hb : f.Holds b) (hc : f.Holds c) (hd : f.Holds d) :
    ((∃ g, f.unifyAll [(a, b), (c, d)] = some g) ↔ (f.entry a).clash? (f.entry b) = none ∧
      (f.joined a b c).clash? (f.joined a b d) = none) ∧
    ∀ g, f.unifyAll [(a, b), (c, d)] = some g → ∀ x, g.entry x =
      if (f.joined a b x).root = (f.joined a b d).root ∨
          (f.joined a b x).root = (f.joined a b c).root then
        (f.joined a b c).absorb (f.joined a b d) else f.joined a b x := by
  have hsecond : ∀ {e}, f.unify a b = some e → f.Reshapes e ∧ ((∃ g, e.unify c d = some g) ↔
      (f.joined a b c).clash? (f.joined a b d) = none) ∧ ∀ x, e.entry x = f.joined a b x := by
    intro e he
    obtain ⟨-, hstep, hentry⟩ := unify_eq_some hf hclosed ha hb he
    refine ⟨hstep, ?_, hentry⟩
    rw [exists_unify_iff hstep.grounded hstep.closed (hc.of_length_eq hstep.length_eq)
      (hd.of_length_eq hstep.length_eq), hentry, hentry]
    rfl
  refine ⟨?_, fun g hg x => ?_⟩
  · rw [← exists_unify_iff hf hclosed ha hb]
    simp only [unifyAll_two]
    constructor
    · rintro ⟨g, e, he, hg⟩
      exact ⟨⟨e, he⟩, (hsecond he).2.1.1 ⟨g, hg⟩⟩
    · rintro ⟨⟨e, he⟩, hclash⟩
      obtain ⟨g, hg⟩ := (hsecond he).2.1.2 hclash
      exact ⟨g, e, he, hg⟩
  · obtain ⟨e, he, hg⟩ := unifyAll_two.1 hg
    obtain ⟨hstep, -, hentry⟩ := hsecond he
    obtain ⟨-, -, hentry'⟩ := unify_eq_some hstep.grounded hstep.closed
      (hc.of_length_eq hstep.length_eq) (hd.of_length_eq hstep.length_eq) hg
    have hroot : ∀ y, e.root y = (f.joined a b y).root := fun y => congrArg Entry.root (hentry y)
    rw [hentry', hroot, hroot, hroot, hentry, hentry, hentry]

/-- **Three occurrences become one** whichever two become one first: the first and the second, and
then the first and the third, or the second and the third, and then the first and the second. -/
theorem unifyAlike_assoc (hf : f.IsGrounded) (hclosed : f.IsClosed) (ha : f.Holds a)
    (hb : f.Holds b) (hc : f.Holds c) (hab : f.root a ≠ f.root b) (hac : f.root c ≠ f.root a)
    (hbc : f.root c ≠ f.root b) : f.UnifyAlike [(a, b), (a, c)] [(b, c), (a, b)] := by
  have hfirst := unifyAll_two_iff hf hclosed ha hb ha hc
  have hlast := unifyAll_two_iff hf hclosed hb hc ha hb
  have hjoinedA : f.joined a b a = (f.entry a).absorb (f.entry b) := if_pos (.inr rfl)
  have hjoinedC : f.joined a b c = f.entry c := if_neg (not_or.2 ⟨hbc, hac⟩)
  have hjoinedB : f.joined b c b = (f.entry b).absorb (f.entry c) := if_pos (.inr rfl)
  have hjoinedA' : f.joined b c a = f.entry a := if_neg (not_or.2 ⟨hac.symm, hab⟩)
  rw [hjoinedA, hjoinedC] at hfirst
  rw [hjoinedA', hjoinedB] at hlast
  refine ⟨hfirst.1.trans ((Entry.clash?_assoc _ _ _).trans hlast.1.symm),
    fun {g g'} hg hg' x => ?_⟩
  rw [hfirst.2 g hg, hlast.2 g' hg', root_joined, root_joined, Entry.absorb_assoc]
  simp only [joined, Entry.absorb, entry]
  grind

end Forest

end SqlTree
