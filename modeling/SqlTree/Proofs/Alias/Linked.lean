import Mathlib.Data.Sym.Sym2
import Mathlib.Logic.Relation
import SqlTree.Proofs.Alias.Operations

/-!
# Pairs in any order

Which identities become one occurrence when pairs are made one, and what is known of it then, is
told by the forest in front of the pairs and by which pairs there are. Neither the order of the
pairs nor the direction of any of them matters.

* `Forest.Linked f ps` is the equivalence that the pairs `ps` generate on the occurrences of `f`,
  and `Entry.label` is what labels are known of an occurrence, tables up to ASCII case.
* `Forest.Gathers f ps g` is the invariant: the occurrences of `g` are the classes of that
  equivalence, each of them with the labels of all its members. A pair that is made one gathers
  (`Forest.unify_gathers`), and so does what gathers behind what gathered (`Forest.Gathers.append`).
* `Forest.exists_unifyAll_iff`: all pairs can be made one when no two linked identities clash.
* `Forest.unifyAll_reorder`: pairs in another order, some of them exchanged, come to the same.
-/

namespace SqlTree

/-- What an occurrence may be labelled with: the name its user gave to it, or its table. -/
inductive Label where
  | user
  | table

namespace Entry

variable {v w : Entry} {l : Label} {x : String}

/-- A label of an occurrence. Tables that are the same have the same label. -/
def label (v : Entry) : Label → Option String
  | .user => v.userName?
  | .table => v.tableName?.map Text.asciiLower

theorem label_absorb (v w : Entry) (l : Label) :
    (v.absorb w).label l = (v.label l <|> w.label l) := by
  cases l with
  | user => rfl
  | table =>
    rw [label, label, label, absorb]
    cases v.tableName? <;> rfl

/-- Two names clash when there are two, and they have different keys. -/
theorem clashOf_eq_none_iff (same : String → String → Bool) (key : String → String)
    (hsame : ∀ x y, same x y = true ↔ key x = key y) (x? y? : Option String) :
    clashOf same x? y? = none ↔
      ∀ x y, x?.map key = some x → y?.map key = some y → x = y := by
  cases x? <;> cases y? <;> simp [clashOf, hsame]

/-- **Two occurrences clash** when they have different labels of one kind. -/
theorem clash?_eq_none_iff : v.clash? w = none ↔
    ∀ l x y, v.label l = some x → w.label l = some y → x = y := by
  have hnames := clashOf_eq_none_iff (· == ·) id (fun _ _ => beq_iff_eq) v.userName? w.userName?
  have htables := clashOf_eq_none_iff Text.sameName Text.asciiLower (fun _ _ => Text.sameName_iff)
    v.tableName? w.tableName?
  simp only [Option.map_id, id_eq] at hnames
  rw [clash?, Forest.orElse_eq_none, hnames, htables]
  exact ⟨fun h l => Label.rec h.1 h.2 l, fun h => ⟨h .user, h .table⟩⟩

theorem label_absorb_eq_some_iff (h : v.clash? w = none) :
    (v.absorb w).label l = some x ↔ v.label l = some x ∨ w.label l = some x := by
  rw [label_absorb]
  cases hv : v.label l with
  | none => simp
  | some y =>
    refine ⟨Or.inl, ?_⟩
    rintro (hy | hw)
    · exact hy
    · rw [clash?_eq_none_iff.1 h l y x hv hw]
      rfl

end Entry

namespace Forest

variable {f g g' e : Forest} {a b c d : Alias} {ps qs : List (Alias × Alias)} {l : Label}

/-! ## Identities that pairs make one -/

/-- The identities that are one occurrence when all pairs are. -/
def Linked (f : Forest) (ps : List (Alias × Alias)) : Alias → Alias → Prop :=
  Relation.EqvGen fun a b => f.root a = f.root b ∨ (a, b) ∈ ps

theorem linked_of_root_eq (h : f.root a = f.root b) : f.Linked ps a b := .rel _ _ (.inl h)

theorem linked_of_mem {p : Alias × Alias} (h : p ∈ ps) : f.Linked ps p.1 p.2 :=
  .rel _ _ (.inr h)

theorem Linked.symm (h : f.Linked ps a b) : f.Linked ps b a := Relation.EqvGen.symm _ _ h

theorem Linked.trans (h : f.Linked ps a b) (h' : f.Linked ps b c) : f.Linked ps a c :=
  Relation.EqvGen.trans _ _ _ h h'

/-- An equivalence that relates the identities of every occurrence and of every pair relates all
that are linked. -/
theorem Linked.within {r : Alias → Alias → Prop} (hr : Equivalence r)
    (hroot : ∀ a b, f.root a = f.root b → r a b) (hpairs : ∀ p ∈ ps, r p.1 p.2)
    (h : f.Linked ps a b) : r a b := by
  induction h with
  | rel a b hab => exact hab.elim (hroot a b) (hpairs (a, b))
  | refl a => exact hr.refl a
  | symm a b _ ih => exact hr.symm ih
  | trans a b c _ _ ih ih' => exact hr.trans ih ih'

theorem linked_equivalence (f : Forest) (ps : List (Alias × Alias)) :
    Equivalence (f.Linked ps) :=
  Relation.EqvGen.is_equivalence _

theorem root_equivalence (g : Forest) : Equivalence fun a b => g.root a = g.root b :=
  ⟨fun _ => rfl, Eq.symm, Eq.trans⟩

/-- Identities linked by some pairs are linked by whatever pairs link these. -/
theorem Linked.of_pairs (hpairs : ∀ p ∈ ps, f.Linked qs p.1 p.2) (h : f.Linked ps a b) :
    f.Linked qs a b :=
  h.within (f.linked_equivalence qs) (fun _ _ => linked_of_root_eq) hpairs

/-! ## What pairs make of a forest -/

/-- The occurrences of `g` are those of `f` with the pairs `ps` made one, and each has the labels
of all identities in it. -/
structure Gathers (f : Forest) (ps : List (Alias × Alias)) (g : Forest) : Prop where
  root_eq_iff : ∀ a b, g.root a = g.root b ↔ f.Linked ps a b
  label_iff : ∀ a l x, (g.entry a).label l = some x ↔
    ∃ b, f.Linked ps a b ∧ (f.entry b).label l = some x

theorem gathers_nil (f : Forest) : f.Gathers [] f := by
  have hroot : ∀ a b, f.root a = f.root b ↔ f.Linked [] a b := fun a b =>
    ⟨linked_of_root_eq, Linked.within f.root_equivalence (fun _ _ => id) (List.forall_mem_nil _)⟩
  refine ⟨hroot, fun a l x => ⟨fun h => ⟨a, linked_of_root_eq rfl, h⟩, ?_⟩⟩
  rintro ⟨b, hab, h⟩
  rwa [entry_congr ((hroot a b).2 hab)]

/-- A pair links what was one occurrence with one of its identities or the other. -/
theorem linked_pair_iff : f.Linked [(a, b)] c d ↔ f.root c = f.root d ∨
    (f.root c = f.root b ∨ f.root c = f.root a) ∧ (f.root d = f.root b ∨ f.root d = f.root a) := by
  have hr : Equivalence fun c d => f.root c = f.root d ∨
      (f.root c = f.root b ∨ f.root c = f.root a) ∧
        (f.root d = f.root b ∨ f.root d = f.root a) := by
    refine ⟨fun _ => .inl rfl, fun h => h.imp Eq.symm And.symm, fun h h' => ?_⟩
    rcases h with h | h
    · rwa [h]
    · exact .inr ⟨h.1, h'.elim (fun h' => h' ▸ h.2) And.right⟩
  constructor
  · refine Linked.within hr (fun _ _ => .inl) fun p hp => ?_
    obtain rfl := List.mem_singleton.1 hp
    exact .inr ⟨.inr rfl, .inl rfl⟩
  · have hlink : f.Linked [(a, b)] a b := linked_of_mem (p := (a, b)) List.mem_cons_self
    have hfirst : ∀ c, f.root c = f.root b ∨ f.root c = f.root a → f.Linked [(a, b)] c a := by
      rintro c (hcb | hca)
      · exact (linked_of_root_eq hcb).trans hlink.symm
      · exact linked_of_root_eq hca
    rintro (hcd | ⟨hc, hd⟩)
    · exact linked_of_root_eq hcd
    · exact (hfirst c hc).trans (hfirst d hd).symm

/-- **One pair** is gathered when it is made one. -/
theorem unify_gathers (hf : f.IsGrounded) (hclosed : f.IsClosed) (ha : f.Holds a) (hb : f.Holds b)
    (h : f.unify a b = some g) : f.Gathers [(a, b)] g := by
  obtain ⟨hclash, -, hentry⟩ := unify_eq_some hf hclosed ha hb h
  refine ⟨fun c d => ?_, fun c l x => ?_⟩
  · rw [linked_pair_iff, root_of_unified hentry, root_of_unified hentry]
    by_cases hc : f.root c = f.root b ∨ f.root c = f.root a
    · by_cases hd : f.root d = f.root b ∨ f.root d = f.root a
      · rw [if_pos hc, if_pos hd]
        exact iff_of_true rfl (.inr ⟨hc, hd⟩)
      · rw [if_pos hc, if_neg hd]
        exact iff_of_false (fun had => hd (.inr had.symm)) fun hcd =>
          hd (hcd.elim (fun hcd => hcd ▸ hc) And.right)
    · rw [if_neg hc]
      refine ⟨fun hcd => ?_, fun hcd => ?_⟩
      · split at hcd
        · exact absurd (.inr hcd) hc
        · exact .inl hcd
      · rcases hcd with hcd | hcd
        · rw [if_neg (hcd ▸ hc), hcd]
        · exact absurd hcd.1 hc
  · simp only [linked_pair_iff]
    rw [hentry]
    split
    · rename_i hc
      rw [Entry.label_absorb_eq_some_iff hclash]
      constructor
      · rintro (hx | hx)
        · exact ⟨a, .inr ⟨hc, .inr rfl⟩, hx⟩
        · exact ⟨b, .inr ⟨hc, .inl rfl⟩, hx⟩
      · rintro ⟨d, hcd, hx⟩
        rcases hcd.elim (fun hcd => hcd ▸ hc) And.right with hd | hd
        · exact .inr (entry_congr hd ▸ hx)
        · exact .inl (entry_congr hd ▸ hx)
    · rename_i hc
      refine ⟨fun hx => ⟨c, .inl rfl, hx⟩, ?_⟩
      rintro ⟨d, hcd | hcd, hx⟩
      · exact entry_congr hcd ▸ hx
      · exact absurd hcd.1 hc

/-- Pairs behind others link what all of them link. -/
theorem Gathers.linked_iff (h : f.Gathers ps e) : e.Linked qs a b ↔ f.Linked (ps ++ qs) a b := by
  constructor
  · refine Linked.within (f.linked_equivalence _) (fun a b hab => ?_) fun p hp =>
      linked_of_mem (List.mem_append_right ps hp)
    exact ((h.root_eq_iff a b).1 hab).of_pairs fun p hp =>
      linked_of_mem (List.mem_append_left qs hp)
  · refine Linked.within (e.linked_equivalence _) (fun a b hab => ?_) fun p hp => ?_
    · exact linked_of_root_eq ((h.root_eq_iff a b).2 (linked_of_root_eq hab))
    · rcases List.mem_append.1 hp with hp | hp
      · exact linked_of_root_eq ((h.root_eq_iff _ _).2 (linked_of_mem hp))
      · exact linked_of_mem hp

theorem Gathers.append (h : f.Gathers ps e) (h' : e.Gathers qs g) : f.Gathers (ps ++ qs) g := by
  refine ⟨fun a b => (h'.root_eq_iff a b).trans h.linked_iff, fun a l x => ?_⟩
  rw [h'.label_iff]
  constructor
  · rintro ⟨b, hab, hb⟩
    obtain ⟨c, hbc, hc⟩ := (h.label_iff b l x).1 hb
    exact ⟨c, (h.linked_iff.1 hab).trans (hbc.of_pairs fun p hp =>
      linked_of_mem (List.mem_append_left qs hp)), hc⟩
  · rintro ⟨c, hac, hc⟩
    exact ⟨c, h.linked_iff.2 hac, (h.label_iff c l x).2 ⟨c, linked_of_root_eq rfl, hc⟩⟩

/-- **Pairs one after the other** are gathered when they are made one. -/
theorem unifyAll_gathers (hf : f.IsGrounded) (hclosed : f.IsClosed)
    (hps : ∀ p ∈ ps, f.Holds p.1 ∧ f.Holds p.2) (h : f.unifyAll ps = some g) :
    f.Gathers ps g := by
  induction ps generalizing f with
  | nil =>
    obtain rfl := Option.some.inj h
    exact f.gathers_nil
  | cons p ps ih =>
    obtain ⟨⟨ha, hb⟩, hps⟩ := List.forall_mem_cons.1 hps
    obtain ⟨e, he, h⟩ := Option.bind_eq_some_iff.1 h
    obtain ⟨-, hstep, -⟩ := unify_eq_some hf hclosed ha hb he
    refine (unify_gathers hf hclosed ha hb he).append (ih hstep.grounded hstep.closed ?_ h)
    exact fun q hq => (hps q hq).imp (·.of_length_eq hstep.length_eq)
      (·.of_length_eq hstep.length_eq)

/-- Identities that were gathered don't clash. -/
theorem Gathers.noClash (h : f.Gathers ps g) (hab : f.Linked ps a b) :
    (f.entry a).clash? (f.entry b) = none := by
  refine Entry.clash?_eq_none_iff.2 fun l x y hx hy => ?_
  have hx := (h.label_iff a l x).2 ⟨a, linked_of_root_eq rfl, hx⟩
  have hy := (h.label_iff a l y).2 ⟨b, hab, hy⟩
  exact Option.some.inj (hx.symm.trans hy)

/-- **All pairs can be made one** when no two identities clash that they link. -/
theorem exists_unifyAll_iff (hf : f.IsGrounded) (hclosed : f.IsClosed)
    (hps : ∀ p ∈ ps, f.Holds p.1 ∧ f.Holds p.2) : (∃ g, f.unifyAll ps = some g) ↔
      ∀ a b, f.Linked ps a b → (f.entry a).clash? (f.entry b) = none := by
  refine ⟨fun ⟨g, hg⟩ a b => (unifyAll_gathers hf hclosed hps hg).noClash, fun hclash => ?_⟩
  induction ps generalizing f with
  | nil => exact ⟨f, rfl⟩
  | cons p ps ih =>
    obtain ⟨⟨ha, hb⟩, hps⟩ := List.forall_mem_cons.1 hps
    obtain ⟨e, he, -⟩ := unify_of_noClash hf hclosed ha hb
      (hclash p.1 p.2 (linked_of_mem List.mem_cons_self))
    obtain ⟨-, hstep, -⟩ := unify_eq_some hf hclosed ha hb he
    have hfirst := unify_gathers hf hclosed ha hb he
    -- A label behind the first pair is one of an identity in front of it.
    have hrest : ∀ a b, e.Linked ps a b → (e.entry a).clash? (e.entry b) = none := by
      refine fun a b hab => Entry.clash?_eq_none_iff.2 fun l x y hx hy => ?_
      obtain ⟨c, hac, hc⟩ := (hfirst.label_iff a l x).1 hx
      obtain ⟨d, hbd, hd⟩ := (hfirst.label_iff b l y).1 hy
      have hsub : ∀ q ∈ [p], f.Linked (p :: ps) q.1 q.2 := fun q hq =>
        linked_of_mem (List.mem_append_left ps hq)
      have hcd := ((hac.of_pairs hsub).symm.trans (hfirst.linked_iff.1 hab)).trans
        (hbd.of_pairs hsub)
      exact Entry.clash?_eq_none_iff.1 (hclash c d hcd) l x y hc hd
    obtain ⟨g, hg⟩ := ih hstep.grounded hstep.closed (fun q hq => (hps q hq).imp
      (·.of_length_eq hstep.length_eq) (·.of_length_eq hstep.length_eq)) hrest
    exact ⟨g, by rw [unifyAll, he, Option.bind_some, hg]⟩

/-! ## The same pairs in another order -/

/-- Every pair of one list is one of the other, in one direction or the other. -/
def SamePairs (ps qs : List (Alias × Alias)) : Prop :=
  ∀ a b, (a, b) ∈ ps ∨ (b, a) ∈ ps ↔ (a, b) ∈ qs ∨ (b, a) ∈ qs

theorem SamePairs.symm (h : SamePairs ps qs) : SamePairs qs ps := fun a b => (h a b).symm

theorem samePairs_of_perm (h : (ps.map fun p => s(p.1, p.2)).Perm (qs.map fun p => s(p.1, p.2))) :
    SamePairs ps qs := by
  have hmem : ∀ (ps : List (Alias × Alias)) (a b : Alias),
      s(a, b) ∈ ps.map (fun p => s(p.1, p.2)) ↔ (a, b) ∈ ps ∨ (b, a) ∈ ps := by
    intro ps a b
    simp only [List.mem_map, Sym2.eq_iff, Prod.exists]
    grind
  intro a b
  rw [← hmem, ← hmem, h.mem_iff]

theorem SamePairs.linked (h : SamePairs ps qs) (hab : f.Linked ps a b) : f.Linked qs a b := by
  refine hab.of_pairs fun p hp => ?_
  rcases (h p.1 p.2).1 (.inl hp) with hp | hp
  · exact linked_of_mem hp
  · exact (linked_of_mem hp).symm

theorem SamePairs.linked_iff (h : SamePairs ps qs) : f.Linked ps a b ↔ f.Linked qs a b :=
  ⟨h.linked, h.symm.linked⟩

theorem SamePairs.exists_unifyAll_iff (h : SamePairs ps qs) (hf : f.IsGrounded)
    (hclosed : f.IsClosed) (hps : ∀ p ∈ ps, f.Holds p.1 ∧ f.Holds p.2)
    (hqs : ∀ p ∈ qs, f.Holds p.1 ∧ f.Holds p.2) :
    (∃ g, f.unifyAll ps = some g) ↔ ∃ g, f.unifyAll qs = some g := by
  rw [Forest.exists_unifyAll_iff hf hclosed hps, Forest.exists_unifyAll_iff hf hclosed hqs]
  simp only [h.linked_iff]

/-- The pairs were made when those of the other list were. -/
theorem SamePairs.held (h : SamePairs ps qs) (hps : ∀ p ∈ ps, f.Holds p.1 ∧ f.Holds p.2) :
    ∀ p ∈ qs, f.Holds p.1 ∧ f.Holds p.2 := by
  intro p hp
  rcases (h p.1 p.2).2 (.inl hp) with hp | hp
  · exact hps _ hp
  · exact (hps _ hp).symm

/-- What gathers the same pairs has the same occurrences with the same labels. -/
theorem Gathers.label_eq (hg : f.Gathers ps g) (hg' : f.Gathers qs g') (h : SamePairs ps qs)
    (a : Alias) (l : Label) : (g'.entry a).label l = (g.entry a).label l := by
  refine Option.ext fun x => ?_
  rw [hg'.label_iff, hg.label_iff]
  simp only [h.linked_iff]

/-- **The order of pairs doesn't matter, nor does the direction of any.** Where all of them can be
made one in some order they can be in any other, with any of them exchanged. The identities that
are one occurrence in the end are the same, and so is the name of each, and the table of each up to
ASCII case. -/
theorem unifyAll_reorder (hf : f.IsGrounded) (hclosed : f.IsClosed)
    (hps : ∀ p ∈ ps, f.Holds p.1 ∧ f.Holds p.2)
    (horder : (ps.map fun p => s(p.1, p.2)).Perm (qs.map fun p => s(p.1, p.2)))
    (h : f.unifyAll ps = some g) : ∃ g', f.unifyAll qs = some g' ∧
      (∀ a b, g'.isSame a b = g.isSame a b) ∧
      (∀ a, g'.userName? a = g.userName? a) ∧
      ∀ a, (g'.tableName? a).map Text.asciiLower = (g.tableName? a).map Text.asciiLower := by
  have hsame := samePairs_of_perm horder
  have hqs := hsame.held hps
  obtain ⟨g', hg'⟩ := (hsame.exists_unifyAll_iff hf hclosed hps hqs).1 ⟨g, h⟩
  have hgathers := unifyAll_gathers hf hclosed hps h
  have hgathers' := unifyAll_gathers hf hclosed hqs hg'
  refine ⟨g', hg', fun a b => ?_, fun a => ?_, fun a => ?_⟩
  · rw [isSame, isSame, Bool.eq_iff_iff, beq_iff_eq, beq_iff_eq, hgathers'.root_eq_iff,
      hgathers.root_eq_iff, hsame.linked_iff]
  · exact hgathers.label_eq hgathers' hsame a .user
  · exact hgathers.label_eq hgathers' hsame a .table

/-- Two players, one of them in capitals, a name, and an identity that nothing is known of. -/
def twoPlayers : Forest :=
  ⟨[.bound "Player" none, .free (some "p"), .free none, .bound "player" none]⟩

theorem twoPlayers_steps : AliasOp.Steps .empty [.make none, .bind ⟨0⟩ "Player", .make (some "p"),
    .make none, .make none, .bind ⟨3⟩ "player"] twoPlayers := by
  refine .cons (by decide) (.cons (by decide) (.cons (by decide) (.cons (by decide)
    (.cons (by decide) (.cons (by decide) .nil)))))

/-- The four become one from either end. The table is spelled as at the end that others join. -/
theorem unifyAll_reorder_players : ∃ g g',
    twoPlayers.unifyAll [(⟨0⟩, ⟨1⟩), (⟨2⟩, ⟨3⟩), (⟨1⟩, ⟨2⟩)] = some g ∧
    twoPlayers.unifyAll [(⟨3⟩, ⟨2⟩), (⟨2⟩, ⟨1⟩), (⟨1⟩, ⟨0⟩)] = some g' ∧
    g.tableName? ⟨0⟩ = some "Player" ∧ g'.tableName? ⟨0⟩ = some "player" ∧
    g'.isSame ⟨0⟩ ⟨3⟩ = g.isSame ⟨0⟩ ⟨3⟩ ∧ g'.userName? ⟨0⟩ = some "p" := by
  obtain ⟨⟨hf, hclosed⟩, -⟩ := twoPlayers_steps.keeps isGrounded_empty isClosed_empty
  have hps : ∀ p ∈ [((⟨0⟩ : Alias), (⟨1⟩ : Alias)), (⟨2⟩, ⟨3⟩), (⟨1⟩, ⟨2⟩)],
      twoPlayers.Holds p.1 ∧ twoPlayers.Holds p.2 := by
    unfold Holds
    decide
  have horder : ([((⟨0⟩ : Alias), (⟨1⟩ : Alias)), (⟨2⟩, ⟨3⟩), (⟨1⟩, ⟨2⟩)].map
      fun p => s(p.1, p.2)).Perm
      ([((⟨3⟩ : Alias), (⟨2⟩ : Alias)), (⟨2⟩, ⟨1⟩), (⟨1⟩, ⟨0⟩)].map fun p => s(p.1, p.2)) := by
    decide
  obtain ⟨g', hg', hsame, hname, -⟩ := unifyAll_reorder hf hclosed hps horder rfl
  refine ⟨_, g', rfl, hg', rfl, ?_, hsame _ _, (hname _).trans rfl⟩
  obtain rfl := Option.some.inj hg'
  rfl

end Forest

end SqlTree
