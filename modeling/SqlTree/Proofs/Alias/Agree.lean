import SqlTree.Proofs.Alias.Bindings

/-!
# Forests that agree

Two forests may differ without work on some identities noticing it: where these are of one
occurrence in both or in none, and have the same names and tables. The identities need not be the
same ones, `m` gives the one in the second forest. `Forest.Agree` says this of all identities that
are `known`. A table may also be known in one of the forests only, if the work is about to bind the
occurrence to just this table first; what is still to be bound is `pending`.

* `Forest.Agree.fresh`, `Forest.Agree.bind` and `Forest.Agree.link`: making, binding and naming
  sources keep forests in agreement, and go well in both or fail for one reason in both.
* `AliasM.Agrees` says that of work in general, with a lemma for each way to build it.
-/

namespace SqlTree

variable {α β : Type}

/-! ## Work in two forests -/

namespace AliasM

/-- The work `x` in the forest `f` and the work `y` in the forest `g` have results and leave forests
in the relation `R`, or fail for one reason. -/
inductive Agrees (x y : AliasM α) (R : α → α → Forest → Forest → Prop) (f g : Forest) : Prop
  | results {a b : α} {f' g' : Forest} :
      Runs x f a f' → Runs y g b g' → R a b f' g' → Agrees x y R f g
  | failures {e : CompileError} : x.outcome f = .error e → y.outcome g = .error e → Agrees x y R f g

namespace Agrees

variable {x y : AliasM α} {k l : α → AliasM β} {R : α → α → Forest → Forest → Prop}
  {S : β → β → Forest → Forest → Prop} {f g : Forest}

theorem pure {a b : α} (h : R a b f g) : Agrees (Pure.pure a) (Pure.pure b) R f g :=
  .results (runs_pure.2 ⟨rfl, rfl⟩) (runs_pure.2 ⟨rfl, rfl⟩) h

theorem bind (hx : Agrees x y R f g)
    (hk : ∀ a b f' g', R a b f' g' → Agrees (k a) (l b) S f' g') :
    Agrees (x >>= k) (y >>= l) S f g := by
  cases hx with
  | failures hf hg => exact .failures (outcome_bind_of_error hf k) (outcome_bind_of_error hg l)
  | @results a b f' g' hf hg hR =>
    cases hk a b f' g' hR with
    | failures hf' hg' =>
      exact .failures (hf.outcome_bind.trans hf') (hg.outcome_bind.trans hg')
    | results hf' hg' hS =>
      exact .results (runs_bind.2 ⟨a, f', hf, hf'⟩) (runs_bind.2 ⟨b, g', hg, hg'⟩) hS

theorem imp {R' : α → α → Forest → Forest → Prop} (h : Agrees x y R f g)
    (hR : ∀ a b f' g', Runs x f a f' → Runs y g b g' → R a b f' g' → R' a b f' g') :
    Agrees x y R' f g := by
  cases h with
  | failures hf hg => exact .failures hf hg
  | results hf hg h => exact .results hf hg (hR _ _ _ _ hf hg h)

theorem outcome_eq (h : Agrees x y (fun a b _ _ => b = a) f g) : y.outcome g = x.outcome f := by
  cases h with
  | failures hf hg => rw [hf, hg]
  | results hf hg hab => rw [outcome, outcome, hf, hg, hab]

theorem change {step step' : Forest → Except CompileError Forest} {T : Forest → Forest → Prop}
    (h : FailsAlike T (step f) (step' g)) :
    Agrees (AliasM.change step) (AliasM.change step') (fun _ _ => T) f g := by
  cases hf : step f with
  | ok f' =>
    cases hg : step' g with
    | ok g' =>
      rw [hf, hg] at h
      cases h with
      | results hT => exact .results (a := ()) (b := ()) (runs_change.2 hf) (runs_change.2 hg) hT
    | error e =>
      rw [hf, hg] at h
      cases h
  | error e =>
    cases hg : step' g with
    | ok g' =>
      rw [hf, hg] at h
      cases h
    | error e' =>
      rw [hf, hg] at h
      cases h
      refine .failures (e := e) ?_ ?_
      · simp only [outcome, AliasM.change, ExceptT.run_mk, StateT.run, Id.run, hf]
      · simp only [outcome, AliasM.change, ExceptT.run_mk, StateT.run, Id.run, hg]

theorem read {view view' : Forest → Except CompileError α} (h : view' g = view f) :
    Agrees (AliasM.read view) (AliasM.read view') (fun a b f' g' => b = a ∧ f' = f ∧ g' = g)
      f g := by
  cases hf : view f with
  | ok a => exact .results (runs_read.2 ⟨hf, rfl⟩) (runs_read.2 ⟨h.trans hf, rfl⟩) ⟨rfl, rfl, rfl⟩
  | error e => exact .failures hf (h.trans hf)

end Agrees

end AliasM

/-- The identity that `a` is where `d` more were made behind the first `n`. -/
def Alias.shift (n d : Nat) (a : Alias) : Alias := if a.id < n then a else ⟨a.id + d⟩

namespace Alias

theorem shift_of_lt {n d : Nat} {a : Alias} (ha : a.id < n) : a.shift n d = a := if_pos ha

theorem shift_of_le {n d : Nat} {a : Alias} (ha : n ≤ a.id) : a.shift n d = ⟨a.id + d⟩ :=
  if_neg (Nat.not_lt.2 ha)

theorem shift_zero (n : Nat) (a : Alias) : a.shift n 0 = a := ite_self a

end Alias

namespace Forest

/-! ## Agreeing -/

/-- The forests tell apart the same of the `known` identities, which `m` gives in the second one,
and know the same of them, up to tables that are `pending`. All identities still to be made are
known, and `m` gives them in the order in which they are made. -/
structure Agree (m : Alias → Alias) (known : Alias → Prop) (pending : List (Alias × String))
    (f g : Forest) : Prop where
  grounded : f.IsGrounded
  grounded' : g.IsGrounded
  closed : f.IsClosed
  closed' : g.IsClosed
  made : ∀ k, m ⟨f.cells.length + k⟩ = ⟨g.cells.length + k⟩
  later : ∀ a : Alias, f.cells.length ≤ a.id → known a
  holds : ∀ {a}, known a → f.Holds a → g.Holds (m a)
  held : ∀ p ∈ pending, f.Holds p.1
  same : ∀ {a b}, known a → known b → (g.root (m a) = g.root (m b) ↔ f.root a = f.root b)
  userName? : ∀ {a}, known a → g.userName? (m a) = f.userName? a
  tableName? : ∀ {a}, known a → (g.tableName? (m a)).or (f.firstBinding pending a) =
    (f.tableName? a).or (f.firstBinding pending a)

namespace Agree

variable {m : Alias → Alias} {known : Alias → Prop} {pending : List (Alias × String)}
  {f g : Forest} {a b owner own : Alias}

/-- **Forests agree on all that is made later** when they do on what is known. -/
theorem of_known {d : Nat} (hf : f.IsGrounded) (hg : g.IsGrounded) (hclosed : f.IsClosed)
    (hclosed' : g.IsClosed) (hlength : g.cells.length = f.cells.length + d)
    (hknown : ∀ a, known a → f.Holds a) (hheld : ∀ p ∈ pending, f.Holds p.1)
    (hsame : ∀ a b, known a → known b → (g.root a = g.root b ↔ f.root a = f.root b))
    (huser : ∀ a, known a → g.userName? a = f.userName? a)
    (htable : ∀ a, known a → (g.tableName? a).or (f.firstBinding pending a) =
      (f.tableName? a).or (f.firstBinding pending a)) :
    Agree (Alias.shift f.cells.length d) (fun a => known a ∨ ¬ f.Holds a) pending f g := by
  have hold : ∀ {a}, known a → a.shift f.cells.length d = a :=
    fun ha => Alias.shift_of_lt (hknown _ ha)
  have hnew : ∀ {a}, ¬ f.Holds a → a.shift f.cells.length d = ⟨a.id + d⟩ ∧
      f.entry a = ⟨a, none, none⟩ ∧ g.entry ⟨a.id + d⟩ = ⟨⟨a.id + d⟩, none, none⟩ := by
    intro a ha
    refine ⟨Alias.shift_of_le (Nat.le_of_not_lt ha), entry_of_not_holds ha,
      entry_of_not_holds fun hheld => ha ?_⟩
    rw [Holds, hlength] at hheld
    exact Nat.lt_of_add_lt_add_right hheld
  have hrootNew : ∀ {a}, ¬ f.Holds a → f.root a = a ∧ g.root ⟨a.id + d⟩ = ⟨a.id + d⟩ :=
    fun ha => ⟨congrArg Entry.root (hnew ha).2.1, congrArg Entry.root (hnew ha).2.2⟩
  -- What is made later is no occurrence of what was made.
  have hapart : ∀ {a b}, known a → ¬ f.Holds b → f.root a ≠ b ∧ g.root a ≠ ⟨b.id + d⟩ := by
    intro a b ha hb
    refine ⟨fun heq => hb (heq ▸ hclosed.holds_root (hknown a ha)), fun heq => hb ?_⟩
    have hlt := hclosed'.holds_root
      (Nat.lt_of_lt_of_le (hknown a ha) (hlength ▸ Nat.le_add_right _ d))
    rw [heq, Holds, hlength] at hlt
    exact Nat.lt_of_add_lt_add_right hlt
  refine ⟨hf, hg, hclosed, hclosed', fun k => ?_, fun a ha => .inr (Nat.not_lt_of_le ha), ?_,
    hheld, ?_, ?_, ?_⟩
  · rw [Alias.shift_of_le (Nat.le_add_right _ k), hlength, Nat.add_right_comm]
  · rintro a (ha | ha) hheld
    · rw [hold ha]
      exact Nat.lt_of_lt_of_le hheld (hlength ▸ Nat.le_add_right _ d)
    · exact absurd hheld ha
  · rintro a b (ha | ha) (hb | hb)
    · rw [hold ha, hold hb]
      exact hsame a b ha hb
    · rw [hold ha, (hnew hb).1, (hrootNew hb).1, (hrootNew hb).2]
      exact iff_of_false (hapart ha hb).2 (hapart ha hb).1
    · rw [hold hb, (hnew ha).1, (hrootNew ha).1, (hrootNew ha).2]
      exact iff_of_false (hapart hb ha).2.symm (hapart hb ha).1.symm
    · rw [(hnew ha).1, (hnew hb).1, (hrootNew ha).1, (hrootNew ha).2, (hrootNew hb).1,
        (hrootNew hb).2]
      refine ⟨fun heq => ?_, fun heq => heq ▸ rfl⟩
      obtain ⟨i⟩ := a
      obtain ⟨j⟩ := b
      exact congrArg Alias.mk (Nat.add_right_cancel (congrArg Alias.id heq))
  · rintro a (ha | ha)
    · rw [hold ha]
      exact huser a ha
    · rw [(hnew ha).1]
      exact (congrArg Entry.userName? (hnew ha).2.2).trans
        (congrArg Entry.userName? (hnew ha).2.1).symm
  · rintro a (ha | ha)
    · rw [hold ha]
      exact htable a ha
    · have hsameTable : g.tableName? ⟨a.id + d⟩ = f.tableName? a :=
        (congrArg Entry.tableName? (hnew ha).2.2).trans
          (congrArg Entry.tableName? (hnew ha).2.1).symm
      rw [(hnew ha).1, hsameTable]

theorem isSame_eq (h : Agree m known pending f g) (ha : known a) (hb : known b) :
    g.isSame (m a) (m b) = f.isSame a b := by
  rw [Bool.eq_iff_iff, isSame, isSame, beq_iff_eq, beq_iff_eq]
  exact h.same ha hb

/-- One more binding of an occurrence whose table is known in both forests or in none. -/
theorem pending_cons (h : Agree m known pending f g) (ha : known a) (hheld : f.Holds a)
    (htable : g.tableName? (m a) = f.tableName? a) (name : String) :
    Agree m known ((a, name) :: pending) f g := by
  refine { h with
    held := List.forall_mem_cons.2 ⟨hheld, h.held⟩
    tableName? := fun {b} hb => ?_ }
  rw [firstBinding_cons]
  split
  · rename_i hroot
    have hsame : f.tableName? b = f.tableName? a :=
      congrArg Entry.tableName? (entry_congr hroot.symm)
    have hsame' : g.tableName? (m b) = g.tableName? (m a) :=
      congrArg Entry.tableName? (entry_congr ((h.same ha hb).2 hroot).symm)
    rw [hsame, hsame', htable]
  · exact h.tableName? hb

/-! ## Making -/

theorem fresh (h : Agree m known pending f g) :
    Agree m known pending (f.fresh none).2 (g.fresh none).2 ∧
      (g.fresh none).1 = m (f.fresh none).1 := by
  have hlength : ∀ e : Forest, (e.fresh none).2.cells.length = e.cells.length + 1 := by
    simp [Forest.fresh]
  have hentry := entry_fresh_none h.grounded
  have hentry' := entry_fresh_none h.grounded'
  have hroot : ∀ b, (f.fresh none).2.root b = f.root b := fun b => congrArg Entry.root (hentry b)
  have hroot' : ∀ b, (g.fresh none).2.root b = g.root b := fun b => congrArg Entry.root (hentry' b)
  have htable : ∀ b, (f.fresh none).2.tableName? b = f.tableName? b :=
    fun b => congrArg Entry.tableName? (hentry b)
  have htable' : ∀ b, (g.fresh none).2.tableName? b = g.tableName? b :=
    fun b => congrArg Entry.tableName? (hentry' b)
  have hfirst : ∀ a, (f.fresh none).2.firstBinding pending a = f.firstBinding pending a :=
    fun a => firstBinding_congr fun p _ => by rw [hroot, hroot]
  refine ⟨⟨(fresh_coarsens h.grounded none).grounded, (fresh_coarsens h.grounded' none).grounded,
    (fresh_widens h.closed none).closed, (fresh_widens h.closed' none).closed, ?_, ?_, ?_, ?_, ?_,
    ?_, ?_⟩, (h.made 0).symm⟩
  · intro k
    rw [hlength, hlength, Nat.add_assoc, Nat.add_assoc]
    exact h.made (1 + k)
  · intro a ha
    rw [hlength] at ha
    exact h.later a (Nat.le_of_succ_le ha)
  · intro a ha hheld
    by_cases hold : f.Holds a
    · exact (fresh_widens h.closed' none).holds (h.holds ha hold)
    · obtain rfl : a = ⟨f.cells.length⟩ := by
        rw [Holds, hlength] at hheld
        cases a
        exact congrArg Alias.mk (Nat.le_antisymm (Nat.le_of_lt_succ hheld) (Nat.le_of_not_lt hold))
      have hnew := h.made 0
      rw [Nat.add_zero] at hnew
      rw [hnew]
      exact (g.made_fresh none).2
  · exact fun p hp => (fresh_widens h.closed none).holds (h.held p hp)
  · intro a b ha hb
    rw [hroot, hroot, hroot', hroot']
    exact h.same ha hb
  · intro a ha
    exact (congrArg Entry.userName? (hentry' _)).trans
      ((h.userName? ha).trans (congrArg Entry.userName? (hentry a)).symm)
  · intro a ha
    rw [htable, htable', hfirst]
    exact h.tableName? ha

/-! ## Binding -/

/-- Tables that are the same behind a binding clash with its table alike. -/
theorem clashOf_eq_of_or_eq {s? t? : Option String} {name : String}
    (h : t?.or (some name) = s?.or (some name)) :
    clashOf Text.sameName t? (some name) = clashOf Text.sameName s? (some name) := by
  have hself : clashOf Text.sameName (some name) (some name) = none :=
    if_pos (Text.sameName_self name)
  cases s? with
  | none =>
    cases t? with
    | none => rfl
    | some t =>
      obtain rfl := Option.some.inj h
      exact hself
  | some s =>
    cases t? with
    | none =>
      obtain rfl := Option.some.inj h
      exact hself.symm
    | some t => rw [Option.some.inj h]

/-- **Binding what is pending** makes the table known in both forests. -/
theorem bind {name : String} (h : Agree m known ((a, name) :: pending) f g) (ha : known a) :
    FailsAlike (Agree m known pending) (f.bind a name) (g.bind (m a) name) := by
  have hheld : f.Holds a := h.held (a, name) List.mem_cons_self
  have hbound : (g.tableName? (m a)).or (some name) = (f.tableName? a).or (some name) := by
    have htable := h.tableName? ha
    rwa [firstBinding_cons, if_pos rfl] at htable
  have hclash := clashOf_eq_of_or_eq hbound
  cases hf : clashOf Text.sameName (f.tableName? a) (some name) with
  | some e =>
    rw [bind_of_clash hf, bind_of_clash (hclash.trans hf)]
    exact .failures e
  | none =>
    obtain ⟨f', hf', hlength, hroot, huser, htable⟩ :=
      bind_of_noClash' h.grounded (h.closed.holds_root hheld) hf
    obtain ⟨g', hg', hlength', hroot', huser', htable'⟩ :=
      bind_of_noClash' h.grounded' (h.closed'.holds_root (h.holds ha hheld)) (hclash.trans hf)
    rw [hf', hg']
    refine .results ⟨(bind_coarsens h.grounded hf').grounded,
      (bind_coarsens h.grounded' hg').grounded,
      (bind_widens h.grounded h.closed hf').closed, (bind_widens h.grounded' h.closed' hg').closed,
      ?_, ?_, ?_, ?_, ?_, ?_, ?_⟩
    · rw [hlength, hlength']
      exact h.made
    · rw [hlength]
      exact h.later
    · exact fun hb hbheld => (h.holds hb (hbheld.of_length_eq hlength.symm)).of_length_eq hlength'
    · exact fun p hp => (h.held p (List.mem_cons_of_mem _ hp)).of_length_eq hlength
    · intro b c hb hc
      rw [hroot, hroot, hroot', hroot']
      exact h.same hb hc
    · intro b hb
      rw [huser, huser', h.userName? hb]
    · intro b hb
      have hfirst : f'.firstBinding pending b = f.firstBinding pending b :=
        firstBinding_congr fun p _ => by rw [hroot, hroot]
      rw [htable, htable', hfirst]
      by_cases hr : f.root b = f.root a
      · rw [if_pos hr, if_pos ((h.same hb ha).2 hr)]
        simp only [Option.orElse_eq_orElse, Option.orElse_eq_or, hbound]
      · have hkept := h.tableName? hb
        rw [firstBinding_cons, if_neg (Ne.symm hr)] at hkept
        rw [if_neg hr, if_neg (mt (h.same hb ha).1 hr)]
        exact hkept

/-! ## Naming sources -/

/-- **A new identity linked to a known one** is that one in both forests. -/
theorem link (h : Agree m known pending f g) (hblank : f.IsBlank owner)
    (hblank' : g.IsBlank (m owner)) (howner : f.Holds owner) (hknown : known owner)
    (hownKnown : known own) (hown : f.Holds own) (hpending : ∀ p ∈ pending, p.1 ≠ owner) :
    FailsAlike (Agree m known pending) (f.link owner own) (g.link (m owner) (m own)) := by
  obtain ⟨f', hf', hlength, hentry⟩ := hblank.link h.grounded h.closed howner hown
  obtain ⟨g', hg', hlength', hentry'⟩ := hblank'.link h.grounded' h.closed'
    (h.holds hknown howner) (h.holds hownKnown hown)
  have hinstead : ∀ {a}, known a → known (instead owner own a) := by
    intro a ha
    rw [instead]
    split
    · exact hownKnown
    · exact ha
  -- No other known identity is the blank one in the second forest.
  have hmoved : ∀ {a}, known a →
      g'.entry (m a) = g.entry (m (instead owner own a)) := by
    intro a ha
    rw [hentry', instead, instead]
    by_cases hao : a = owner
    · rw [if_pos hao, if_pos (congrArg m hao)]
    · rw [if_neg hao, if_neg]
      intro heq
      exact hblank.root_ne hao ((h.same hknown ha).1 (congrArg g.root heq.symm))
  have hroot : ∀ a, f'.root a = f.root (instead owner own a) :=
    fun a => congrArg Entry.root (hentry a)
  have hkept : ∀ p ∈ pending, f'.root p.1 = f.root p.1 := by
    intro p hp
    rw [hroot, instead, if_neg (hpending p hp)]
  have hfirst : ∀ a, f'.firstBinding pending a = f.firstBinding pending (instead owner own a) :=
    fun a => firstBinding_congr fun p hp => by rw [hkept p hp, hroot]
  rw [hf', hg']
  refine .results ⟨(link_root_eq h.grounded hf').1.grounded,
    (link_root_eq h.grounded' hg').1.grounded,
    (link_widens h.grounded h.closed hown hf').closed,
    (link_widens h.grounded' h.closed' (h.holds hownKnown hown) hg').closed, ?_, ?_, ?_, ?_, ?_,
    ?_, ?_⟩
  · rw [hlength, hlength']
    exact h.made
  · rw [hlength]
    exact h.later
  · exact fun hb hbheld => (h.holds hb (hbheld.of_length_eq hlength.symm)).of_length_eq hlength'
  · exact fun p hp => (h.held p hp).of_length_eq hlength
  · intro a b ha hb
    have ha' : g'.root (m a) = _ := congrArg Entry.root (hmoved ha)
    have hb' : g'.root (m b) = _ := congrArg Entry.root (hmoved hb)
    rw [hroot, hroot, ha', hb']
    exact h.same (hinstead ha) (hinstead hb)
  · intro a ha
    exact (congrArg Entry.userName? (hmoved ha)).trans
      ((h.userName? (hinstead ha)).trans (congrArg Entry.userName? (hentry a)).symm)
  · intro a ha
    have htable : f'.tableName? a = _ := congrArg Entry.tableName? (hentry a)
    have htable' : g'.tableName? (m a) = _ := congrArg Entry.tableName? (hmoved ha)
    rw [htable, htable', hfirst]
    exact h.tableName? (hinstead ha)

end Agree

end Forest

end SqlTree
