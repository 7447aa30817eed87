import SqlTree.Proofs.Alias.Closed

/-!
# Passing over an identity

When one identity more is made, those made behind it are numbered one higher. `Alias.skip n` gives
every identity its number in a forest where number `n` is the additional one, and
`Forest.Skips n f g` says that `g` is the forest `f` with an identity made as number `n` that is an
occurrence of its own, without a table or a name.

* `Forest.Skips.root_eq`: identities of one occurrence in `f` are of one occurrence in `g`, with the
  same table and the same name.
* `Forest.Skips.fresh`, `Forest.Skips.bind` and `Forest.Skips.link`: what is done to `f` can be done
  to `g`, and the forests stay so related.
-/

namespace SqlTree

namespace Alias

variable {n : Nat} {a b : Alias}

/-- The identity that `a` is where one more was made as number `n`. -/
def skip (n : Nat) (a : Alias) : Alias := if a.id < n then a else ⟨a.id + 1⟩

theorem skip_of_lt (ha : a.id < n) : a.skip n = a := if_pos ha

theorem id_skip (n : Nat) (a : Alias) : (a.skip n).id = if a.id < n then a.id else a.id + 1 := by
  rw [skip]
  split <;> rfl

theorem skip_injective (n : Nat) : Function.Injective (skip n) := by
  rintro ⟨i⟩ ⟨j⟩ h
  have hid := congrArg id h
  simp only [id_skip] at hid
  refine congrArg Alias.mk ?_
  split at hid <;> split at hid <;> omega

theorem skip_ne (n : Nat) (a : Alias) : a.skip n ≠ ⟨n⟩ := by
  intro h
  have hid := congrArg id h
  rw [id_skip] at hid
  split at hid <;> simp only at hid <;> omega

end Alias

/-- The cell with another identity for the one it may be a proxy of. -/
def Cell.relabel (m : Alias → Alias) : Cell → Cell
  | free userName? => free userName?
  | bound tableName userName? => bound tableName userName?
  | proxy target => proxy (m target)

namespace Cell

variable (m : Alias → Alias) (c : Cell)

@[simp] theorem tableName?_relabel : (c.relabel m).tableName? = c.tableName? := by
  cases c <;> rfl

@[simp] theorem userName?_relabel : (c.relabel m).userName? = c.userName? := by
  cases c <;> rfl

theorem withUserName_relabel (name : String) :
    (c.relabel m).withUserName name = (c.withUserName name).relabel m := by
  cases c <;> rfl

end Cell

namespace Forest

/-- The forest `g` is `f` with one identity more, made as number `n`. -/
structure Skips (n : Nat) (f g : Forest) : Prop where
  le_length : n ≤ f.cells.length
  length_eq : g.cells.length = f.cells.length + 1
  cell_eq : ∀ a : Alias, g.cell (a.skip n) = (f.cell a).relabel (·.skip n)
  cell_added : g.cell ⟨n⟩ = .free none

variable {f g f' : Forest} {a b r s : Alias} {n k m : Nat}

/-- Making an identity without a name passes over it. -/
theorem IsClosed.skips (hf : f.IsClosed) : Skips f.cells.length f (f.fresh none).2 := by
  have hlength : (f.fresh none).2.cells.length = f.cells.length + 1 := by simp [Forest.fresh]
  refine ⟨Nat.le_refl _, hlength, fun a => ?_, cell_fresh_self f none⟩
  by_cases ha : a.id < f.cells.length
  · rw [Alias.skip_of_lt ha, cell_fresh_of_lt ha]
    cases hcell : f.cell a with
    | free userName? => rfl
    | bound tableName userName? => rfl
    | proxy target => rw [Cell.relabel, Alias.skip_of_lt (hf a target hcell)]
  · rw [cell_of_le (Nat.le_of_not_lt ha), cell_of_le]
    · rfl
    · rw [hlength, Alias.id_skip, if_neg ha]
      omega

namespace Skips

/-! ## Reading -/

theorem isRoot (hs : Skips n f g) (ha : f.IsRoot a) : g.IsRoot (a.skip n) := by
  intro target htarget
  rw [hs.cell_eq] at htarget
  cases hcell : f.cell a with
  | proxy target' => exact ha target' hcell
  | free userName? =>
    rw [hcell] at htarget
    cases htarget
  | bound tableName userName? =>
    rw [hcell] at htarget
    cases htarget

theorem cell_proxy (hs : Skips n f g) (ha : f.cell a = .proxy b) :
    g.cell (a.skip n) = .proxy (b.skip n) := by
  rw [hs.cell_eq, ha, Cell.relabel]

theorem endsIn (hs : Skips n f g) (ha : f.EndsIn k a r) : g.EndsIn k (a.skip n) (r.skip n) := by
  induction ha with
  | here hroot => exact .here (hs.isRoot hroot)
  | step htarget _ ih => exact .step (hs.cell_proxy htarget) ih

/-- **Occurrences are the same.** -/
theorem root_eq (hs : Skips n f g) (hf : f.IsGrounded) (a : Alias) :
    g.root (a.skip n) = (f.root a).skip n := by
  obtain ⟨k, hk⟩ := hf.endsIn_root a
  exact (hs.endsIn hk).root_eq

/-- The additional identity is an occurrence of its own. -/
theorem root_added (hs : Skips n f g) : g.root ⟨n⟩ = ⟨n⟩ := by
  refine IsRoot.root_eq fun target htarget => ?_
  rw [hs.cell_added] at htarget
  cases htarget

theorem userName?_eq (hs : Skips n f g) (hf : f.IsGrounded) (a : Alias) :
    g.userName? (a.skip n) = f.userName? a := by
  rw [userName?, userName?, hs.root_eq hf, hs.cell_eq, Cell.userName?_relabel]

theorem tableName?_eq (hs : Skips n f g) (hf : f.IsGrounded) (a : Alias) :
    g.tableName? (a.skip n) = f.tableName? a := by
  rw [tableName?, tableName?, hs.root_eq hf, hs.cell_eq, Cell.tableName?_relabel]

theorem userName?_added (hs : Skips n f g) : g.userName? ⟨n⟩ = none := by
  rw [userName?, hs.root_added, hs.cell_added, Cell.userName?]

theorem id_skip_lt_iff (hs : Skips n f g) : (a.skip n).id < g.cells.length ↔
    a.id < f.cells.length := by
  have hle := hs.le_length
  rw [hs.length_eq, Alias.id_skip]
  split <;> omega

/-! ## Changing -/

theorem fresh (hs : Skips n f g) (name? : Option String) :
    (g.fresh name?).1 = (f.fresh name?).1.skip n ∧
      Skips n (f.fresh name?).2 (g.fresh name?).2 := by
  have hle := hs.le_length
  have hnew : (g.fresh name?).1 = (f.fresh name?).1.skip n := by
    have hnot : ¬ (f.fresh name?).1.id < n := Nat.not_lt.2 hle
    rw [Alias.skip, if_neg hnot]
    exact congrArg Alias.mk hs.length_eq
  have hlength : ∀ e : Forest, (e.fresh name?).2.cells.length = e.cells.length + 1 := by
    simp [Forest.fresh]
  refine ⟨hnew, by rw [hlength]; omega, by rw [hlength, hlength, hs.length_eq], fun a => ?_, ?_⟩
  · rcases Nat.lt_trichotomy a.id f.cells.length with ha | ha | ha
    · rw [cell_fresh_of_lt ha, cell_fresh_of_lt (hs.id_skip_lt_iff.2 ha), hs.cell_eq]
    · obtain rfl : a = (f.fresh name?).1 := by
        cases a
        exact congrArg Alias.mk ha
      rw [cell_fresh_self, ← hnew, cell_fresh_self]
      rfl
    · have hskip : (a.skip n).id = a.id + 1 := by
        rw [Alias.id_skip, if_neg (by omega)]
      have hfree : (f.fresh name?).2.cell a = .free none := cell_of_le (by rw [hlength]; omega)
      have hfree' : (g.fresh name?).2.cell (a.skip n) = .free none := by
        refine cell_of_le ?_
        rw [hlength, hskip, hs.length_eq]
        omega
      rw [hfree, hfree', Cell.relabel]
  · rw [cell_fresh_of_lt (by rw [hs.length_eq]; exact Nat.lt_succ_of_le hle), hs.cell_added]

theorem set (hs : Skips n f g) (a : Alias) (c : Cell) :
    Skips n (f.set a c) (g.set (a.skip n) (c.relabel (·.skip n))) := by
  refine ⟨by rw [length_set]; exact hs.le_length, by rw [length_set, length_set, hs.length_eq],
    fun b => ?_, ?_⟩
  · by_cases hb : b = a
    · subst hb
      by_cases hlt : b.id < f.cells.length
      · rw [cell_set_self hlt, cell_set_self (hs.id_skip_lt_iff.2 hlt)]
      · rw [cell_set_of_le (Nat.le_of_not_lt hlt), cell_set_of_le, hs.cell_eq]
        exact Nat.le_of_not_lt (mt hs.id_skip_lt_iff.1 hlt)
    · rw [cell_set_of_ne hb, cell_set_of_ne fun h => hb (Alias.skip_injective n h), hs.cell_eq]
  · rw [cell_set_of_ne (Alias.skip_ne n a).symm, hs.cell_added]

theorem bind (hs : Skips n f g) (hf : f.IsGrounded) {name : String} (h : f.bind a name = .ok f') :
    ∃ g', g.bind (a.skip n) name = .ok g' ∧ Skips n f' g' := by
  simp only [Forest.bind] at h ⊢
  rw [hs.root_eq hf, hs.cell_eq]
  split at h
  · rename_i userName? hcell
    obtain rfl := Except.ok.inj h
    rw [hcell]
    exact ⟨_, rfl, hs.set _ _⟩
  · rename_i current userName? hcell
    rw [hcell]
    split at h
    · rename_i hsame
      obtain rfl := Except.ok.inj h
      exact ⟨g, if_pos hsame, hs⟩
    · cases h
  · rename_i target hcell
    obtain rfl := Except.ok.inj h
    rw [hcell]
    exact ⟨g, rfl, hs⟩

theorem bindRoot (hs : Skips n f g) (hf : f.IsGrounded) {name? : Option String}
    (h : f.bindRoot a name? = .ok f') :
    ∃ g', g.bindRoot (a.skip n) name? = .ok g' ∧ Skips n f' g' := by
  cases name? with
  | none =>
    obtain rfl := Except.ok.inj h
    exact ⟨g, rfl, hs⟩
  | some name => exact hs.bind hf h

theorem nameRoot (hs : Skips n f g) (a : Alias) (name? : Option String) :
    Skips n (f.nameRoot a name?) (g.nameRoot (a.skip n) name?) := by
  cases name? with
  | none => exact hs
  | some name =>
    rw [Forest.nameRoot, Forest.nameRoot, hs.cell_eq, Cell.withUserName_relabel]
    exact hs.set _ _

end Skips

/-- A chain that does not reach `a` stays when the cell of `a` changes. -/
theorem EndsIn.set_of_lt {c : Cell} (hb : f.EndsIn m b r) (ha : f.EndsIn k a s) (hlt : m < k) :
    (f.set a c).EndsIn m b r := by
  have hne : ∀ {b r : Alias} {m : Nat}, f.EndsIn m b r → m < k → b ≠ a := by
    rintro b r m hb hlt rfl
    have hsteps := (hb.unique ha).1
    omega
  induction hb with
  | here hroot =>
    refine .here fun target htarget => ?_
    rw [cell_set_of_ne (hne (.here hroot) hlt)] at htarget
    exact hroot target htarget
  | step htarget hrest ih =>
    refine .step ?_ (ih (by omega))
    rw [cell_set_of_ne (hne (.step htarget hrest) hlt), htarget]

namespace Skips

/-- Compressing needs no more steps than the chain has. -/
theorem compressWithin (t : Alias) {fuel fuel' : Nat} (ha : f.EndsIn k a r) (hs : Skips n f g)
    (hk : k ≤ fuel) (hk' : k ≤ fuel') :
    Skips n (compressWithin t fuel a f) (compressWithin (t.skip n) fuel' (a.skip n) g) := by
  induction k generalizing f g a fuel fuel' with
  | zero =>
    have hstop : ∀ {t a : Alias} {e : Forest} (fuel : Nat), e.IsRoot a →
        Forest.compressWithin t fuel a e = e := by
      intro t a e fuel hroot
      cases fuel with
      | zero => rfl
      | succ fuel =>
        rw [Forest.compressWithin]
        split
        · rename_i target htarget
          exact absurd htarget (hroot target)
        · rfl
    cases ha with
    | here hroot =>
      rw [hstop fuel hroot, hstop fuel' (hs.isRoot hroot)]
      exact hs
  | succ k ih =>
    obtain ⟨fuel, rfl⟩ := Nat.exists_eq_add_of_lt hk
    obtain ⟨fuel', rfl⟩ := Nat.exists_eq_add_of_lt hk'
    cases ha with
    | @step _ _ target _ htarget hrest =>
      rw [Forest.compressWithin, Forest.compressWithin, htarget, hs.cell_proxy htarget]
      exact ih (hrest.set_of_lt (.step htarget hrest) (Nat.lt_succ_self k)) (hs.set a (.proxy t))
        (by omega) (by omega)

theorem compress (hs : Skips n f g) (hf : f.IsGrounded) (a : Alias) :
    Skips n (f.compress a) (g.compress (a.skip n)) := by
  obtain ⟨k, hk⟩ := hf.endsIn_root a
  rw [Forest.compress, Forest.compress, hs.root_eq hf]
  exact hs.compressWithin _ hk hk.le_length (hs.endsIn hk).le_length

theorem linkRoots (hs : Skips n f g) (hf : f.IsGrounded) (h : f.linkRoots a b = .ok f') :
    ∃ g', g.linkRoots (a.skip n) (b.skip n) = .ok g' ∧ Skips n f' g' := by
  have hjoin : ∀ f', (do
      let e ← f.bindRoot b (f.cell a).tableName?
      return (e.nameRoot b (f.cell a).userName?).set a (.proxy b)) = Except.ok f' →
        ∃ g', (do
          let e ← g.bindRoot (b.skip n) (f.cell a).tableName?
          return (e.nameRoot (b.skip n) (f.cell a).userName?).set (a.skip n)
            (.proxy (b.skip n))) = Except.ok g' ∧ Skips n f' g' := by
    intro f' hf'
    simp only [bind_eq_ok, pure_eq_ok] at hf'
    obtain ⟨e, he, rfl⟩ := hf'
    obtain ⟨e', he', hs'⟩ := hs.bindRoot hf he
    refine ⟨_, ?_, (hs'.nameRoot b _).set a (.proxy b)⟩
    rw [he']
    rfl
  rw [Forest.linkRoots] at h ⊢
  simp only [hs.cell_eq, Cell.tableName?_relabel, Cell.userName?_relabel]
  split at h
  · split at h
    · rename_i hname
      rw [if_pos hname]
      exact hjoin f' h
    · cases h
  · exact hjoin f' h

/-- **What is linked can be linked.** -/
theorem link (hs : Skips n f g) (hf : f.IsGrounded) (h : f.link a b = .ok f') :
    ∃ g', g.link (a.skip n) (b.skip n) = .ok g' ∧ Skips n f' g' := by
  have hfirst := (compress_root_eq hf a).1.grounded
  have hsecond := (compress_root_eq hfirst b).1.grounded
  have hs' := (hs.compress hf a).compress hfirst b
  simp only [Forest.link] at h ⊢
  rw [hs'.root_eq hsecond, hs'.root_eq hsecond]
  split at h
  · rename_i hsame
    obtain rfl := Except.ok.inj h
    exact ⟨_, if_pos (congrArg (·.skip n) hsame), hs'⟩
  · rename_i hdiffer
    rw [if_neg fun heq => hdiffer (Alias.skip_injective n heq)]
    exact hs'.linkRoots hsecond h

end Skips

end Forest

end SqlTree
