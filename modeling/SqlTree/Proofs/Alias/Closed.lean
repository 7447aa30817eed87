import SqlTree.Proofs.Alias.Root

/-!
# Closed forests

Identities stand for identities that were made, as far as they are proxies: the forest is closed.
`Forest.Widens f g` says that `g` is closed and has all identities of `f`. Making identities,
binding and linking them do so (`Forest.fresh_widens`, `Forest.bind_widens`, `Forest.link_widens`,
`Forest.unify_widens`), so that a forest is closed however it was come by.
-/

namespace SqlTree

namespace Forest

/-- The identity was made in the forest. -/
def Holds (f : Forest) (a : Alias) : Prop := a.id < f.cells.length

/-- Proxies stand for identities that were made. -/
def IsClosed (f : Forest) : Prop :=
  ∀ a target, f.cell a = .proxy target → target.id < f.cells.length

/-- The forest `g` is closed, and what was made in `f` was made in it. -/
structure Widens (f g : Forest) : Prop where
  closed : g.IsClosed
  length_le : f.cells.length ≤ g.cells.length

variable {f g h : Forest} {a b r : Alias}

theorem cell_of_le (ha : f.cells.length ≤ a.id) : f.cell a = .free none :=
  List.getD_eq_default _ _ ha

theorem isClosed_empty : empty.IsClosed := by
  intro a target htarget
  exact absurd (lt_of_proxy htarget) (Nat.not_lt_zero _)

theorem IsClosed.widens_self (hf : f.IsClosed) : Widens f f := ⟨hf, Nat.le_refl _⟩

theorem Widens.trans (hg : Widens f g) (hh : Widens g h) : Widens f h :=
  ⟨hh.closed, Nat.le_trans hg.length_le hh.length_le⟩

theorem Widens.holds (hg : Widens f g) (ha : f.Holds a) : g.Holds a :=
  Nat.lt_of_lt_of_le ha hg.length_le

theorem SameProxies.widens (hg : SameProxies f g) (hf : f.IsClosed) : Widens f g :=
  ⟨fun a target htarget => Nat.lt_of_lt_of_le (hf a target ((hg.proxy_iff a target).1 htarget))
    hg.length_le, hg.length_le⟩

/-- An identity that was made ends at one that was made. -/
theorem IsClosed.holds_root (hf : f.IsClosed) (ha : f.Holds a) : f.Holds (f.root a) := by
  have hwithin : ∀ (n : Nat) {a : Alias}, f.Holds a → f.Holds (f.rootWithin n a) := by
    intro n
    induction n with
    | zero =>
      intro a ha
      exact ha
    | succ n ih =>
      intro a ha
      rw [rootWithin]
      split
      · rename_i target htarget
        exact ih (hf a target htarget)
      · exact ha
  exact hwithin _ ha

theorem IsClosed.set_proxy (hf : f.IsClosed) (hr : f.Holds r) (a : Alias) :
    Widens f (f.set a (.proxy r)) := by
  refine ⟨fun b target htarget => ?_, Nat.le_of_eq length_set.symm⟩
  rw [length_set]
  by_cases hb : b = a
  · subst hb
    have hlt := lt_of_proxy htarget
    rw [length_set] at hlt
    rw [cell_set_self hlt] at htarget
    obtain rfl := Cell.proxy.inj htarget
    exact hr
  · rw [cell_set_of_ne hb] at htarget
    exact hf b target htarget

/-! ## Changing -/

theorem fresh_widens (hf : f.IsClosed) (name? : Option String) : Widens f (f.fresh name?).2 :=
  (sameProxies_fresh f name?).widens hf

theorem bind_widens (hf : f.IsGrounded) (hclosed : f.IsClosed) {name : String}
    (hg : f.bind a name = .ok g) : Widens f g :=
  (sameProxies_bind hf hg).widens hclosed

theorem compressWithin_widens (fuel : Nat) : ∀ {f : Forest} (a : Alias), f.IsClosed → f.Holds r →
    Widens f (compressWithin r fuel a f) := by
  induction fuel with
  | zero =>
    intro f a hf _
    exact hf.widens_self
  | succ fuel ih =>
    intro f a hf hr
    rw [compressWithin]
    split
    · rename_i target _
      have hset := hf.set_proxy hr a
      exact hset.trans (ih target hset.closed (hset.holds hr))
    · exact hf.widens_self

/-- Compressing is of no consequence for an identity that was not made. -/
theorem compress_widens (hf : f.IsClosed) (a : Alias) : Widens f (f.compress a) := by
  by_cases ha : f.Holds a
  · exact compressWithin_widens _ a hf (hf.holds_root ha)
  · have hstays : ∀ fuel, compressWithin (f.root a) fuel a f = f := by
      intro fuel
      cases fuel with
      | zero => rfl
      | succ fuel => rw [compressWithin, cell_of_le (Nat.le_of_not_lt ha)]
    rw [compress, hstays]
    exact hf.widens_self

theorem link_widens (hf : f.IsGrounded) (hclosed : f.IsClosed) (hb : f.Holds b)
    (hg : f.link a b = .ok g) : Widens f g := by
  have hfirst := (compress_root_eq hf a).1.grounded
  have hsecond := (compress_root_eq hfirst b).1.grounded
  have hwidens := compress_widens hclosed a
  have hcompressed := hwidens.trans (compress_widens hwidens.closed b)
  simp only [link] at hg
  split at hg
  · obtain rfl := Except.ok.inj hg
    exact hcompressed
  · obtain ⟨e, he, rfl⟩ := linkRoots_eq_ok hsecond (hsecond.isRoot_root b) hg
    have hbound := he.widens hcompressed.closed
    have hroot := hbound.holds (hcompressed.closed.holds_root (hcompressed.holds hb))
    exact hcompressed.trans (hbound.trans (hbound.closed.set_proxy hroot _))

theorem unify_widens (hf : f.IsGrounded) (hclosed : f.IsClosed) (ha : f.Holds a)
    (hg : f.unify a b = some g) : Widens f g := by
  rw [unify] at hg
  split at hg
  · obtain rfl := Option.some.inj hg
    exact hclosed.widens_self
  · split at hg
    · cases hg
    · cases hlink : f.link b a with
      | error e =>
        rw [hlink] at hg
        cases hg
      | ok g' =>
        rw [hlink] at hg
        obtain rfl := Option.some.inj hg
        exact link_widens hf hclosed ha hlink

end Forest

end SqlTree
