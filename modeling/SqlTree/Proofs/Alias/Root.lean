import Mathlib.Data.List.GetD
import Mathlib.Data.List.Nodup
import Mathlib.Data.List.Perm.Subperm
import SqlTree.Proofs.Runs

/-!
# Roots of a forest

A forest is read through its roots, and `Forest.root` follows proxies for as many steps as there are
identities.

* `Forest.EndsIn` is a chain of proxies to its end. `Forest.EndsIn.root_eq`: a chain that ends does
  so before the steps run out, so its end is the root.
* `Forest.IsGrounded` says that all chains end. `Forest.Coarsens f g` says that they do in `g`, and
  that identities of one occurrence in `f` are of one occurrence in `g`; making, binding, linking
  and unifying do both.
* `Forest.link_root_eq`: linking makes one occurrence of two.
-/

namespace SqlTree

namespace Forest

variable {f g h : Forest} {a b r s : Alias} {n m : Nat}

/-! ## Cells -/

theorem cell_set_of_ne {c : Cell} (hb : b ≠ a) : (f.set a c).cell b = f.cell b := by
  have hid : a.id ≠ b.id := fun hid => hb (congrArg Alias.mk hid).symm
  simp [cell, set, List.getD_eq_getElem?_getD, List.getElem?_set_ne hid]

theorem cell_set_self {c : Cell} (ha : a.id < f.cells.length) : (f.set a c).cell a = c := by
  simp [cell, set, List.getD_eq_getElem?_getD, ha]

/-- An identity that was never made stays so. -/
theorem cell_set_of_le {c : Cell} (ha : f.cells.length ≤ a.id) : f.set a c = f := by
  rw [set, List.set_eq_of_length_le ha]

theorem lt_of_proxy (ha : f.cell a = .proxy b) : a.id < f.cells.length := by
  by_contra hle
  have hfree : f.cell a = .free none := List.getD_eq_default _ _ (Nat.le_of_not_lt hle)
  rw [hfree] at ha
  cases ha

theorem length_set {c : Cell} : (f.set a c).cells.length = f.cells.length := by
  simp [set]

theorem cell_fresh_of_lt {name? : Option String} (ha : a.id < f.cells.length) :
    (f.fresh name?).2.cell a = f.cell a :=
  List.getD_append _ _ _ _ ha

theorem cell_fresh_self (f : Forest) (name? : Option String) :
    (f.fresh name?).2.cell (f.fresh name?).1 = .free name? := by
  simp [cell, fresh]

/-! ## Chains -/

/-- The identity is no proxy. -/
def IsRoot (f : Forest) (a : Alias) : Prop := ∀ target, f.cell a ≠ .proxy target

/-- The chain of proxies that starts at an identity ends at another one after `n` steps. -/
inductive EndsIn (f : Forest) : Nat → Alias → Alias → Prop
  | here {a : Alias} : f.IsRoot a → EndsIn f 0 a a
  | step {n : Nat} {a target r : Alias} :
      f.cell a = .proxy target → EndsIn f n target r → EndsIn f (n + 1) a r

theorem EndsIn.isRoot (ha : f.EndsIn n a r) : f.IsRoot r := by
  induction ha with
  | here hroot => exact hroot
  | step _ _ ih => exact ih

/-- A chain has one end. -/
theorem EndsIn.unique (ha : f.EndsIn n a r) (hb : f.EndsIn m a s) : n = m ∧ r = s := by
  induction ha generalizing m with
  | here hroot =>
    cases hb with
    | here => exact ⟨rfl, rfl⟩
    | step htarget => exact absurd htarget (hroot _)
  | step htarget _ ih =>
    cases hb with
    | here hroot => exact absurd htarget (hroot _)
    | step htarget' hrest =>
      obtain rfl := Cell.proxy.inj (htarget.symm.trans htarget')
      obtain ⟨rfl, rfl⟩ := ih hrest
      exact ⟨rfl, rfl⟩

/-- The proxies of a chain are different identities: behind each of them another number of steps is
left. -/
theorem EndsIn.exists_path (ha : f.EndsIn n a r) :
    ∃ path : List Alias, path.length = n ∧ path.Nodup ∧
      ∀ b ∈ path, b.id < f.cells.length ∧ ∃ m ≤ n, 0 < m ∧ f.EndsIn m b r := by
  induction ha with
  | here => exact ⟨[], rfl, .nil, by simp⟩
  | @step n a target r htarget hrest ih =>
    obtain ⟨path, hlength, hnodup, hpath⟩ := ih
    have hself : f.EndsIn (n + 1) a r := .step htarget hrest
    refine ⟨a :: path, by simp [hlength], List.nodup_cons.2 ⟨fun hmem => ?_, hnodup⟩, ?_⟩
    · obtain ⟨-, m, hle, -, hm⟩ := hpath a hmem
      have hsteps := (hself.unique hm).1
      omega
    · intro b hb
      rcases List.mem_cons.1 hb with rfl | hb
      · exact ⟨lt_of_proxy htarget, n + 1, Nat.le_refl _, Nat.succ_pos n, hself⟩
      · obtain ⟨hlt, m, hle, hpos, hm⟩ := hpath b hb
        exact ⟨hlt, m, Nat.le_succ_of_le hle, hpos, hm⟩

/-- A chain that ends is no longer than the forest. -/
theorem EndsIn.le_length (ha : f.EndsIn n a r) : n ≤ f.cells.length := by
  obtain ⟨path, rfl, hnodup, hpath⟩ := ha.exists_path
  have hids : (path.map (·.id)).Nodup :=
    hnodup.map fun b c hid => by cases b; cases c; exact congrArg Alias.mk hid
  have hsubset : path.map (·.id) ⊆ List.range f.cells.length := by
    intro i hi
    obtain ⟨b, hb, rfl⟩ := List.mem_map.1 hi
    exact List.mem_range.2 (hpath b hb).1
  simpa using (List.subperm_of_subset hids hsubset).length_le

theorem EndsIn.rootWithin_eq (ha : f.EndsIn n a r) (hm : n ≤ m) : f.rootWithin m a = r := by
  induction ha generalizing m with
  | @here a hroot =>
    cases m with
    | zero => rfl
    | succ m =>
      unfold rootWithin
      split
      · rename_i target htarget
        exact absurd htarget (hroot target)
      · rfl
  | step htarget _ ih =>
    cases m with
    | zero => exact absurd hm (Nat.not_succ_le_zero _)
    | succ m =>
      rw [rootWithin, htarget]
      exact ih (Nat.le_of_succ_le_succ hm)

/-- **The end of a chain is the root.** -/
theorem EndsIn.root_eq (ha : f.EndsIn n a r) : f.root a = r := ha.rootWithin_eq ha.le_length

theorem IsRoot.root_eq (ha : f.IsRoot a) : f.root a = a := (EndsIn.here ha).root_eq

/-! ## Grounded forests -/

/-- Every chain of proxies ends, as all work on occurrences leaves it (`Forest.Coarsens`). -/
def IsGrounded (f : Forest) : Prop := ∀ a, ∃ n r, f.EndsIn n a r

theorem isGrounded_empty : empty.IsGrounded := by
  intro a
  refine ⟨0, a, .here fun target => ?_⟩
  simp [cell, empty]

theorem IsGrounded.endsIn_root (hf : f.IsGrounded) (a : Alias) : ∃ n, f.EndsIn n a (f.root a) := by
  obtain ⟨n, r, ha⟩ := hf a
  rw [ha.root_eq]
  exact ⟨n, ha⟩

theorem IsGrounded.isRoot_root (hf : f.IsGrounded) (a : Alias) : f.IsRoot (f.root a) := by
  obtain ⟨n, ha⟩ := hf.endsIn_root a
  exact ha.isRoot

/-- All chains end in `g`, and the identities of one occurrence in `f` are of one occurrence in
`g`. -/
structure Coarsens (f g : Forest) : Prop where
  grounded : g.IsGrounded
  same : ∀ a b, f.root a = f.root b → g.root a = g.root b

theorem IsGrounded.coarsens_self (hf : f.IsGrounded) : Coarsens f f := ⟨hf, fun _ _ hab => hab⟩

theorem Coarsens.trans (hg : Coarsens f g) (hh : Coarsens g h) : Coarsens f h :=
  ⟨hh.grounded, fun a b hab => hh.same a b (hg.same a b hab)⟩

/-- When chains still end, and where they end depends on where they ended, the forest is
coarser. -/
theorem root_eq_of_endsIn (move : Alias → Alias) (hf : f.IsGrounded)
    (hends : ∀ n a r, f.EndsIn n a r → ∃ m, g.EndsIn m a (move r)) :
    Coarsens f g ∧ ∀ a, g.root a = move (f.root a) := by
  have hroot : ∀ a, g.root a = move (f.root a) := by
    intro a
    obtain ⟨n, ha⟩ := hf.endsIn_root a
    obtain ⟨m, ha'⟩ := hends n a _ ha
    exact ha'.root_eq
  refine ⟨⟨fun a => ?_, fun a b hab => by rw [hroot, hroot, hab]⟩, hroot⟩
  obtain ⟨n, ha⟩ := hf.endsIn_root a
  obtain ⟨m, ha'⟩ := hends n a _ ha
  exact ⟨m, _, ha'⟩

/-! ## Changes that keep the proxies -/

/-- The forest `g` holds the identities of `f`, and has the same proxies. -/
structure SameProxies (f g : Forest) : Prop where
  length_le : f.cells.length ≤ g.cells.length
  proxy_iff : ∀ a target, g.cell a = .proxy target ↔ f.cell a = .proxy target

namespace SameProxies

theorem refl (f : Forest) : SameProxies f f := ⟨Nat.le_refl _, fun _ _ => Iff.rfl⟩

theorem trans (hg : SameProxies f g) (hh : SameProxies g h) : SameProxies f h := by
  refine ⟨Nat.le_trans hg.length_le hh.length_le, fun a target => ?_⟩
  rw [hh.proxy_iff, hg.proxy_iff]

theorem isRoot (hg : SameProxies f g) (ha : f.IsRoot a) : g.IsRoot a :=
  fun target htarget => ha target ((hg.proxy_iff a target).1 htarget)

theorem endsIn (hg : SameProxies f g) (ha : f.EndsIn n a r) : g.EndsIn n a r := by
  induction ha with
  | here hroot => exact .here (hg.isRoot hroot)
  | step htarget _ ih => exact .step ((hg.proxy_iff _ _).2 htarget) ih

theorem root_eq (hg : SameProxies f g) (hf : f.IsGrounded) :
    Coarsens f g ∧ ∀ a, g.root a = f.root a :=
  root_eq_of_endsIn id hf fun n _ _ ha => ⟨n, hg.endsIn ha⟩

end SameProxies

theorem sameProxies_fresh (f : Forest) (name? : Option String) :
    SameProxies f (f.fresh name?).2 := by
  refine ⟨by simp [fresh], fun a target => ?_⟩
  by_cases ha : a.id < f.cells.length
  · rw [cell_fresh_of_lt ha]
  · have hnew : ¬ f.cell a = .proxy target := fun htarget => ha (lt_of_proxy htarget)
    refine iff_of_false (fun htarget => ?_) hnew
    have hlt := lt_of_proxy htarget
    obtain rfl : a = (f.fresh name?).1 := by
      cases a
      simp only [fresh, List.length_append, List.length_singleton] at hlt ha ⊢
      congr
      omega
    rw [cell_fresh_self] at htarget
    cases htarget

theorem sameProxies_set {c : Cell} (ha : f.IsRoot a) (hc : ∀ target, c ≠ .proxy target) :
    SameProxies f (f.set a c) := by
  refine ⟨Nat.le_of_eq length_set.symm, fun b target => ?_⟩
  by_cases hb : b = a
  · subst hb
    refine iff_of_false (fun htarget => ?_) (ha target)
    by_cases hlt : b.id < f.cells.length
    · exact hc target ((cell_set_self hlt).symm.trans htarget)
    · rw [cell_set_of_le (Nat.le_of_not_lt hlt)] at htarget
      exact ha target htarget
  · rw [cell_set_of_ne hb]

/-- Binding changes the cell of a root only. -/
theorem sameProxies_bind (hf : f.IsGrounded) {name : String} (hg : f.bind a name = .ok g) :
    SameProxies f g := by
  rw [bind] at hg
  split at hg
  · obtain rfl := Except.ok.inj hg
    exact sameProxies_set (hf.isRoot_root a) (by simp)
  · split at hg
    · obtain rfl := Except.ok.inj hg
      exact .refl f
    · cases hg
  · obtain rfl := Except.ok.inj hg
    exact .refl f

theorem sameProxies_bindRoot (hf : f.IsGrounded) {name? : Option String}
    (hg : f.bindRoot r name? = .ok g) : SameProxies f g := by
  cases name? with
  | none =>
    obtain rfl := Except.ok.inj hg
    exact .refl f
  | some name => exact sameProxies_bind hf hg

theorem sameProxies_nameRoot (hr : f.IsRoot r) (name? : Option String) :
    SameProxies f (f.nameRoot r name?) := by
  cases name? with
  | none => exact .refl f
  | some name =>
    refine sameProxies_set hr fun target htarget => ?_
    cases hcell : f.cell r with
    | proxy target' => exact hr target' hcell
    | free userName? =>
      rw [hcell] at htarget
      cases htarget
    | bound tableName userName? =>
      rw [hcell] at htarget
      cases htarget

/-! ## Compressing -/

theorem endsIn_compressStep {target : Alias} (ha : f.cell a = .proxy target)
    (hr : f.EndsIn m a r) (hb : f.EndsIn n b s) : ∃ k, (f.set a (.proxy r)).EndsIn k b s := by
  have hkept : ∀ c, f.IsRoot c → (f.set a (.proxy r)).IsRoot c := by
    intro c hc next hnext
    have hca : c ≠ a := by
      rintro rfl
      exact hc target ha
    rw [cell_set_of_ne hca] at hnext
    exact hc next hnext
  induction hb with
  | here hroot => exact ⟨0, .here (hkept _ hroot)⟩
  | @step n b next s hnext hrest ih =>
    by_cases hba : b = a
    · subst hba
      obtain rfl := (EndsIn.unique hr (.step hnext hrest)).2
      exact ⟨1, .step (cell_set_self (lt_of_proxy ha)) (.here (hkept _ hr.isRoot))⟩
    · obtain ⟨k, hk⟩ := ih
      exact ⟨k + 1, .step ((cell_set_of_ne hba).trans hnext) hk⟩

theorem endsIn_compressWithin {fuel : Nat} : ∀ {f : Forest} {n m : Nat} {a b s : Alias},
    f.EndsIn m a r → f.EndsIn n b s → ∃ k, (compressWithin r fuel a f).EndsIn k b s := by
  induction fuel with
  | zero =>
    intro f n m a b s _ hb
    exact ⟨n, hb⟩
  | succ fuel ih =>
    intro f n m a b s ha hb
    rw [compressWithin]
    split
    · rename_i target htarget
      obtain ⟨k, hk⟩ := endsIn_compressStep htarget ha hb
      cases ha with
      | here hroot => exact absurd htarget (hroot _)
      | step htarget' hrest =>
        obtain rfl := Cell.proxy.inj (htarget.symm.trans htarget')
        obtain ⟨m', hm'⟩ := endsIn_compressStep htarget (.step htarget hrest) hrest
        exact ih hm' hk
    · exact ⟨n, hb⟩

/-- **Compressing a chain changes no root.** -/
theorem compress_root_eq (hf : f.IsGrounded) (a : Alias) :
    Coarsens f (f.compress a) ∧ ∀ b, (f.compress a).root b = f.root b := by
  obtain ⟨m, ha⟩ := hf.endsIn_root a
  exact root_eq_of_endsIn id hf fun n b s hb => endsIn_compressWithin ha hb

theorem length_compressWithin (r : Alias) (fuel : Nat) : ∀ (a : Alias) (f : Forest),
    (compressWithin r fuel a f).cells.length = f.cells.length := by
  induction fuel with
  | zero =>
    intro a f
    rfl
  | succ fuel ih =>
    intro a f
    rw [compressWithin]
    split
    · rw [ih, length_set]
    · rfl

/-! ## Linking -/

/-- A root made a proxy of another root takes all that ended at it there. -/
theorem endsIn_set_proxy (hr : f.IsRoot r) (hs : f.IsRoot s) (hne : s ≠ r)
    (hlt : r.id < f.cells.length) (ha : f.EndsIn n a b) :
    ∃ k, (f.set r (.proxy s)).EndsIn k a (if b = r then s else b) := by
  have hkept : ∀ c, c ≠ r → f.IsRoot c → (f.set r (.proxy s)).IsRoot c := by
    intro c hcr hc target htarget
    rw [cell_set_of_ne hcr] at htarget
    exact hc target htarget
  induction ha with
  | @here a hroot =>
    by_cases har : a = r
    · subst har
      rw [if_pos rfl]
      exact ⟨1, .step (cell_set_self hlt) (.here (hkept s hne hs))⟩
    · rw [if_neg har]
      exact ⟨0, .here (hkept a har hroot)⟩
  | @step n a target b htarget _ ih =>
    obtain ⟨k, hk⟩ := ih
    have har : a ≠ r := by
      rintro rfl
      exact hr target htarget
    exact ⟨k + 1, .step ((cell_set_of_ne har).trans htarget) hk⟩

theorem linkRoots_eq_ok (hf : f.IsGrounded) (hs : f.IsRoot s) (hg : f.linkRoots r s = .ok g) :
    ∃ f', SameProxies f f' ∧ g = f'.set r (.proxy s) := by
  have hjoin : (do
      let g ← f.bindRoot s (f.cell r).tableName?
      return (g.nameRoot s (f.cell r).userName?).set r (.proxy s)) = Except.ok g := by
    rw [linkRoots] at hg
    split at hg
    · split at hg
      · exact hg
      · cases hg
    · exact hg
  simp only [bind_eq_ok, pure_eq_ok] at hjoin
  obtain ⟨f', hbound, rfl⟩ := hjoin
  have hbind := sameProxies_bindRoot hf hbound
  exact ⟨_, hbind.trans (sameProxies_nameRoot (hbind.isRoot hs) _), rfl⟩

/-- **Linking makes one occurrence of two**, when the root of the first one was made, and leaves all
other occurrences as they are. -/
theorem link_root_eq (hf : f.IsGrounded) (hg : f.link a b = .ok g) :
    Coarsens f g ∧ ((f.root a).id < f.cells.length → g.root a = g.root b) ∧
      ∀ c, f.root c ≠ f.root a → g.root c = f.root c := by
  obtain ⟨hfirst, hrootFirst⟩ := compress_root_eq hf a
  obtain ⟨hsecond, hrootSecond⟩ := compress_root_eq hfirst.grounded b
  have hroot : ∀ c, ((f.compress a).compress b).root c = f.root c :=
    fun c => (hrootSecond c).trans (hrootFirst c)
  have hlength : ((f.compress a).compress b).cells.length = f.cells.length := by
    rw [compress, length_compressWithin, compress, length_compressWithin]
  have hcompressed := hfirst.trans hsecond
  simp only [link] at hg
  generalize (f.compress a).compress b = e at hg hroot hlength hcompressed
  split at hg
  · rename_i hsame
    obtain rfl := Except.ok.inj hg
    exact ⟨hcompressed, fun _ => hsame, fun c _ => hroot c⟩
  · rename_i hdiffer
    have hrootA := hcompressed.grounded.isRoot_root a
    have hrootB := hcompressed.grounded.isRoot_root b
    obtain ⟨e', he', rfl⟩ := linkRoots_eq_ok hcompressed.grounded hrootB hg
    obtain ⟨hkeeps, hkept⟩ := he'.root_eq hcompressed.grounded
    by_cases hlt : (e.root a).id < e'.cells.length
    · obtain ⟨hcoarsens, hmoved⟩ := root_eq_of_endsIn
        (fun c => if c = e.root a then e.root b else c) hkeeps.grounded fun n c x hc =>
          endsIn_set_proxy (he'.isRoot hrootA) (he'.isRoot hrootB) (Ne.symm hdiffer) hlt hc
      refine ⟨hcompressed.trans (hkeeps.trans hcoarsens), fun _ => ?_, fun c hc => ?_⟩
      · rw [hmoved, hmoved, hkept, hkept, if_pos rfl, if_neg (Ne.symm hdiffer)]
      · rw [← hroot c, ← hroot a] at hc
        rw [hmoved, hkept, if_neg hc, hroot]
    · rw [cell_set_of_le (Nat.le_of_not_lt hlt)]
      refine ⟨hcompressed.trans hkeeps, fun hmade => ?_, fun c _ => ?_⟩
      · rw [← hroot, ← hlength] at hmade
        exact absurd (Nat.lt_of_lt_of_le hmade he'.length_le) hlt
      · rw [hkept, hroot]

/-- The identity was made, and is no proxy. -/
def Made (f : Forest) (a : Alias) : Prop := f.IsRoot a ∧ a.id < f.cells.length

theorem made_fresh (f : Forest) (name? : Option String) :
    (f.fresh name?).2.Made (f.fresh name?).1 := by
  refine ⟨fun target => ?_, by simp [fresh]⟩
  rw [cell_fresh_self]
  simp

theorem Made.sameProxies (ha : f.Made a) (hg : SameProxies f g) : g.Made a :=
  ⟨hg.isRoot ha.1, Nat.lt_of_lt_of_le ha.2 hg.length_le⟩

theorem Made.link_eq (ha : f.Made a) (hf : f.IsGrounded) (hg : f.link a b = .ok g) :
    g.root a = g.root b := by
  apply (link_root_eq hf hg).2.1
  rw [ha.1.root_eq]
  exact ha.2

theorem fresh_coarsens (hf : f.IsGrounded) (name? : Option String) :
    Coarsens f (f.fresh name?).2 :=
  ((sameProxies_fresh f name?).root_eq hf).1

theorem bind_coarsens (hf : f.IsGrounded) {name : String} (hg : f.bind a name = .ok g) :
    Coarsens f g :=
  ((sameProxies_bind hf hg).root_eq hf).1

theorem unify_coarsens (hf : f.IsGrounded) (hg : f.unify a b = some g) : Coarsens f g := by
  rw [unify] at hg
  split at hg
  · obtain rfl := Option.some.inj hg
    exact hf.coarsens_self
  · split at hg
    · cases hg
    · cases hlink : f.link b a with
      | error e =>
        rw [hlink] at hg
        cases hg
      | ok g' =>
        rw [hlink] at hg
        obtain rfl := Option.some.inj hg
        exact (link_root_eq hf hlink).1

end Forest

end SqlTree
