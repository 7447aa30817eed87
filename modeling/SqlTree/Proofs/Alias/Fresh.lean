import SqlTree.Proofs.Alias.Root

/-!
# New identities

Identities are numbered in the order in which they are made, and making one leaves what is known of
the earlier ones as it is. `Forest.Grows f g as` says that `g` comes from `f` by making the
identities `as`, which stay occurrences of their own. It is kept when work follows work
(`Forest.Grows.append`), and tells the new occurrences apart (`Forest.Grows.root_eq`).
-/

namespace SqlTree

namespace Forest

/-- The forest `g` holds the identities of `f` and the new ones `as`, none of which is a proxy. -/
structure Grows (f g : Forest) (as : List Alias) : Prop where
  length_le : f.cells.length ≤ g.cells.length
  kept : ∀ a : Alias, a.id < f.cells.length → g.cell a = f.cell a
  nodup : as.Nodup
  isNew : ∀ a ∈ as, f.cells.length ≤ a.id ∧ a.id < g.cells.length
  isRoot : ∀ a ∈ as, g.IsRoot a

variable {f g h : Forest} {as bs : List Alias} {a : Alias}

theorem Grows.root_eq (hg : Grows f g as) (ha : a ∈ as) : g.root a = a :=
  (hg.isRoot a ha).root_eq

theorem Grows.nil (f : Forest) : Grows f f [] :=
  ⟨Nat.le_refl _, fun _ _ => rfl, .nil, by simp, by simp⟩

/-- **New identities behind new identities are new.** -/
theorem Grows.append (hg : Grows f g as) (hh : Grows g h bs) : Grows f h (as ++ bs) := by
  refine ⟨Nat.le_trans hg.length_le hh.length_le, ?_, ?_, ?_, ?_⟩
  · intro a ha
    rw [hh.kept a (Nat.lt_of_lt_of_le ha hg.length_le), hg.kept a ha]
  · refine hg.nodup.append hh.nodup fun a ha hb => ?_
    have hbelow := (hg.isNew a ha).2
    have habove := (hh.isNew a hb).1
    omega
  · intro a ha
    have hle := hg.length_le
    have hle' := hh.length_le
    rcases List.mem_append.1 ha with ha | ha
    · have hnew := hg.isNew a ha
      omega
    · have hnew := hh.isNew a ha
      omega
  · intro a ha target
    rcases List.mem_append.1 ha with ha | ha
    · rw [hh.kept a (hg.isNew a ha).2]
      exact hg.isRoot a ha target
    · exact hh.isRoot a ha target

/-! ## Making and binding -/

theorem grows_fresh (f : Forest) (name? : Option String) :
    Grows f (f.fresh name?).2 [(f.fresh name?).1] := by
  have hlength : (f.fresh name?).2.cells.length = f.cells.length + 1 := by simp [fresh]
  refine ⟨by omega, fun a ha => cell_fresh_of_lt ha, List.nodup_singleton _, ?_, ?_⟩
  · intro a ha
    obtain rfl := List.mem_singleton.1 ha
    have hid : (f.fresh name?).1.id = f.cells.length := rfl
    omega
  · intro a ha target
    obtain rfl := List.mem_singleton.1 ha
    rw [cell_fresh_self]
    simp

/-- Binding a new identity to a table leaves it new. -/
theorem Grows.bind {name : String} (hg : Grows f g [a]) (hh : g.bind a name = .ok h) :
    Grows f h [a] := by
  have hnew := hg.isNew a (by simp)
  simp only [Forest.bind, hg.root_eq (List.mem_singleton_self a)] at hh
  split at hh
  · rename_i userName? _
    obtain rfl := Except.ok.inj hh
    refine ⟨by rw [length_set]; exact hg.length_le, ?_, hg.nodup, ?_, ?_⟩
    · intro b hb
      have hba : b ≠ a := by
        rintro rfl
        omega
      rw [cell_set_of_ne hba, hg.kept b hb]
    · intro b hb
      rw [length_set]
      exact hg.isNew b hb
    · intro b hb target
      obtain rfl := List.mem_singleton.1 hb
      rw [cell_set_self hnew.2]
      simp
  · split at hh
    · obtain rfl := Except.ok.inj hh
      exact hg
    · cases hh
  · obtain rfl := Except.ok.inj hh
    exact hg

end Forest

end SqlTree
