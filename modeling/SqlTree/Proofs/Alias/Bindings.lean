import SqlTree.Proofs.Alias.Entry
import SqlTree.Proofs.Runs

/-!
# Bindings of identities

Work on requests makes identities, binds occurrences to tables and gives new identities to known
occurrences. Of all this the identities that were there before show the bindings only, and of the
bindings of an occurrence the first one, unless its table was known.

* `Forest.firstBinding` is the first of some bindings that is one of a given occurrence.
* `Forest.IsBlank` says of an identity what is true when it was just made. Linking it to another one
  shows at no other identity (`Forest.IsBlank.link`).
* `Forest.BindsTo` says that of what was done to a forest its old identities show just some
  bindings, with a lemma for making, binding and linking.
* `AliasM.Binds` says this of work, which may also fail and leave some of its bindings undone, and
  `AliasM.Binds.bind` of work behind work.
-/

namespace SqlTree

namespace Forest

variable {f g h : Forest} {a b owner own : Alias} {name : String}

/-! ## The first binding of an occurrence -/

/-- The table that the first of the bindings of the occurrence of `a` is to. -/
def firstBinding (f : Forest) (bindings : List (Alias × String)) (a : Alias) : Option String :=
  (bindings.find? (f.root ·.1 == f.root a)).map (·.2)

section

variable {bindings more : List (Alias × String)}

theorem firstBinding_cons (f : Forest) (b : Alias) (name : String)
    (bindings : List (Alias × String)) (a : Alias) :
    f.firstBinding ((b, name) :: bindings) a =
      if f.root b = f.root a then some name else f.firstBinding bindings a := by
  rw [firstBinding, List.find?_cons]
  split
  · rename_i heq
    rw [if_pos (beq_iff_eq.1 heq)]
    rfl
  · rename_i hne
    rw [if_neg (beq_eq_false_iff_ne.1 hne)]
    rfl

theorem firstBinding_append (f : Forest) (bindings more : List (Alias × String)) (a : Alias) :
    f.firstBinding (bindings ++ more) a =
      (f.firstBinding bindings a).or (f.firstBinding more a) := by
  rw [firstBinding, List.find?_append, Option.map_or]
  rfl

/-- The first binding depends on which bindings are of the occurrence. -/
theorem firstBinding_congr
    (h : ∀ p ∈ bindings, g.root p.1 = g.root b ↔ f.root p.1 = f.root a) :
    g.firstBinding bindings b = f.firstBinding bindings a := by
  induction bindings with
  | nil => rfl
  | cons p bindings ih =>
    obtain ⟨hp, hrest⟩ := List.forall_mem_cons.1 h
    rw [firstBinding_cons, firstBinding_cons, ih hrest]
    exact ite_congr (propext hp) (fun _ => rfl) fun _ => rfl

/-- Bindings of other occurrences don't matter. -/
theorem firstBinding_eq_none (h : ∀ p ∈ bindings, f.root p.1 ≠ f.root a) :
    f.firstBinding bindings a = none := by
  rw [firstBinding, List.find?_eq_none.2, Option.map_none]
  intro p hp
  rw [beq_iff_eq]
  exact h p hp

end

/-! ## Blank identities -/

/-- One more identity without a name changes nothing that can be seen. -/
theorem entry_fresh_none (hf : f.IsGrounded) (a : Alias) :
    (f.fresh none).2.entry a = f.entry a := by
  have hcell : ∀ b, (f.fresh none).2.cell b = f.cell b := by
    intro b
    by_cases hb : b.id < f.cells.length
    · exact cell_fresh_of_lt hb
    · have hlength : (f.fresh none).2.cells.length = f.cells.length + 1 := by simp [Forest.fresh]
      rw [cell_of_le (Nat.le_of_not_lt hb)]
      by_cases hnew : b.id = f.cells.length
      · obtain rfl : b = (f.fresh none).1 := by
          cases b
          exact congrArg Alias.mk hnew
        exact cell_fresh_self f none
      · exact cell_of_le (by omega)
  exact entry_eq_of_root_eq (((sameProxies_fresh f none).root_eq hf).2 a) (hcell _)

/-- An identity without table and name, which no other one is a proxy of. -/
structure IsBlank (f : Forest) (a : Alias) : Prop where
  entry : f.entry a = ⟨a, none, none⟩
  alone : ∀ b, f.root b = a → b = a

theorem isBlank_fresh (hf : f.IsGrounded) (hclosed : f.IsClosed) :
    (f.fresh none).2.IsBlank (f.fresh none).1 := by
  refine ⟨entry_fresh_self f none, fun b hb => ?_⟩
  have hroot : (f.fresh none).2.root b = f.root b := congrArg Entry.root (entry_fresh_none hf b)
  rw [hroot] at hb
  by_cases hheld : f.Holds b
  · have hlt := hclosed.holds_root hheld
    rw [hb] at hlt
    exact absurd hlt (Nat.lt_irrefl _)
  · have hself : f.IsRoot b := by
      intro target htarget
      exact hheld (lt_of_proxy htarget)
    rw [← hb, hself.root_eq]

theorem IsBlank.root_ne (hblank : f.IsBlank owner) (hne : a ≠ owner) :
    f.root owner ≠ f.root a := by
  have hroot : f.root owner = owner := congrArg Entry.root hblank.entry
  rw [hroot]
  exact fun heq => hne (hblank.alone a heq.symm)

theorem noClash_of_bind_eq_ok (h : f.bind a name = .ok g) :
    clashOf Text.sameName (f.tableName? a) (some name) = none := by
  rw [Option.eq_none_iff_forall_ne_some]
  intro e he
  rw [bind_of_clash he] at h
  cases h

/-- Binding another identity leaves a blank one blank. -/
theorem IsBlank.bind (hblank : f.IsBlank owner) (hf : f.IsGrounded) (hclosed : f.IsClosed)
    (ha : f.Holds a) (hne : a ≠ owner) (h : f.bind a name = .ok g) : g.IsBlank owner := by
  obtain ⟨g', hg', -, hentry⟩ :=
    bind_of_noClash hf (hclosed.holds_root ha) (noClash_of_bind_eq_ok h)
  obtain rfl := Except.ok.inj (hg'.symm.trans h)
  have hroots := ((sameProxies_bind hf h).root_eq hf).2
  refine ⟨?_, fun b hb => hblank.alone b ((hroots b).symm.trans hb)⟩
  rw [hentry, if_neg (hblank.root_ne hne), hblank.entry]

/-- An identity to go by instead of the blank one. -/
def instead (owner own a : Alias) : Alias := if a = owner then own else a

/-- A blank identity becomes the occurrence it is linked to, and nothing else changes. -/
theorem IsBlank.link (hblank : f.IsBlank owner) (hf : f.IsGrounded) (hclosed : f.IsClosed)
    (howner : f.Holds owner) (hown : f.Holds own) :
    ∃ g, f.link owner own = .ok g ∧ g.cells.length = f.cells.length ∧
      ∀ a, g.entry a = f.entry (instead owner own a) := by
  have hroot : f.root owner = owner := congrArg Entry.root hblank.entry
  have habsorb : (f.entry own).absorb (f.entry owner) = f.entry own := by
    rw [hblank.entry, Entry.absorb]
    obtain ⟨root, tableName?, userName?⟩ := f.entry own
    cases tableName? <;> cases userName? <;> rfl
  have hclash : (f.entry own).clash? (f.entry owner) = none := by
    rw [hblank.entry, Entry.clash?, clashOf_none_right, clashOf_none_right]
    rfl
  obtain ⟨g, hg, hlength, hentry⟩ := link_of_noClash hf hclosed howner hown hclash
  refine ⟨g, hg, hlength, fun a => ?_⟩
  rw [hentry, habsorb, hroot, instead]
  by_cases ha : a = owner
  · rw [if_pos ha, if_pos (.inl (by rw [ha, hroot]))]
  · rw [if_neg ha]
    split
    · rename_i hor
      exact (entry_congr (hor.resolve_left (mt (hblank.alone a) ha))).symm
    · rfl

/-! ## What bindings leave -/

/-- Of what was done to the forest `f` the `old` identities show the bindings only: those of one
occurrence are of one in `g`, names stay, and an occurrence without a table has got the one that the
first of its bindings is to. -/
structure BindsTo (old : Alias → Prop) (bindings : List (Alias × String)) (f g : Forest) :
    Prop where
  grounded : g.IsGrounded
  widens : Widens f g
  root : ∀ a, old a → g.root a = f.root a
  userName? : ∀ a, old a → g.userName? a = f.userName? a
  tableName? : ∀ a, old a →
    g.tableName? a = (f.tableName? a).or (f.firstBinding bindings a)

section

variable {old : Alias → Prop} {bindings more : List (Alias × String)}

/-- No binding shows where all is known as before. -/
theorem bindsTo_nil (hg : g.IsGrounded) (hw : Widens f g)
    (hentry : ∀ a, old a → g.entry a = f.entry a) : BindsTo old [] f g := by
  refine ⟨hg, hw, fun a ha => congrArg Entry.root (hentry a ha),
    fun a ha => congrArg Entry.userName? (hentry a ha), fun a ha => ?_⟩
  exact (congrArg Entry.tableName? (hentry a ha)).trans Option.or_none.symm

theorem bindsTo_self (hf : f.IsGrounded) (hclosed : f.IsClosed) : BindsTo old [] f f :=
  bindsTo_nil hf hclosed.widens_self fun _ _ => rfl

theorem BindsTo.mono {old' : Alias → Prop} (hg : BindsTo old bindings f g)
    (h : ∀ a, old' a → old a) : BindsTo old' bindings f g :=
  ⟨hg.grounded, hg.widens, fun a ha => hg.root a (h a ha), fun a ha => hg.userName? a (h a ha),
    fun a ha => hg.tableName? a (h a ha)⟩

theorem BindsTo.trans (hg : BindsTo old bindings f g) (hh : BindsTo old more g h)
    (hmore : ∀ p ∈ more, old p.1) : BindsTo old (bindings ++ more) f h := by
  refine ⟨hh.grounded, hg.widens.trans hh.widens,
    fun a ha => (hh.root a ha).trans (hg.root a ha),
    fun a ha => (hh.userName? a ha).trans (hg.userName? a ha), fun a ha => ?_⟩
  have hfirst : g.firstBinding more a = f.firstBinding more a := by
    refine firstBinding_congr fun p hp => ?_
    rw [hg.root p.1 (hmore p hp), hg.root a ha]
  rw [hh.tableName? a ha, hg.tableName? a ha, hfirst, firstBinding_append]
  exact Option.or_assoc

/-- Bindings of identities that no old one goes by don't show. -/
theorem BindsTo.of_unseen (hg : BindsTo old bindings f g)
    (hbindings : ∀ p ∈ bindings, ∀ a, old a → f.root p.1 ≠ f.root a) : BindsTo old [] f g := by
  refine ⟨hg.grounded, hg.widens, hg.root, hg.userName?, fun a ha => ?_⟩
  rw [hg.tableName? a ha, firstBinding_eq_none fun p hp => hbindings p hp a ha]
  rfl

theorem bindsTo_fresh (hf : f.IsGrounded) (hclosed : f.IsClosed) :
    BindsTo old [] f (f.fresh none).2 :=
  bindsTo_nil (fresh_coarsens hf none).grounded (fresh_widens hclosed none)
    fun a _ => entry_fresh_none hf a

theorem bindsTo_bind (hf : f.IsGrounded) (hclosed : f.IsClosed) (ha : f.Holds a)
    (h : f.bind a name = .ok g) : BindsTo old [(a, name)] f g := by
  obtain ⟨g', hg', -, hroot, huser, htable⟩ :=
    bind_of_noClash' hf (hclosed.holds_root ha) (noClash_of_bind_eq_ok h)
  obtain rfl := Except.ok.inj (hg'.symm.trans h)
  refine ⟨(bind_coarsens hf h).grounded, bind_widens hf hclosed h, fun b _ => hroot b,
    fun b _ => huser b, fun b _ => ?_⟩
  rw [htable, firstBinding_cons]
  by_cases hb : f.root b = f.root a
  · have hsame : f.tableName? b = f.tableName? a := congrArg Entry.tableName? (entry_congr hb)
    rw [if_pos hb, if_pos hb.symm, hsame]
    exact Option.orElse_eq_or
  · rw [if_neg hb, if_neg (Ne.symm hb)]
    exact Option.or_none.symm

theorem bindsTo_link (hblank : f.IsBlank owner) (hf : f.IsGrounded) (hclosed : f.IsClosed)
    (howner : f.Holds owner) (hown : f.Holds own) (hold : ¬ old owner)
    (h : f.link owner own = .ok g) : BindsTo old [] f g := by
  obtain ⟨g', hg', -, hentry⟩ := hblank.link hf hclosed howner hown
  obtain rfl := Except.ok.inj (hg'.symm.trans h)
  refine bindsTo_nil (link_root_eq hf h).1.grounded (link_widens hf hclosed hown h) fun a ha => ?_
  rw [hentry, instead, if_neg]
  rintro rfl
  exact hold ha

end

end Forest

/-! ## Work that binds -/

namespace AliasM

variable {α β : Type}

/-- Of the work, done to the forest `f`, old identities show the bindings, or some of the first of
them if it fails. -/
structure Binds (x : AliasM α) (old : Alias → Prop) (bindings : List (Alias × String))
    (f : Forest) : Prop where
  runs : ∀ a g, Runs x f a g → Forest.BindsTo old bindings f g
  fails : ∀ e g, Fails x f e g →
    ∃ done rest, bindings = done ++ rest ∧ Forest.BindsTo old done f g

namespace Binds

variable {x : AliasM α} {k : α → AliasM β} {old : Alias → Prop}
  {bindings more : List (Alias × String)} {f : Forest}

theorem pure {a : α} (hf : f.IsGrounded) (hclosed : f.IsClosed) :
    (Pure.pure a : AliasM α).Binds old [] f := by
  refine ⟨fun b g h => ?_, fun e g h => absurd h not_fails_pure⟩
  obtain ⟨-, rfl⟩ := runs_pure.1 h
  exact Forest.bindsTo_self hf hclosed

/-- **Work behind work** adds its bindings behind. -/
theorem bind (hx : x.Binds old bindings f) (hmore : ∀ p ∈ more, old p.1)
    (hk : ∀ a g, Runs x f a g → Forest.BindsTo old bindings f g → (k a).Binds old more g) :
    (x >>= k).Binds old (bindings ++ more) f := by
  refine ⟨fun b h hruns => ?_, fun e h hfails => ?_⟩
  · obtain ⟨a, g, hfirst, hrest⟩ := runs_bind.1 hruns
    have hg := hx.runs a g hfirst
    exact hg.trans ((hk a g hfirst hg).runs b h hrest) hmore
  · rcases fails_bind.1 hfails with hfirst | ⟨a, g, hfirst, hrest⟩
    · obtain ⟨done, rest, rfl, hdone⟩ := hx.fails e h hfirst
      exact ⟨done, rest ++ more, List.append_assoc _ _ _, hdone⟩
    · have hg := hx.runs a g hfirst
      obtain ⟨done, rest, rfl, hdone⟩ := (hk a g hfirst hg).fails e h hrest
      refine ⟨bindings ++ done, rest, (List.append_assoc _ _ _).symm, hg.trans hdone ?_⟩
      exact fun p hp => hmore p (List.mem_append_left _ hp)

/-- Work behind work that shows nowhere. -/
theorem silent (hx : x.Binds old bindings f)
    (hk : ∀ a g, Runs x f a g → Forest.BindsTo old bindings f g → (k a).Binds old [] g) :
    (x >>= k).Binds old bindings f :=
  List.append_nil bindings ▸ hx.bind nofun hk

/-- Work whose result is taken along. -/
theorem map (hx : x.Binds old bindings f) (m : α → β) :
    (x >>= fun a => Pure.pure (m a)).Binds old bindings f :=
  hx.silent fun _ _ _ hg => pure hg.grounded hg.widens.closed

theorem fresh (hf : f.IsGrounded) (hclosed : f.IsClosed) :
    (AliasM.fresh none).Binds old [] f := by
  refine ⟨fun owner g h => ?_, fun e g h => nomatch h⟩
  obtain ⟨-, rfl⟩ := Prod.mk.inj (runs_fresh.1 h)
  exact Forest.bindsTo_fresh hf hclosed

theorem change {step : Forest → Except CompileError Forest} (hf : f.IsGrounded)
    (hclosed : f.IsClosed) (hstep : ∀ g, step f = .ok g → Forest.BindsTo old bindings f g) :
    (AliasM.change step).Binds old bindings f := by
  refine ⟨fun u g h => hstep g (runs_change.1 h), fun e g h => ⟨[], bindings, rfl, ?_⟩⟩
  obtain ⟨-, rfl⟩ := fails_change.1 h
  exact Forest.bindsTo_self hf hclosed

/-- Reading shows nowhere. -/
theorem read {view : Forest → Except CompileError α} (hf : f.IsGrounded) (hclosed : f.IsClosed) :
    (AliasM.read view).Binds old [] f := by
  refine ⟨fun a g h => ?_, fun e g h => ⟨[], [], rfl, ?_⟩⟩
  · obtain ⟨-, rfl⟩ := runs_read.1 h
    exact Forest.bindsTo_self hf hclosed
  · obtain ⟨-, rfl⟩ := fails_read.1 h
    exact Forest.bindsTo_self hf hclosed

/-- What is left shows the bindings, or some of the first of them. -/
theorem left (hx : x.Binds old bindings f) :
    ∃ done, done <+: bindings ∧ Forest.BindsTo old done f (x.left f) := by
  rcases x.runs_or_fails f with ⟨a, h⟩ | ⟨e, h⟩
  · exact ⟨bindings, List.prefix_rfl, hx.runs a _ h⟩
  · obtain ⟨done, rest, rfl, hdone⟩ := hx.fails e _ h
    exact ⟨done, List.prefix_append done rest, hdone⟩

end Binds

end AliasM

end SqlTree
