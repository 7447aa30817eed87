import SqlTree.Proofs.Alias.Pairs

/-!
# Operations on identities

A program makes identities, binds them, links them and asks about them, in any order. Each operation
follows the chains of the identities it is given and compresses them, also when it fails or only
asks.

* `AliasOp` is an operation, `AliasOp.left` the forest that it leaves, and `AliasOp.Steps` a run of
  operations on identities that were made before.
* `Forest.Keeps f g` says that what is known of identities in `f` is still known in `g`: what is one
  occurrence stays one, names stay, and tables stay up to ASCII case. Every step keeps it
  (`AliasOp.left_keeps`), so every run does (`AliasOp.Steps.keeps`).
* `AliasOp.Steps.forest_invariant`: in all forests that come from the empty one chains end,
  compressing them shows nowhere, and neither does an operation that fails.
-/

namespace SqlTree

/-! ## Operations -/

/-- An operation on identities. -/
inductive AliasOp where
  /-- Makes an identity, with the name that its user gives to it. -/
  | make (userName? : Option String)
  /-- Binds the occurrence of an identity to a table. -/
  | bind (a : Alias) (tableName : String)
  /-- Makes the occurrence of `a` the occurrence of `base`. -/
  | link (a base : Alias)
  /-- Makes the occurrence of `b` the occurrence of `a`, if they can be one. -/
  | unify (a b : Alias)
  /-- Asks for the root, the table or the name of an identity. -/
  | ask (a : Alias)
  /-- Asks whether two identities denote one occurrence. -/
  | compare (a b : Alias)

/-- The forest with the chains from identities compressed, one after the other. -/
def Forest.compressAll (f : Forest) (as : List Alias) : Forest := as.foldl compress f

namespace AliasOp

/-- The identities that an operation is given, whose chains it compresses. -/
def operands : AliasOp → List Alias
  | make _ => []
  | bind a _ => [a]
  | link a base => [a, base]
  | unify a b => [a, b]
  | ask a => [a]
  | compare a b => [a, b]

/-- What the operation makes of a forest, unless it fails. -/
def change? (f : Forest) : AliasOp → Option Forest
  | make userName? => some (f.fresh userName?).2
  | bind a tableName => (f.bind a tableName).toOption
  | link a base => (f.link a base).toOption
  | unify a b => f.unify a b
  | ask _ => some f
  | compare _ _ => some f

/-- The forest that the operation leaves, also when it fails. -/
def left (op : AliasOp) (f : Forest) : Forest :=
  (op.change? (f.compressAll op.operands)).getD (f.compressAll op.operands)

/-- The operation fails. -/
def Fails (op : AliasOp) (f : Forest) : Prop := op.change? (f.compressAll op.operands) = none

/-- The identities that the operation is given were made. -/
def IsWithin (f : Forest) (op : AliasOp) : Prop := ∀ a ∈ op.operands, f.Holds a

instance (op : AliasOp) (f : Forest) : Decidable (op.Fails f) :=
  inferInstanceAs (Decidable (op.change? (f.compressAll op.operands) = none))

instance (f : Forest) (op : AliasOp) : Decidable (op.IsWithin f) :=
  inferInstanceAs (Decidable (∀ a ∈ op.operands, a.id < f.cells.length))

/-- Operations one after the other turn the forest `f` into `g`, each on identities made before. -/
inductive Steps : Forest → List AliasOp → Forest → Prop
  | nil {f : Forest} : Steps f [] f
  | cons {f g : Forest} {op : AliasOp} {ops : List AliasOp} :
      op.IsWithin f → Steps (op.left f) ops g → Steps f (op :: ops) g

end AliasOp

/-! ## What stays known -/

/-- What is known by `v` is known by `w`, tables up to ASCII case. -/
structure Entry.Keeps (v w : Entry) : Prop where
  tableName? : ∀ t, v.tableName? = some t → ∃ t', w.tableName? = some t' ∧ Text.sameName t t'
  userName? : ∀ name, v.userName? = some name → w.userName? = some name

namespace Entry

variable {u v w : Entry}

theorem keeps_self (v : Entry) : v.Keeps v :=
  ⟨fun t ht => ⟨t, ht, Text.sameName_self t⟩, fun _ hname => hname⟩

theorem Keeps.trans (h : u.Keeps v) (h' : v.Keeps w) : u.Keeps w := by
  refine ⟨fun t ht => ?_, fun name hname => h'.userName? name (h.userName? name hname)⟩
  obtain ⟨t', ht', hsame⟩ := h.tableName? t ht
  obtain ⟨t'', ht'', hsame'⟩ := h'.tableName? t' ht'
  rw [Text.sameName_iff] at hsame hsame'
  exact ⟨t'', ht'', Text.sameName_iff.2 (hsame.trans hsame')⟩

/-- An occurrence that takes over what is known of another one keeps its own table and name. -/
theorem keeps_absorb (v w : Entry) : v.Keeps (v.absorb w) := by
  refine ⟨fun t ht => ⟨t, ?_, Text.sameName_self t⟩, fun name hname => ?_⟩
  · rw [absorb, ht]
    rfl
  · rw [absorb, hname]
    rfl

/-- What does not clash is kept where it is taken over. -/
theorem keeps_absorb_of_noClash (h : v.clash? w = none) : w.Keeps (v.absorb w) := by
  obtain ⟨hnames, htables⟩ := Forest.orElse_eq_none.1 h
  refine ⟨fun t ht => ?_, fun name hname => ?_⟩
  · rw [absorb, ht]
    cases hx : v.tableName? with
    | none => exact ⟨t, rfl, Text.sameName_self t⟩
    | some x =>
      rw [hx, ht, clashOf] at htables
      split at htables
      · rename_i hsame
        rw [Text.sameName_iff] at hsame
        exact ⟨x, rfl, Text.sameName_iff.2 hsame.symm⟩
      · cases htables
  · rw [absorb, ← Forest.orElse_comm_of_noClash hnames, hname]
    rfl

end Entry

namespace Forest

/-- What is one occurrence in `f` is one in `g`, and what is known of it in `f` is known in `g`. -/
structure Keeps (f g : Forest) : Prop where
  isSame : ∀ a b, f.isSame a b → g.isSame a b
  entry : ∀ a, (f.entry a).Keeps (g.entry a)

variable {f g h : Forest} {a b r : Alias}

theorem keeps_self (f : Forest) : f.Keeps f := ⟨fun _ _ hab => hab, fun _ => Entry.keeps_self _⟩

theorem Keeps.trans (hg : f.Keeps g) (hh : g.Keeps h) : f.Keeps h :=
  ⟨fun a b hab => hh.isSame a b (hg.isSame a b hab), fun a => (hg.entry a).trans (hh.entry a)⟩

theorem Coarsens.isSame (h : Coarsens f g) (a b : Alias) (hab : f.isSame a b) : g.isSame a b := by
  rw [Forest.isSame, beq_iff_eq] at hab ⊢
  exact h.same a b hab

/-! ## Compressing -/

theorem compress_reshapes (hf : f.IsGrounded) (hclosed : f.IsClosed) (a : Alias) :
    f.Reshapes (f.compress a) :=
  ⟨(compress_root_eq hf a).1.grounded, (compress_widens hclosed a).closed,
    length_compressWithin _ _ _ _⟩

/-- **Compressing chains shows nowhere.** -/
theorem compressAll_entry (hf : f.IsGrounded) (hclosed : f.IsClosed) (as : List Alias) :
    f.Reshapes (f.compressAll as) ∧ ∀ b, (f.compressAll as).entry b = f.entry b := by
  induction as generalizing f with
  | nil => exact ⟨reshapes_self hf hclosed, fun _ => rfl⟩
  | cons a as ih =>
    have hfirst := compress_reshapes hf hclosed a
    obtain ⟨hrest, hentry⟩ := ih hfirst.grounded hfirst.closed
    exact ⟨hfirst.trans hrest, fun b => (hentry b).trans (entry_compress hf a b)⟩

theorem LooksLike.keeps (h : f.LooksLike g) : f.Keeps g := by
  refine ⟨fun a b hab => (h.isSame a b).trans hab, fun a => ⟨fun t ht => ?_, fun name hname => ?_⟩⟩
  · exact ⟨t, (h.tableName? a).trans ht, Text.sameName_self t⟩
  · exact (h.userName? a).trans hname

/-! ## Changing -/

/-- Identities that were made keep what is known of them when another one is made. -/
theorem fresh_keeps (hf : f.IsGrounded) (name? : Option String) : f.Keeps (f.fresh name?).2 := by
  refine ⟨(fresh_coarsens hf name?).isSame, fun a => ?_⟩
  by_cases hheld : f.Holds (f.root a)
  · rw [entry_fresh_of_holds hf hheld]
    exact Entry.keeps_self _
  · have hfree : f.cell (f.root a) = .free none := cell_of_le (Nat.le_of_not_lt hheld)
    rw [entry_eq_of_cell rfl hfree]
    exact ⟨nofun, nofun⟩

theorem bind_keeps (hf : f.IsGrounded) (hclosed : f.IsClosed) (ha : f.Holds a) {name : String}
    (hg : f.bind a name = .ok g) : f.Keeps g := by
  refine ⟨(bind_coarsens hf hg).isSame, fun b => ?_⟩
  cases hclash : clashOf Text.sameName (f.tableName? a) (some name) with
  | some e =>
    rw [bind_of_clash hclash] at hg
    cases hg
  | none =>
    obtain ⟨g', hg', -, hentry⟩ := bind_of_noClash hf (hclosed.holds_root ha) hclash
    obtain rfl := Except.ok.inj (hg'.symm.trans hg)
    rw [hentry]
    split
    · rename_i hb
      have habsorb : (f.entry a).absorb ⟨f.root a, some name, none⟩ =
          ⟨f.root a, f.tableName? a <|> some name, f.userName? a⟩ := by
        rw [Entry.absorb, entry]
        cases f.userName? a <;> rfl
      rw [entry_congr hb, ← habsorb]
      exact Entry.keeps_absorb _ _
    · exact Entry.keeps_self _

/-- Two occurrences that don't clash keep what is known of each when one takes over the other. -/
theorem keeps_of_absorb (hg : Coarsens f g) (hclash : (f.entry a).clash? (f.entry b) = none)
    (hentry : ∀ c, g.entry c = if f.root c = f.root b ∨ f.root c = f.root a then
      (f.entry a).absorb (f.entry b) else f.entry c) : f.Keeps g := by
  refine ⟨hg.isSame, fun c => ?_⟩
  rw [hentry]
  split
  · rename_i hc
    rcases hc with hc | hc
    · rw [entry_congr hc]
      exact Entry.keeps_absorb_of_noClash hclash
    · rw [entry_congr hc]
      exact Entry.keeps_absorb _ _
  · exact Entry.keeps_self _

theorem link_keeps (hf : f.IsGrounded) (hclosed : f.IsClosed) (ha : f.Holds a) (hb : f.Holds b)
    (hg : f.link a b = .ok g) : f.Keeps g := by
  cases hclash : (f.entry b).clash? (f.entry a) with
  | some e =>
    rw [link_of_clash hf hclash] at hg
    cases hg
  | none =>
    obtain ⟨g', hg', -, hentry⟩ := link_of_noClash hf hclosed ha hb hclash
    obtain rfl := Except.ok.inj (hg'.symm.trans hg)
    exact keeps_of_absorb (link_root_eq hf hg).1 hclash hentry

theorem unify_keeps (hf : f.IsGrounded) (hclosed : f.IsClosed) (ha : f.Holds a) (hb : f.Holds b)
    (hg : f.unify a b = some g) : f.Keeps g := by
  obtain ⟨hclash, -, hentry⟩ := unify_eq_some hf hclosed ha hb hg
  exact keeps_of_absorb (unify_coarsens hf hg) hclash hentry

end Forest

/-! ## Runs -/

namespace AliasOp

variable {f g : Forest} {op : AliasOp} {ops : List AliasOp}

theorem IsWithin.of_length_eq (h : op.IsWithin f) (hg : g.cells.length = f.cells.length) :
    op.IsWithin g :=
  fun a ha => (h a ha).of_length_eq hg

theorem toOption_eq_some {α ε : Type} {x : Except ε α} {a : α} :
    x.toOption = some a ↔ x = .ok a := by
  cases x <;> simp [Except.toOption]

/-- What an operation that goes well keeps. -/
theorem change?_keeps (hf : f.IsGrounded) (hclosed : f.IsClosed) (hop : op.IsWithin f)
    (h : op.change? f = some g) : (g.IsGrounded ∧ g.IsClosed) ∧ f.Keeps g := by
  cases op with
  | make userName? =>
    obtain rfl := Option.some.inj h
    exact ⟨⟨(Forest.fresh_coarsens hf userName?).grounded,
      (Forest.fresh_widens hclosed userName?).closed⟩, Forest.fresh_keeps hf userName?⟩
  | bind a tableName =>
    have hg := toOption_eq_some.1 h
    exact ⟨⟨(Forest.bind_coarsens hf hg).grounded, (Forest.bind_widens hf hclosed hg).closed⟩,
      Forest.bind_keeps hf hclosed (hop a List.mem_cons_self) hg⟩
  | link a base =>
    have hg := toOption_eq_some.1 h
    have ha := hop a List.mem_cons_self
    have hbase := hop base (List.mem_cons_of_mem _ List.mem_cons_self)
    exact ⟨⟨(Forest.link_root_eq hf hg).1.grounded,
      (Forest.link_widens hf hclosed hbase hg).closed⟩, Forest.link_keeps hf hclosed ha hbase hg⟩
  | unify a b =>
    have ha := hop a List.mem_cons_self
    have hb := hop b (List.mem_cons_of_mem _ List.mem_cons_self)
    exact ⟨⟨(Forest.unify_coarsens hf h).grounded, (Forest.unify_widens hf hclosed ha h).closed⟩,
      Forest.unify_keeps hf hclosed ha hb h⟩
  | ask a =>
    obtain rfl := Option.some.inj h
    exact ⟨⟨hf, hclosed⟩, f.keeps_self⟩
  | compare a b =>
    obtain rfl := Option.some.inj h
    exact ⟨⟨hf, hclosed⟩, f.keeps_self⟩

/-- **What an operation keeps**, whether it goes well or fails. -/
theorem left_keeps (hf : f.IsGrounded) (hclosed : f.IsClosed) (hop : op.IsWithin f) :
    ((op.left f).IsGrounded ∧ (op.left f).IsClosed) ∧ f.Keeps (op.left f) := by
  obtain ⟨hreshapes, hentry⟩ := Forest.compressAll_entry hf hclosed op.operands
  have hkeeps := (Forest.looksLike_of_entry_eq hentry).keeps
  rw [left]
  cases hchange : op.change? (f.compressAll op.operands) with
  | none => exact ⟨⟨hreshapes.grounded, hreshapes.closed⟩, hkeeps⟩
  | some g =>
    obtain ⟨hg, hkeeps'⟩ := change?_keeps hreshapes.grounded hreshapes.closed
      (hop.of_length_eq hreshapes.length_eq) hchange
    exact ⟨hg, hkeeps.trans hkeeps'⟩

/-- An operation that fails shows nowhere. -/
theorem Fails.looksLike (hf : f.IsGrounded) (hclosed : f.IsClosed) (h : op.Fails f) :
    f.LooksLike (op.left f) := by
  obtain ⟨-, hentry⟩ := Forest.compressAll_entry hf hclosed op.operands
  rw [left, h]
  exact Forest.looksLike_of_entry_eq hentry

/-- **What a run keeps.** -/
theorem Steps.keeps (h : Steps f ops g) (hf : f.IsGrounded) (hclosed : f.IsClosed) :
    (g.IsGrounded ∧ g.IsClosed) ∧ f.Keeps g := by
  induction h with
  | nil => exact ⟨⟨hf, hclosed⟩, Forest.keeps_self _⟩
  | cons hop _ ih =>
    obtain ⟨⟨hground, hclosed'⟩, hfirst⟩ := left_keeps hf hclosed hop
    obtain ⟨hg, hrest⟩ := ih hground hclosed'
    exact ⟨hg, hfirst.trans hrest⟩

/-- **What holds of every forest that operations come to.** Every chain of proxies ends at an
identity that is none, which is its root, and no compressing of a chain shows. Being one occurrence
is an equivalence. What is one occurrence stays one in whatever is done later, and an occurrence
keeps its name, and its table up to ASCII case. An operation that fails shows nowhere. -/
theorem Steps.forest_invariant {more : List AliasOp} (h : Steps .empty ops f)
    (hmore : Steps f more g) :
    (∀ a, ∃ n ≤ f.cells.length, f.EndsIn n a (f.root a)) ∧
    (∀ a, f.LooksLike (f.compress a)) ∧
    Equivalence (fun a b => f.isSame a b = true) ∧
    (∀ a b, f.isSame a b → g.isSame a b) ∧
    (∀ a t, f.tableName? a = some t → ∃ t', g.tableName? a = some t' ∧ Text.sameName t t') ∧
    (∀ a name, f.userName? a = some name → g.userName? a = some name) ∧
    ∀ op : AliasOp, op.Fails f → f.LooksLike (op.left f) := by
  obtain ⟨⟨hf, hclosed⟩, -⟩ := h.keeps Forest.isGrounded_empty Forest.isClosed_empty
  obtain ⟨-, hkeeps⟩ := hmore.keeps hf hclosed
  refine ⟨fun a => ?_, fun a => ?_, ⟨fun a => ?_, fun hab => ?_, fun hab hbc => ?_⟩,
    hkeeps.isSame, fun a => (hkeeps.entry a).tableName?, fun a => (hkeeps.entry a).userName?,
    fun op hop => hop.looksLike hf hclosed⟩
  · obtain ⟨n, hn⟩ := hf.endsIn_root a
    exact ⟨n, hn.le_length, hn⟩
  · exact Forest.looksLike_of_entry_eq (Forest.entry_compress hf a)
  · rw [Forest.isSame, beq_self_eq_true]
  · rw [Forest.isSame, beq_iff_eq] at hab ⊢
    exact hab.symm
  · rw [Forest.isSame, beq_iff_eq] at hab hbc ⊢
    exact hab.trans hbc

/-- Two players that are made one while only the second is bound, and a team that they can't be:
three identities of which one is a proxy, and two operations that fail. -/
theorem Steps.forest_invariant_players : ∃ f : Forest,
    Steps .empty [make none, make (some "p"), bind ⟨1⟩ "Player", make none, bind ⟨2⟩ "team",
      link ⟨1⟩ ⟨0⟩, bind ⟨0⟩ "player"] f ∧ f.tableName? ⟨1⟩ = some "Player" ∧
    (link ⟨2⟩ ⟨1⟩).Fails f ∧ f.LooksLike ((link ⟨2⟩ ⟨1⟩).left f) ∧
    (unify ⟨1⟩ ⟨2⟩).Fails f ∧ f.LooksLike ((unify ⟨1⟩ ⟨2⟩).left f) := by
  have hsteps : Steps .empty [make none, make (some "p"), bind ⟨1⟩ "Player", make none,
      bind ⟨2⟩ "team", link ⟨1⟩ ⟨0⟩, bind ⟨0⟩ "player"]
      ⟨[.bound "Player" (some "p"), .proxy ⟨0⟩, .bound "team" none]⟩ := by
    refine .cons (by decide) (.cons (by decide) (.cons (by decide) (.cons (by decide)
      (.cons (by decide) (.cons (by decide) (.cons (by decide) .nil))))))
  obtain ⟨-, -, -, -, -, -, hfails⟩ := hsteps.forest_invariant .nil
  have hlink : (link ⟨2⟩ ⟨1⟩).Fails
      ⟨[.bound "Player" (some "p"), .proxy ⟨0⟩, .bound "team" none]⟩ := by decide
  have hunify : (unify ⟨1⟩ ⟨2⟩).Fails
      ⟨[.bound "Player" (some "p"), .proxy ⟨0⟩, .bound "team" none]⟩ := by decide
  exact ⟨_, hsteps, rfl, hlink, hfails _ hlink, hunify, hfails _ hunify⟩

end AliasOp

end SqlTree
