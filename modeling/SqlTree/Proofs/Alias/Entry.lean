import SqlTree.Proofs.Alias.Closed

/-!
# What is known of an occurrence

An identity is seen through its occurrence only: its root, its table and its name. `Forest.entry`
is these three together. Binding and linking are told here by what they do to entries, apart from
how the forest stores them.

* `Entry.absorb v w` is what is known of one occurrence made of two, and `Entry.clash?` why two
  can't be one.
* `Forest.bind_of_noClash`, `Forest.link_of_noClash` and `Forest.unify_of_noClash` say what all
  entries are once these succeed, as they do where nothing clashes; `Forest.bind_of_clash`,
  `Forest.link_of_clash` and `Forest.unify_of_clash` say how they fail where something does.
-/

namespace SqlTree

/-- What is known of an occurrence. -/
structure Entry where
  root : Alias
  tableName? : Option String
  userName? : Option String

/-- Two names that clash, if there are two and they are not the same. -/
def clashOf (same : String → String → Bool) : Option String → Option String → Option CompileError
  | some x, some y => if same x y then none else some (.aliasClash x y)
  | _, _ => none

namespace Entry

/-- The occurrence `v` once the occurrence `w` has become the same. -/
def absorb (v w : Entry) : Entry :=
  ⟨v.root, v.tableName? <|> w.tableName?, v.userName? <|> w.userName?⟩

/-- Why the occurrence `w` can't become the occurrence `v`. -/
def clash? (v w : Entry) : Option CompileError :=
  clashOf (· == ·) v.userName? w.userName? <|> clashOf Text.sameName v.tableName? w.tableName?

@[simp] theorem absorb_self (v : Entry) : v.absorb v = v := by
  obtain ⟨root, tableName?, userName?⟩ := v
  cases tableName? <;> cases userName? <;> rfl

end Entry

theorem clashOf_none_right (same : String → String → Bool) (x? : Option String) :
    clashOf same x? none = none := by
  cases x? <;> rfl

theorem Text.sameName_self (x : String) : Text.sameName x x = true := by
  rw [Text.sameName, beq_self_eq_true]

theorem Entry.clash?_self (v : Entry) : v.clash? v = none := by
  have hself : ∀ {same : String → String → Bool} (x? : Option String), (∀ x, same x x = true) →
      clashOf same x? x? = none := by
    intro same x? hsame
    cases x? with
    | none => rfl
    | some x => exact if_pos (hsame x)
  rw [clash?, hself _ beq_self_eq_true, hself _ Text.sameName_self]
  rfl

namespace Forest

/-- What is known of the occurrence of an identity. -/
def entry (f : Forest) (a : Alias) : Entry := ⟨f.root a, f.tableName? a, f.userName? a⟩

variable {f g : Forest} {a b c r s : Alias}

theorem entry_congr (h : f.root a = f.root b) : f.entry a = f.entry b := by
  rw [entry, entry, tableName?, tableName?, userName?, userName?, h]

theorem entry_eq_of_cell {x : Cell} (hroot : g.root b = r) (hcell : g.cell r = x) :
    g.entry b = ⟨r, x.tableName?, x.userName?⟩ := by
  rw [entry, tableName?, userName?, hroot, hcell]

theorem entry_eq_of_root_eq (hroot : g.root b = f.root b)
    (hcell : g.cell (f.root b) = f.cell (f.root b)) : g.entry b = f.entry b :=
  entry_eq_of_cell hroot hcell

theorem Holds.of_length_eq (ha : f.Holds a) (h : g.cells.length = f.cells.length) : g.Holds a :=
  Nat.lt_of_lt_of_eq ha h.symm

/-- What was not made is not known of. -/
theorem entry_of_not_holds (ha : ¬ f.Holds a) : f.entry a = ⟨a, none, none⟩ := by
  have hroot : f.IsRoot a := fun target htarget => ha (lt_of_proxy htarget)
  exact entry_eq_of_cell hroot.root_eq (cell_of_le (Nat.le_of_not_lt ha))

theorem IsGrounded.root_root (hf : f.IsGrounded) (a : Alias) : f.root (f.root a) = f.root a :=
  (hf.isRoot_root a).root_eq

/-- Nothing can be seen of a difference between two forests: every identity has the same table and
the same name in both, and those of one occurrence are the same. -/
structure LooksLike (f g : Forest) : Prop where
  tableName? : ∀ a, g.tableName? a = f.tableName? a
  userName? : ∀ a, g.userName? a = f.userName? a
  isSame : ∀ a b, g.isSame a b = f.isSame a b

theorem looksLike_self (f : Forest) : f.LooksLike f :=
  ⟨fun _ => rfl, fun _ => rfl, fun _ _ => rfl⟩

theorem looksLike_of_entry_eq (h : ∀ a, g.entry a = f.entry a) : f.LooksLike g := by
  have hroot : ∀ a, g.root a = f.root a := fun a => congrArg Entry.root (h a)
  refine ⟨fun a => congrArg Entry.tableName? (h a), fun a => congrArg Entry.userName? (h a),
    fun a b => ?_⟩
  rw [isSame, isSame, hroot, hroot]

/-! ## Making -/

theorem entry_fresh_self (f : Forest) (name? : Option String) :
    (f.fresh name?).2.entry (f.fresh name?).1 = ⟨(f.fresh name?).1, none, name?⟩ := by
  have hcell := cell_fresh_self f name?
  have hroot : (f.fresh name?).2.IsRoot (f.fresh name?).1 := by
    intro target htarget
    rw [hcell] at htarget
    cases htarget
  exact entry_eq_of_cell hroot.root_eq hcell

/-- One more identity changes nothing of those that were made. -/
theorem entry_fresh_of_holds {name? : Option String} (hf : f.IsGrounded)
    (ha : f.Holds (f.root a)) : (f.fresh name?).2.entry a = f.entry a :=
  entry_eq_of_root_eq (((sameProxies_fresh f name?).root_eq hf).2 a) (cell_fresh_of_lt ha)

/-! ## Changing one root -/

theorem entry_set (hf : f.IsGrounded) (hr : f.IsRoot r) (hheld : f.Holds r) {x : Cell}
    (hx : ∀ target, x ≠ .proxy target) (b : Alias) :
    (f.set r x).entry b = if f.root b = r then ⟨r, x.tableName?, x.userName?⟩ else f.entry b := by
  have hroot := ((sameProxies_set hr hx).root_eq hf).2 b
  split
  · rename_i hb
    exact entry_eq_of_cell (hroot.trans hb) (cell_set_self hheld)
  · rename_i hb
    exact entry_eq_of_root_eq hroot (cell_set_of_ne hb)

theorem entry_set_proxy (hf : f.IsGrounded) (hr : f.IsRoot r) (hs : f.IsRoot s) (hne : s ≠ r)
    (hheld : f.Holds r) (b : Alias) :
    (f.set r (.proxy s)).entry b = if f.root b = r then f.entry s else f.entry b := by
  have hroot := (root_eq_of_endsIn (fun b => if b = r then s else b) hf fun n b t hb =>
    endsIn_set_proxy hr hs hne hheld hb).2 b
  split
  · rename_i hb
    rw [if_pos hb] at hroot
    rw [entry_eq_of_cell hroot (cell_set_of_ne hne), entry_eq_of_cell hs.root_eq rfl]
  · rename_i hb
    rw [if_neg hb] at hroot
    exact entry_eq_of_root_eq hroot (cell_set_of_ne hb)

/-! ## Binding -/

theorem bind_of_clash {name : String} {e : CompileError}
    (h : clashOf Text.sameName (f.tableName? a) (some name) = some e) :
    f.bind a name = .error e := by
  rw [tableName?] at h
  rw [bind]
  cases hcell : f.cell (f.root a) with
  | free userName? =>
    rw [hcell] at h
    cases h
  | proxy target =>
    rw [hcell] at h
    cases h
  | bound current userName? =>
    simp only [hcell, Cell.tableName?, clashOf] at h
    split at h
    · cases h
    · rename_i hne
      obtain rfl := Option.some.inj h
      exact if_neg hne

/-- **Binding** makes the table of an occurrence known, where it was not. -/
theorem bind_of_noClash (hf : f.IsGrounded) (ha : f.Holds (f.root a)) {name : String}
    (h : clashOf Text.sameName (f.tableName? a) (some name) = none) :
    ∃ g, f.bind a name = .ok g ∧ g.cells.length = f.cells.length ∧ ∀ b, g.entry b =
      if f.root b = f.root a then
        ⟨f.root a, f.tableName? a <|> some name, f.userName? a⟩
      else f.entry b := by
  rw [tableName?] at h
  rw [bind]
  cases hcell : f.cell (f.root a) with
  | proxy target => exact absurd hcell (hf.isRoot_root a target)
  | free userName? =>
    refine ⟨_, rfl, length_set, fun b => ?_⟩
    rw [entry_set hf (hf.isRoot_root a) ha (by simp), Forest.tableName?, Forest.userName?, hcell]
    rfl
  | bound current userName? =>
    simp only [hcell, Cell.tableName?, clashOf] at h
    split at h
    · rename_i hsame
      refine ⟨f, if_pos hsame, rfl, fun b => ?_⟩
      split
      · rename_i hb
        rw [entry_eq_of_cell hb hcell, Forest.tableName?, Forest.userName?, hcell]
        rfl
      · rfl
    · cases h

theorem bind_of_noClash' (hf : f.IsGrounded) (ha : f.Holds (f.root a)) {name : String}
    (h : clashOf Text.sameName (f.tableName? a) (some name) = none) :
    ∃ g, f.bind a name = .ok g ∧ g.cells.length = f.cells.length ∧
      (∀ b, g.root b = f.root b) ∧ (∀ b, g.userName? b = f.userName? b) ∧ ∀ b, g.tableName? b =
        if f.root b = f.root a then f.tableName? a <|> some name else f.tableName? b := by
  obtain ⟨g, hg, hlength, hentry⟩ := bind_of_noClash hf ha h
  refine ⟨g, hg, hlength, ((sameProxies_bind hf hg).root_eq hf).2, fun b => ?_, fun b => ?_⟩
  · refine (congrArg Entry.userName? (hentry b)).trans ?_
    split
    · rename_i hb
      exact congrArg Entry.userName? (entry_congr hb).symm
    · rfl
  · refine (congrArg Entry.tableName? (hentry b)).trans ?_
    split <;> rfl

theorem bindRoot_of_clash {name? : Option String} {e : CompileError}
    (h : clashOf Text.sameName (f.tableName? s) name? = some e) :
    f.bindRoot s name? = .error e := by
  cases name? with
  | none =>
    rw [clashOf_none_right] at h
    cases h
  | some name => exact bind_of_clash h

theorem bindRoot_of_noClash (hf : f.IsGrounded) (hs : f.IsRoot s) (hheld : f.Holds s)
    {name? : Option String} (h : clashOf Text.sameName (f.tableName? s) name? = none) :
    ∃ g, f.bindRoot s name? = .ok g ∧ g.cells.length = f.cells.length ∧ ∀ b, g.entry b =
      if f.root b = s then ⟨s, f.tableName? s <|> name?, f.userName? s⟩ else f.entry b := by
  cases name? with
  | none =>
    refine ⟨f, rfl, rfl, fun b => ?_⟩
    split
    · rename_i hb
      rw [entry_congr (hb.trans hs.root_eq.symm), entry, hs.root_eq]
      cases f.tableName? s <;> rfl
    · rfl
  | some name =>
    obtain ⟨g, hg, hlength, hentry⟩ := bind_of_noClash (a := s) hf (by rwa [hs.root_eq]) h
    simp only [hs.root_eq] at hentry
    exact ⟨g, hg, hlength, hentry⟩

theorem entry_nameRoot (hf : f.IsGrounded) (hs : f.IsRoot s) (hheld : f.Holds s)
    (name? : Option String) (b : Alias) : (f.nameRoot s name?).entry b =
      if f.root b = s then ⟨s, f.tableName? s, name? <|> f.userName? s⟩ else f.entry b := by
  have hself : f.entry s = ⟨s, f.tableName? s, f.userName? s⟩ := by rw [entry, hs.root_eq]
  cases name? with
  | none =>
    rw [nameRoot]
    split
    · rename_i hb
      rw [entry_congr (hb.trans hs.root_eq.symm), hself]
      rfl
    · rfl
  | some name =>
    have hcell : ∀ target, (f.cell s).withUserName name ≠ .proxy target := by
      intro target htarget
      cases hx : f.cell s with
      | proxy target' => exact hs target' hx
      | free userName? =>
        rw [hx] at htarget
        cases htarget
      | bound tableName userName? =>
        rw [hx] at htarget
        cases htarget
    rw [nameRoot, entry_set hf hs hheld hcell, tableName?, hs.root_eq]
    split
    · cases hx : f.cell s with
      | proxy target' => exact absurd hx (hs target')
      | free userName? => rfl
      | bound tableName userName? => rfl
    · rfl

theorem length_nameRoot (f : Forest) (s : Alias) (name? : Option String) :
    (f.nameRoot s name?).cells.length = f.cells.length := by
  cases name? with
  | none => rfl
  | some name => exact length_set

/-! ## Linking -/

/-- Compressing leaves the cells of roots as they are. -/
theorem cell_compressWithin (t : Alias) (fuel : Nat) : ∀ {f : Forest} (a : Alias), f.IsRoot r →
    (compressWithin t fuel a f).cell r = f.cell r := by
  induction fuel with
  | zero =>
    intro f a _
    rfl
  | succ fuel ih =>
    intro f a hr
    rw [compressWithin]
    split
    · rename_i target htarget
      have hne : r ≠ a := by
        rintro rfl
        exact hr target htarget
      have hcell : (f.set a (.proxy t)).cell r = f.cell r := cell_set_of_ne hne
      have hroot : (f.set a (.proxy t)).IsRoot r := by
        intro target' htarget'
        rw [hcell] at htarget'
        exact hr target' htarget'
      rw [ih target hroot, hcell]
    · rfl

theorem entry_compress (hf : f.IsGrounded) (a b : Alias) : (f.compress a).entry b = f.entry b :=
  entry_eq_of_root_eq ((compress_root_eq hf a).2 b) (cell_compressWithin _ _ _ (hf.isRoot_root b))

theorem entry_of_isRoot (hr : f.IsRoot r) :
    f.entry r = ⟨r, (f.cell r).tableName?, (f.cell r).userName?⟩ :=
  entry_eq_of_cell hr.root_eq rfl

theorem linkRoots_of_clash (hr : f.IsRoot r) (hs : f.IsRoot s) {e : CompileError}
    (h : (f.entry s).clash? (f.entry r) = some e) : f.linkRoots r s = .error e := by
  have htable : f.tableName? s = (f.cell s).tableName? := by rw [tableName?, hs.root_eq]
  rw [entry_of_isRoot hr, entry_of_isRoot hs, Entry.clash?] at h
  rw [linkRoots]
  have hjoin : clashOf Text.sameName (f.cell s).tableName? (f.cell r).tableName? = some e →
      (do
        let g ← f.bindRoot s (f.cell r).tableName?
        return (g.nameRoot s (f.cell r).userName?).set r (.proxy s)) = .error e := by
    intro hclash
    rw [← htable] at hclash
    rw [bindRoot_of_clash hclash]
    rfl
  cases hname : (f.cell r).userName? with
  | none =>
    rw [hname, clashOf_none_right] at h
    simpa [hname] using hjoin h
  | some name =>
    cases hbase : (f.cell s).userName? with
    | none =>
      rw [hname, hbase] at h
      simpa [hname] using hjoin h
    | some baseName =>
      rw [hname, hbase, clashOf] at h
      by_cases hsame : name = baseName
      · subst hsame
        simp only [beq_self_eq_true, if_true] at h
        simpa [hname] using hjoin h
      · have hne : ¬ (baseName == name) = true := by simpa using Ne.symm hsame
        rw [if_neg hne] at h
        obtain rfl := Option.some.inj h
        exact if_neg hsame

/-- Where names don't clash, linking two roots takes over the table, then the name. -/
theorem linkRoots_eq_join
    (h : clashOf (· == ·) (f.cell s).userName? (f.cell r).userName? = none) :
    f.linkRoots r s = (f.bindRoot s (f.cell r).tableName?).bind fun g =>
      .ok ((g.nameRoot s (f.cell r).userName?).set r (.proxy s)) := by
  rw [linkRoots]
  cases hname : (f.cell r).userName? with
  | none => rfl
  | some name =>
    cases hbase : (f.cell s).userName? with
    | none => rfl
    | some baseName =>
      rw [hname, hbase, clashOf] at h
      split at h
      · rename_i hsame
        exact if_pos (beq_iff_eq.1 hsame).symm
      · cases h

theorem orElse_eq_none {α : Type} {x? y? : Option α} :
    (x? <|> y?) = none ↔ x? = none ∧ y? = none := by
  cases x? <;> simp

/-- Of two names that don't clash it is one which comes first. -/
theorem orElse_comm_of_noClash {x? y? : Option String} (h : clashOf (· == ·) x? y? = none) :
    (y? <|> x?) = (x? <|> y?) := by
  cases x? with
  | none => cases y? <;> rfl
  | some x =>
    cases y? with
    | none => rfl
    | some y =>
      rw [clashOf] at h
      split at h
      · rename_i hsame
        rw [beq_iff_eq.1 hsame]
      · cases h

theorem linkRoots_of_noClash (hf : f.IsGrounded) (hr : f.IsRoot r) (hs : f.IsRoot s)
    (hne : s ≠ r) (hheld : f.Holds r) (hheld' : f.Holds s)
    (h : (f.entry s).clash? (f.entry r) = none) :
    ∃ g, f.linkRoots r s = .ok g ∧ g.cells.length = f.cells.length ∧ ∀ b, g.entry b =
      if f.root b = r ∨ f.root b = s then (f.entry s).absorb (f.entry r) else f.entry b := by
  have hentryR := entry_of_isRoot hr
  have hentryS : f.entry s = ⟨s, f.tableName? s, f.userName? s⟩ := by rw [entry, hs.root_eq]
  have huser : f.userName? s = (f.cell s).userName? :=
    congrArg Entry.userName? (entry_of_isRoot hs)
  rw [hentryR, hentryS] at h ⊢
  obtain ⟨hnames, htables⟩ := orElse_eq_none.1 h
  obtain ⟨f₁, hbind, hlength, hbound⟩ := bindRoot_of_noClash hf hs hheld' htables
  have hproxies := sameProxies_bindRoot hf hbind
  have hground := (hproxies.root_eq hf).1.grounded
  have hroot := (hproxies.root_eq hf).2
  have hnamed := entry_nameRoot hground (hproxies.isRoot hs) (hheld'.of_length_eq hlength)
    (f.cell r).userName?
  have hproxies' := sameProxies_nameRoot (hproxies.isRoot hs) (f.cell r).userName?
  have hroot' := (hproxies'.root_eq hground).2
  have hlength' := (length_nameRoot f₁ s (f.cell r).userName?).trans hlength
  have hlink := linkRoots_eq_join (r := r) (huser ▸ hnames)
  rw [hbind] at hlink
  have hkept := hproxies.trans hproxies'
  refine ⟨_, hlink, length_set.trans hlength', fun b => ?_⟩
  have htableS : f₁.tableName? s = (f.tableName? s <|> (f.cell r).tableName?) := by
    have hs₁ := hbound s
    rw [hs.root_eq, if_pos rfl] at hs₁
    exact congrArg Entry.tableName? hs₁
  have huserS : f₁.userName? s = f.userName? s := by
    have hs₁ := hbound s
    rw [hs.root_eq, if_pos rfl] at hs₁
    exact congrArg Entry.userName? hs₁
  rw [entry_set_proxy (hkept.root_eq hf).1.grounded (hkept.isRoot hr) (hkept.isRoot hs) hne
    (hheld.of_length_eq hlength'), hnamed, hnamed, (hkept.root_eq hf).2, hroot, hroot,
    hs.root_eq, if_pos rfl, htableS, huserS, Entry.absorb, orElse_comm_of_noClash hnames]
  by_cases hbr : f.root b = r
  · rw [if_pos hbr, if_pos (.inl hbr)]
  · rw [if_neg hbr]
    by_cases hbs : f.root b = s
    · rw [if_pos hbs, if_pos (.inr hbs)]
    · rw [if_neg hbs, hbound, if_neg hbs, if_neg (not_or.2 ⟨hbr, hbs⟩)]

theorem entry_root (hf : f.IsGrounded) (a : Alias) : f.entry (f.root a) = f.entry a :=
  entry_congr (hf.root_root a)

/-- One occurrence made one with itself stays as it is. -/
theorem entry_eq_absorb (hsame : f.root a = f.root b) (c : Alias) : f.entry c =
    if f.root c = f.root a ∨ f.root c = f.root b then (f.entry b).absorb (f.entry a)
    else f.entry c := by
  rw [entry_congr hsame, Entry.absorb_self]
  split
  · rename_i hc
    exact entry_congr (hc.elim (·.trans hsame) id)
  · rfl

theorem link_of_clash (hf : f.IsGrounded) {e : CompileError}
    (h : (f.entry b).clash? (f.entry a) = some e) : f.link a b = .error e := by
  have hfirst := (compress_root_eq hf a).1.grounded
  have hsecond := (compress_root_eq hfirst b).1.grounded
  have hentry : ∀ c, ((f.compress a).compress b).entry c = f.entry c :=
    fun c => (entry_compress hfirst b c).trans (entry_compress hf a c)
  rw [← hentry, ← hentry, ← entry_root hsecond, ← entry_root hsecond a] at h
  have hlink := linkRoots_of_clash (hsecond.isRoot_root a) (hsecond.isRoot_root b) h
  simp only [link]
  split
  · rename_i hsame
    rw [hsame, Entry.clash?_self] at h
    cases h
  · exact hlink

/-- **Linking** makes one occurrence of two that don't clash. -/
theorem link_of_noClash (hf : f.IsGrounded) (hclosed : f.IsClosed) (ha : f.Holds a)
    (hb : f.Holds b) (h : (f.entry b).clash? (f.entry a) = none) :
    ∃ g, f.link a b = .ok g ∧ g.cells.length = f.cells.length ∧ ∀ c, g.entry c =
      if f.root c = f.root a ∨ f.root c = f.root b then (f.entry b).absorb (f.entry a)
      else f.entry c := by
  have hfirst := (compress_root_eq hf a).1.grounded
  have hsecond := (compress_root_eq hfirst b).1.grounded
  have hlength : ((f.compress a).compress b).cells.length = f.cells.length := by
    rw [compress, length_compressWithin, compress, length_compressWithin]
  have hentry : ∀ c, ((f.compress a).compress b).entry c = f.entry c :=
    fun c => (entry_compress hfirst b c).trans (entry_compress hf a c)
  have hroot : ∀ c, ((f.compress a).compress b).root c = f.root c :=
    fun c => congrArg Entry.root (hentry c)
  simp only [link, hroot]
  split
  · rename_i hsame
    exact ⟨_, rfl, hlength, fun c => (hentry c).trans (entry_eq_absorb hsame c)⟩
  · rename_i hdiffer
    rw [← hentry, ← hentry, ← entry_root hsecond, ← entry_root hsecond a, hroot, hroot] at h
    have hrootA := hsecond.isRoot_root a
    have hrootB := hsecond.isRoot_root b
    rw [hroot] at hrootA hrootB
    obtain ⟨g, hg, hglength, hgentry⟩ := linkRoots_of_noClash hsecond hrootA hrootB
      (Ne.symm hdiffer) ((hclosed.holds_root ha).of_length_eq hlength)
      ((hclosed.holds_root hb).of_length_eq hlength) h
    refine ⟨g, hg, hglength.trans hlength, fun c => ?_⟩
    rw [hgentry, hentry, hentry, hentry, hroot, entry_root hf, entry_root hf]

/-! ## Unifying -/

theorem unify_of_clash (hf : f.IsGrounded) (h : (f.entry a).clash? (f.entry b) ≠ none) :
    f.unify a b = none := by
  obtain ⟨e, he⟩ := Option.ne_none_iff_exists'.1 h
  rw [unify]
  split
  · rename_i hsame
    rw [isSame, beq_iff_eq] at hsame
    rw [entry_congr hsame, Entry.clash?_self] at he
    cases he
  · split
    · rfl
    · rw [link_of_clash hf he]
      rfl

/-- **Unifying** makes one occurrence of two that don't clash. -/
theorem unify_of_noClash (hf : f.IsGrounded) (hclosed : f.IsClosed) (ha : f.Holds a)
    (hb : f.Holds b) (h : (f.entry a).clash? (f.entry b) = none) :
    ∃ g, f.unify a b = some g ∧ g.cells.length = f.cells.length ∧ ∀ c, g.entry c =
      if f.root c = f.root b ∨ f.root c = f.root a then (f.entry a).absorb (f.entry b)
      else f.entry c := by
  have hdiffer : differ (f.tableName? a) (f.tableName? b) = false := by
    have htables := (orElse_eq_none.1 h).2
    simp only [entry] at htables
    cases hx : f.tableName? a with
    | none => rfl
    | some x =>
      cases hy : f.tableName? b with
      | none => rfl
      | some y =>
        rw [hx, hy, clashOf] at htables
        split at htables
        · rename_i hsame
          rw [differ, hsame]
          rfl
        · cases htables
  obtain ⟨g, hg, hlength, hentry⟩ := link_of_noClash hf hclosed hb ha h
  rw [unify, hdiffer, hg]
  split
  · rename_i hsame
    rw [isSame, beq_iff_eq] at hsame
    exact ⟨f, rfl, rfl, entry_eq_absorb hsame.symm⟩
  · exact ⟨g, rfl, hlength, hentry⟩

end Forest

end SqlTree
