import SqlTree.Proofs.Alias.Operations
import SqlTree.Proofs.Statement.NewNames

/-!
# Which names occurrences get

The names of the occurrences among some identities, told by what the identities go by.

* `Forest.SharesUserName` says that two occurrences have one name from their users, which is the
  only reason why naming fails.
* `Forest.AreNamed` says which names are given. An occurrence without a name from its user keeps
  what it goes by where it is alone with it, and gets a number otherwise: the smallest one that is
  free when it is its turn.
* `mem_namesFrom_of_keepsName` and `namesFrom_eq_append` tell how one occurrence is named in the
  course of naming all of them, and `Forest.assignNames_areNamed` puts them together.
-/

namespace SqlTree

variable {f : Forest} {as : List Alias} {a : Alias} {all : List String} {os : List Occurrence}
  {o : Occurrence}

/-! ## The course of naming -/

/-- An occurrence that keeps its name is given it. -/
theorem mem_namesFrom_of_keepsName (ho : o ∈ os) (hkeeps : o.KeepsName all) :
    ∀ taken : List String, (o.root, o.name) ∈ namesFrom all taken os := by
  induction os with
  | nil => cases ho
  | cons o' os ih =>
    intro taken
    rw [namesFrom]
    rcases List.mem_cons.1 ho with rfl | ho
    · split
      · exact List.mem_cons_self
      · rename_i hnumbered
        exact absurd hkeeps hnumbered
    · split
      · exact List.mem_cons_of_mem _ (ih ho taken)
      · exact List.mem_cons_of_mem _ (ih ho _)

/-- **An occurrence that does not keep its name gets a number** that is free among the names that
were taken from the beginning and those given before. A name that is kept was taken already. -/
theorem namesFrom_eq_append {p : Alias × String} {later : List (Alias × String)} :
    ∀ {taken : List String} {given : List (Alias × String)},
      (∀ o ∈ os, Text.lower o.name ∈ taken) → namesFrom all taken os = given ++ p :: later →
      ∃ o ∈ os, p.1 = o.root ∧ (¬ o.KeepsName all → ∃ used : List String,
        (∀ s, s ∈ used ↔ s ∈ taken ∨ s ∈ given.map (Text.lower ·.2)) ∧
          p.2 = numbered used o.name) := by
  induction os with
  | nil =>
    intro taken given _ h
    simp [namesFrom] at h
  | cons o os ih =>
    intro taken given htaken h
    obtain ⟨hown, hrest⟩ := List.forall_mem_cons.1 htaken
    rw [namesFrom] at h
    cases given with
    | nil =>
      refine ⟨o, List.mem_cons_self, ?_⟩
      split at h
      · rename_i hkeeps
        obtain ⟨rfl, -⟩ := List.cons.inj h
        exact ⟨rfl, fun hnumbered => absurd hkeeps hnumbered⟩
      · obtain ⟨rfl, -⟩ := List.cons.inj h
        exact ⟨rfl, fun _ => ⟨taken, by simp, rfl⟩⟩
    | cons first given =>
      split at h
      · obtain ⟨rfl, htail⟩ := List.cons.inj h
        obtain ⟨o', ho', hroot, hnumbered⟩ := ih hrest htail
        refine ⟨o', List.mem_cons_of_mem o ho', hroot, fun hkeeps => ?_⟩
        obtain ⟨used, hused, hname⟩ := hnumbered hkeeps
        refine ⟨used, fun s => ?_, hname⟩
        rw [hused, List.map_cons, List.mem_cons]
        constructor
        · exact fun hs => hs.imp_right .inr
        · rintro (hs | rfl | hs)
          · exact .inl hs
          · exact .inl hown
          · exact .inr hs
      · obtain ⟨rfl, htail⟩ := List.cons.inj h
        obtain ⟨o', ho', hroot, hnumbered⟩ :=
          ih (fun o' ho' => List.mem_cons_of_mem _ (hrest o' ho')) htail
        refine ⟨o', List.mem_cons_of_mem o ho', hroot, fun hkeeps => ?_⟩
        obtain ⟨used, hused, hname⟩ := hnumbered hkeeps
        refine ⟨used, fun s => ?_, hname⟩
        rw [hused, List.map_cons, List.mem_cons, List.mem_cons, or_comm (a := s = _), or_assoc]

/-- In a list of different members one is alone with its key just when the key counts once. -/
theorem count_map_eq_one_iff {α β : Type} [DecidableEq β] (key : α → β) {l : List α} {x : α}
    (hl : l.Nodup) (hx : x ∈ l) :
    (l.map key).count (key x) = 1 ↔ ∀ y ∈ l, key y = key x → y = x := by
  obtain ⟨front, back, rfl⟩ := List.append_of_mem hx
  have hfront : x ∉ front := fun h => (List.disjoint_of_nodup_append hl) h List.mem_cons_self
  have hback : x ∉ back := (List.nodup_cons.1 hl.of_append_right).1
  have hnone : ((front ++ x :: back).map key).count (key x) = 1 ↔
      key x ∉ front.map key ∧ key x ∉ back.map key := by
    rw [List.map_append, List.map_cons, List.count_append, List.count_cons_self,
      ← List.count_eq_zero, ← List.count_eq_zero]
    omega
  rw [hnone]
  simp only [List.mem_map, List.mem_append, List.mem_cons, not_exists, not_and]
  constructor
  · rintro ⟨hfirst, hlast⟩ y (hy | rfl | hy) hkey
    · exact absurd hkey (hfirst y hy)
    · rfl
    · exact absurd hkey (hlast y hy)
  · intro halone
    refine ⟨fun y hy hkey => hfront ?_, fun y hy hkey => hback ?_⟩
    · rwa [← halone y (.inl hy) hkey]
    · rwa [← halone y (.inr (.inr hy)) hkey]

/-! ## Occurrences among identities -/

namespace Forest

/-- The name that the occurrence of an identity goes by: the user's, else the table's, else
`subquery`. -/
def goesBy (f : Forest) (a : Alias) : String := (f.identityName? a).getD "subquery"

/-- Two of the identities are of different occurrences to which users gave one name, up to case. -/
def SharesUserName (f : Forest) (as : List Alias) : Prop :=
  ∃ a ∈ as, ∃ b ∈ as, f.isSame a b = false ∧
    ∃ x ∈ f.userName? a, ∃ y ∈ f.userName? b, Text.lower x = Text.lower y

/-- No other occurrence among the identities goes by the name of the occurrence of `a`. -/
def IsAlone (f : Forest) (as : List Alias) (a : Alias) : Prop :=
  ∀ b ∈ as, Text.lower (f.goesBy b) = Text.lower (f.goesBy a) → f.isSame b a = true

/-- The names in use, in lowercase, when some were given: those that the occurrences go by are in
use from the beginning. -/
def namesInUse (f : Forest) (as : List Alias) (given : List (Alias × String)) : List String :=
  as.map (fun a => Text.lower (f.goesBy a)) ++ given.map (Text.lower ·.2)

/-- The names that the occurrences among some identities get, in order of appearance. -/
structure AreNamed (f : Forest) (as : List Alias) (names : List (Alias × String)) : Prop where
  /-- Named are the occurrences of the identities, each at its first appearance. -/
  roots : names.map (·.1) = (as.map f.root).eraseDups
  /-- All identities of an occurrence have its one name. -/
  one : ∀ a ∈ as, ∃! x, (f.root a, x) ∈ names
  /-- The names of different occurrences differ in more than case. -/
  apart : ∀ a ∈ as, ∀ b ∈ as, f.isSame a b = false → ∀ x y, (f.root a, x) ∈ names →
    (f.root b, y) ∈ names → Text.lower x ≠ Text.lower y
  /-- A name from the user is kept as it is. -/
  user : ∀ a ∈ as, ∀ x ∈ f.userName? a, (f.root a, x) ∈ names
  /-- An occurrence that is alone with its name keeps it. -/
  alone : ∀ a ∈ as, f.IsAlone as a → (f.root a, f.goesBy a) ∈ names
  /-- Any other occurrence has the smallest positive number that is free when it is its turn. -/
  numbered : ∀ a ∈ as, f.userName? a = none → ¬ f.IsAlone as a → ∀ given x later,
    names = given ++ (f.root a, x) :: later → ∃ n, x = f.goesBy a ++ toString n ∧
      IsLeast {n : Nat | 0 < n ∧ Text.lower (f.goesBy a ++ toString n) ∉ f.namesInUse as given} n

theorem mem_occurrences : o ∈ f.occurrences as ↔ ∃ a ∈ as, o = f.occurrence (f.root a) := by
  simp only [occurrences, List.mem_map, List.mem_eraseDups]
  constructor
  · rintro ⟨_, ⟨a, ha, rfl⟩, rfl⟩
    exact ⟨a, ha, rfl⟩
  · rintro ⟨a, ha, rfl⟩
    exact ⟨f.root a, ⟨a, ha, rfl⟩, rfl⟩

theorem nodup_occurrences : (f.occurrences as).Nodup :=
  .of_map (·.root) (map_root_occurrences ▸ nodup_eraseDups _)

/-- An occurrence is read off any of its identities. -/
theorem occurrence_root (hf : f.IsGrounded) (a : Alias) :
    f.occurrence (f.root a) = ⟨f.root a, f.goesBy a, (f.userName? a).isSome⟩ := by
  have hroot : f.root (f.root a) = f.root a := (hf.isRoot_root a).root_eq
  simp only [occurrence, goesBy, identityName?, userName?, tableName?, hroot]

theorem goesBy_of_userName? {x : String} (h : f.userName? a = some x) : f.goesBy a = x := by
  simp [goesBy, identityName?, h]

theorem forall_mem_occurrences (hf : f.IsGrounded) {P : Occurrence → Prop} :
    (∀ o ∈ f.occurrences as, P o) ↔
      ∀ a ∈ as, P ⟨f.root a, f.goesBy a, (f.userName? a).isSome⟩ := by
  simp only [mem_occurrences, ← occurrence_root hf]
  constructor
  · exact fun h a ha => h _ ⟨a, ha, rfl⟩
  · rintro h _ ⟨a, ha, rfl⟩
    exact h a ha

theorem mem_of_mem_occurrences (hf : f.IsGrounded) (ha : a ∈ as) :
    (⟨f.root a, f.goesBy a, (f.userName? a).isSome⟩ : Occurrence) ∈ f.occurrences as :=
  mem_occurrences.2 ⟨a, ha, (occurrence_root hf a).symm⟩

/-- An occurrence keeps a name from its user, and one that it is alone with. -/
theorem keepsName_iff (hf : f.IsGrounded) (ha : a ∈ as) :
    Occurrence.KeepsName ((f.occurrences as).map (Text.lower ·.name))
        ⟨f.root a, f.goesBy a, (f.userName? a).isSome⟩ ↔
      f.userName? a ≠ none ∨ f.IsAlone as a := by
  have hcount := count_map_eq_one_iff (Text.lower ·.name) nodup_occurrences
    (mem_of_mem_occurrences hf ha)
  rw [Occurrence.KeepsName, hcount, forall_mem_occurrences hf, Option.isSome_iff_ne_none]
  refine or_congr Iff.rfl (forall₃_congr fun b hb hname => ?_)
  rw [isSame, beq_iff_eq, ← occurrence_root hf, ← occurrence_root hf]
  exact ⟨fun h => congrArg Occurrence.root h, fun h => congrArg f.occurrence h⟩

/-! ## Naming -/

/-- **Naming fails only for a name that two users gave.** -/
theorem repeatedName?_occurrences (hf : f.IsGrounded) :
    repeatedName? [] (f.occurrences as) = none ↔ ¬ f.SharesUserName as := by
  have hsymm : Std.Symm fun o o' : Occurrence =>
      o.isUserGiven → o'.isUserGiven → Text.lower o.name ≠ Text.lower o'.name :=
    ⟨fun _ _ h ho ho' => (h ho' ho).symm⟩
  rw [repeatedName?_eq_none_iff, and_iff_right (by simp)]
  constructor
  · rintro hpairs ⟨a, ha, b, hb, hdiffer, x, hx, y, hy, hname⟩
    rw [Option.mem_def] at hx hy
    refine hpairs.forall (mem_of_mem_occurrences hf ha) (mem_of_mem_occurrences hf hb) ?_ ?_ ?_ ?_
    · intro heq
      exact beq_eq_false_iff_ne.1 hdiffer (congrArg Occurrence.root heq)
    · simp [hx]
    · simp [hy]
    · rwa [goesBy_of_userName? hx, goesBy_of_userName? hy]
  · intro hnone
    refine nodup_occurrences.imp_of_mem fun {o o'} ho ho' hne hgiven hgiven' hname => hnone ?_
    obtain ⟨a, ha, rfl⟩ := mem_occurrences.1 ho
    obtain ⟨b, hb, rfl⟩ := mem_occurrences.1 ho'
    rw [occurrence_root hf] at hgiven hname
    rw [occurrence_root hf] at hgiven' hname
    obtain ⟨x, hx⟩ := Option.isSome_iff_exists.1 hgiven
    obtain ⟨y, hy⟩ := Option.isSome_iff_exists.1 hgiven'
    refine ⟨a, ha, b, hb, beq_eq_false_iff_ne.2 fun hroot => hne (by rw [hroot]), x, hx, y, hy, ?_⟩
    rwa [goesBy_of_userName? hx, goesBy_of_userName? hy] at hname

theorem mem_namesInUse {given : List (Alias × String)} {s : String} (hf : f.IsGrounded) :
    s ∈ f.namesInUse as given ↔
      s ∈ (f.occurrences as).map (Text.lower ·.name) ∨ s ∈ given.map (Text.lower ·.2) := by
  rw [namesInUse, List.mem_append]
  refine or_congr_left ?_
  simp only [List.mem_map, mem_occurrences]
  constructor
  · rintro ⟨a, ha, rfl⟩
    exact ⟨_, ⟨a, ha, rfl⟩, by rw [occurrence_root hf]⟩
  · rintro ⟨_, ⟨a, ha, rfl⟩, rfl⟩
    exact ⟨a, ha, by rw [occurrence_root hf]⟩

/-- **The names that are given.** -/
theorem namesFrom_areNamed (hf : f.IsGrounded) (hunshared : ¬ f.SharesUserName as) :
    f.AreNamed as (namesFrom ((f.occurrences as).map (Text.lower ·.name))
      ((f.occurrences as).map (Text.lower ·.name)) (f.occurrences as)) := by
  set all := (f.occurrences as).map (Text.lower ·.name)
  have htaken : ∀ o ∈ f.occurrences as, Text.lower o.name ∈ all :=
    fun o ho => List.mem_map_of_mem ho
  have hroots : (namesFrom all all (f.occurrences as)).map (·.1) = (as.map f.root).eraseDups :=
    namesFrom_roots.trans map_root_occurrences
  have hnodup : ((namesFrom all all (f.occurrences as)).map (·.1)).Nodup :=
    hroots ▸ nodup_eraseDups _
  have hpairs := namesFrom_pairwise htaken
    (keptNames_pairwise ((repeatedName?_occurrences hf).2 hunshared))
  have hkept : ∀ a ∈ as, f.userName? a ≠ none ∨ f.IsAlone as a →
      (f.root a, f.goesBy a) ∈ namesFrom all all (f.occurrences as) := fun a ha hkeeps =>
    mem_namesFrom_of_keepsName (mem_of_mem_occurrences hf ha) ((keepsName_iff hf ha).2 hkeeps) all
  refine ⟨hroots, fun a ha => ?_, ?_, fun a ha x hx => ?_, fun a ha halone => ?_, ?_⟩
  · have hmem : f.root a ∈ (namesFrom all all (f.occurrences as)).map (·.1) := by
      rw [hroots, List.mem_eraseDups]
      exact List.mem_map_of_mem ha
    obtain ⟨⟨_, x⟩, hx, rfl⟩ := List.mem_map.1 hmem
    refine ⟨x, hx, fun y hy => ?_⟩
    exact congrArg Prod.snd (List.inj_on_of_nodup_map hnodup hy hx rfl)
  · intro a _ b _ hdiffer x y hx hy
    have hroot : f.root a ≠ f.root b := beq_eq_false_iff_ne.1 hdiffer
    have hne : (f.root a, x) ≠ (f.root b, y) := fun heq => hroot (congrArg Prod.fst heq)
    have hlower := ne_of_pairwise hpairs hx hy hne
    exact hlower
  · have hname := hkept a ha (.inl (by rw [Option.mem_def.1 hx]; exact Option.some_ne_none x))
    rwa [goesBy_of_userName? hx] at hname
  · exact hkept a ha (.inr halone)
  · intro a ha huser hshared given x later hsplit
    obtain ⟨o, ho, hroot, hnumbered⟩ := namesFrom_eq_append htaken hsplit
    obtain ⟨b, -, rfl⟩ := mem_occurrences.1 ho
    rw [← show f.root a = f.root b from hroot, occurrence_root hf, keepsName_iff hf ha] at hnumbered
    obtain ⟨used, hused, rfl⟩ := hnumbered fun hkeeps => hkeeps.elim (absurd huser) hshared
    have hinUse : ∀ s, s ∈ f.namesInUse as given ↔ s ∈ used :=
      fun s => (mem_namesInUse hf).trans (hused s).symm
    simp only [hinUse]
    exact numbered_isLeast used (f.goesBy a)

/-- **How the occurrences among identities are named.** Naming fails, for a repeated name, just when
the users gave one name to two of them, up to case. Otherwise every occurrence has one name. -/
theorem assignNames_areNamed (hf : f.IsGrounded) (as : List Alias) :
    ((∃ name, assignNames (f.occurrences as) = .error (.repeatedName name)) ↔
      f.SharesUserName as) ∧
    (¬ f.SharesUserName as → ∃ names,
      assignNames (f.occurrences as) = .ok names ∧ f.AreNamed as names) := by
  have hrepeated : repeatedName? [] (f.occurrences as) = none ↔ ¬ f.SharesUserName as :=
    repeatedName?_occurrences hf
  constructor
  · rw [← not_iff_not, ← hrepeated, assignNames]
    cases repeatedName? [] (f.occurrences as) <;> simp
  · intro hunshared
    refine ⟨_, ?_, namesFrom_areNamed hf hunshared⟩
    rw [assignNames, hrepeated.2 hunshared]

/-- Two players whose tables are written in different case, an occurrence of a table whose name is
one with a number, one with such a name from its user, and another identity of the first player. -/
def fourOccurrences : Forest :=
  ⟨[.bound "player" none, .bound "Player" none, .bound "player1" none, .free (some "PLAYER2"),
    .proxy ⟨0⟩]⟩

/-- The players get the numbers that a table and a user leave to them. -/
theorem assignNames_areNamed_players :
    AliasOp.Steps .empty [.make none, .bind ⟨0⟩ "player", .make none, .bind ⟨1⟩ "Player",
      .make none, .bind ⟨2⟩ "player1", .make (some "PLAYER2"), .make none, .link ⟨4⟩ ⟨0⟩]
      fourOccurrences ∧
    ¬ fourOccurrences.SharesUserName [⟨0⟩, ⟨1⟩, ⟨2⟩, ⟨3⟩, ⟨4⟩] ∧
    fourOccurrences.AreNamed [⟨0⟩, ⟨1⟩, ⟨2⟩, ⟨3⟩, ⟨4⟩]
      [(⟨0⟩, "player3"), (⟨1⟩, "Player4"), (⟨2⟩, "player1"), (⟨3⟩, "PLAYER2")] := by
  have hsteps : AliasOp.Steps .empty [.make none, .bind ⟨0⟩ "player", .make none,
      .bind ⟨1⟩ "Player", .make none, .bind ⟨2⟩ "player1", .make (some "PLAYER2"), .make none,
      .link ⟨4⟩ ⟨0⟩] fourOccurrences := by
    refine .cons (by decide) (.cons (by decide) (.cons (by decide) (.cons (by decide)
      (.cons (by decide) (.cons (by decide) (.cons (by decide) (.cons (by decide)
        (.cons (by decide) .nil))))))))
  have hok : assignNames (fourOccurrences.occurrences [⟨0⟩, ⟨1⟩, ⟨2⟩, ⟨3⟩, ⟨4⟩]) =
      .ok [(⟨0⟩, "player3"), (⟨1⟩, "Player4"), (⟨2⟩, "player1"), (⟨3⟩, "PLAYER2")] := by
    decide +kernel
  obtain ⟨⟨hf, -⟩, -⟩ := hsteps.keeps isGrounded_empty isClosed_empty
  obtain ⟨hfails, hnamed⟩ := assignNames_areNamed hf [⟨0⟩, ⟨1⟩, ⟨2⟩, ⟨3⟩, ⟨4⟩]
  have hunshared : ¬ fourOccurrences.SharesUserName [⟨0⟩, ⟨1⟩, ⟨2⟩, ⟨3⟩, ⟨4⟩] := by
    rw [← hfails, hok]
    nofun
  obtain ⟨names, hnames, hare⟩ := hnamed hunshared
  rw [hok] at hnames
  exact ⟨hsteps, hunshared, Except.ok.inj hnames ▸ hare⟩

end Forest

end SqlTree
