import Mathlib.Data.List.Forall2
import SqlTree.Alias.Monad

/-!
# Runs

When work that may fail gives a result, every step of it did. These lemmas take a run that ended
well apart into the runs of its steps.

* `bind_eq_ok` and `mapM_eq_ok` are about work that only may fail.
* `bind_congr_ok` and `mapM_map_congr` tell when two pieces of it are equal, failures included.
* `FailsAlike` compares two pieces of such work, which fail for one reason or not at all.
* `AliasM.Runs` and `UnifyM.Runs` say that work on occurrences ends well, with what result and with
  what forest, and `AliasM.Fails` that it fails.
-/

namespace SqlTree

variable {α β ε : Type}

/-! ## Work that may fail -/

@[simp] theorem bind_eq_ok {x : Except ε α} {k : α → Except ε β} {b : β} :
    x >>= k = .ok b ↔ ∃ a, x = .ok a ∧ k a = .ok b := by
  cases x <;> simp [bind, Except.bind]

@[simp] theorem pure_eq_ok {a b : α} : (pure a : Except ε α) = .ok b ↔ a = b := by
  simp [pure, Except.pure]

@[simp] theorem throw_ne_ok {e : ε} {a : α} : (throw e : Except ε α) ≠ .ok a := by
  simp [throw, throwThe, MonadExceptOf.throw]

theorem map_eq_ok {x : Except ε α} {m : α → β} {b : β} :
    m <$> x = .ok b ↔ ∃ a, x = .ok a ∧ m a = b := by
  cases x <;> simp [Functor.map, Except.map]

@[simp] theorem ok_bind {a : α} {k : α → Except ε β} : Except.ok a >>= k = k a := rfl

@[simp] theorem error_bind {e : ε} {k : α → Except ε β} : Except.error e >>= k = .error e := rfl

/-- A list of results comes from results one by one. -/
theorem mapM_eq_ok {k : α → Except ε β} {as : List α} {bs : List β} :
    as.mapM k = .ok bs ↔ List.Forall₂ (fun a b => k a = .ok b) as bs := by
  induction as generalizing bs with
  | nil =>
    simp only [List.mapM_nil, pure_eq_ok, List.forall₂_nil_left_iff]
    exact eq_comm
  | cons a as ih =>
    simp only [List.mapM_cons, bind_eq_ok, pure_eq_ok, ih, List.forall₂_cons_left_iff]
    constructor
    · rintro ⟨b, hb, bs', hbs, rfl⟩
      exact ⟨b, bs', hb, hbs, rfl⟩
    · rintro ⟨b, bs', hb, hbs, rfl⟩
      exact ⟨b, hb, bs', hbs, rfl⟩

/-- Where work gives what `m` gives, a list of it gives a mapped list. -/
theorem eq_map_of_mapM_eq_ok {α β : Type} {k : α → Except ε β} {m : α → β}
    (h : ∀ a b, k a = .ok b → b = m a) {as : List α} {bs : List β} (hbs : as.mapM k = .ok bs) :
    bs = as.map m := by
  have hall := mapM_eq_ok.1 hbs
  induction hall with
  | nil => rfl
  | cons hab _ ih => rw [List.map_cons, ← h _ _ hab, ← ih (mapM_eq_ok.2 ‹_›)]

/-- Where work on mapped elements gives mapped results, a list of it does. -/
theorem mapM_map_eq_ok {α' β' : Type} {k : α → Except ε β} {k' : α' → Except ε β'} {g : α → α'}
    {g' : β → β'} (hk : ∀ a b, k a = .ok b → k' (g a) = .ok (g' b)) {as : List α} {bs : List β}
    (h : as.mapM k = .ok bs) : (as.map g).mapM k' = .ok (bs.map g') := by
  rw [mapM_eq_ok] at h ⊢
  rw [List.forall₂_map_left_iff, List.forall₂_map_right_iff]
  exact h.imp hk

/-- What may be there has a result just when it gives one or is not there. -/
theorem optionMapM_eq_ok {k : α → Except ε β} {a? : Option α} {b? : Option β} :
    a?.mapM k = .ok b? ↔ Option.Rel (fun a b => k a = .ok b) a? b? := by
  cases a? with
  | none => cases b? <;> simp
  | some a =>
    cases b? with
    | none =>
      simp only [Option.mapM_some, map_eq_ok, Option.not_rel_some_none, iff_false]
      rintro ⟨b, -, ⟨⟩⟩
    | some b => simp [map_eq_ok]

theorem optionMapM_map_eq_ok {α' β' : Type} {k : α → Except ε β} {k' : α' → Except ε β'}
    {g : α → α'} {g' : β → β'} (hk : ∀ a b, k a = .ok b → k' (g a) = .ok (g' b)) {a? : Option α}
    {b? : Option β} (h : a?.mapM k = .ok b?) : (a?.map g).mapM k' = .ok (b?.map g') := by
  rw [optionMapM_eq_ok] at h ⊢
  cases h with
  | none => exact .none
  | some hab => exact .some (hk _ _ hab)

theorem optionRel_imp {R S : α → β → Prop} (h : ∀ a b, R a b → S a b) {a? : Option α}
    {b? : Option β} (hrel : Option.Rel R a? b?) : Option.Rel S a? b? := by
  cases hrel with
  | none => exact .none
  | some hab => exact .some (h _ _ hab)

theorem eq_map_of_optionRel {R : α → β → Prop} {m : α → β} (h : ∀ a b, R a b → b = m a)
    {a? : Option α} {b? : Option β} (hrel : Option.Rel R a? b?) : b? = a?.map m := by
  cases hrel with
  | none => rfl
  | some hab => rw [Option.map_some, h _ _ hab]

theorem optionRel_map_right {γ : Type} {R : α → γ → Prop} {m : β → γ} {a? : Option α}
    {b? : Option β} (h : Option.Rel (fun a b => R a (m b)) a? b?) : Option.Rel R a? (b?.map m) := by
  cases h with
  | none => exact .none
  | some hab => exact .some hab

theorem isSome_eq_of_optionRel {R : α → β → Prop} {a? : Option α} {b? : Option β}
    (hrel : Option.Rel R a? b?) : b?.isSome = a?.isSome := by
  cases hrel <;> rfl

/-- The results of two lists behind each other are their results behind each other. -/
theorem forall₂_append_left {R : α → β → Prop} {as as' : List α} {bs : List β} :
    List.Forall₂ R (as ++ as') bs ↔
      ∃ cs ds, List.Forall₂ R as cs ∧ List.Forall₂ R as' ds ∧ bs = cs ++ ds := by
  constructor
  · intro h
    have h' := h.flip
    exact ⟨_, _, (List.forall₂_take_append _ _ _ h').flip, (List.forall₂_drop_append _ _ _ h').flip,
      (List.take_append_drop as.length bs).symm⟩
  · rintro ⟨cs, ds, hc, hd, rfl⟩
    exact List.rel_append hc hd

theorem flatMap_eq_of_forall₂ {γ : Type} {R : α → β → Prop} {m : α → List γ} {m' : β → List γ}
    (h : ∀ a b, R a b → m a = m' b) {as : List α} {bs : List β} (hall : List.Forall₂ R as bs) :
    as.flatMap m = bs.flatMap m' := by
  induction hall with
  | nil => rfl
  | cons hab _ ih => rw [List.flatMap_cons, List.flatMap_cons, h _ _ hab, ih]

theorem forall₂_comp {γ : Type} {R : α → β → Prop} {S : β → γ → Prop} {T : α → γ → Prop}
    (h : ∀ a b c, R a b → S b c → T a c) {as : List α} {bs : List β} {cs : List γ}
    (hR : List.Forall₂ R as bs) (hS : List.Forall₂ S bs cs) : List.Forall₂ T as cs := by
  induction hR generalizing cs with
  | nil =>
    cases hS
    exact .nil
  | cons hab _ ih =>
    cases hS with
    | cons hbc hrest => exact .cons (h _ _ _ hab hbc) (ih hrest)

/-- A list is related to what a function makes of its members. -/
theorem forall₂_map {R : α → β → Prop} {m : α → β} (h : ∀ a, R a (m a)) (as : List α) :
    List.Forall₂ R as (as.map m) := by
  rw [List.forall₂_map_right_iff, List.forall₂_same]
  exact fun a _ => h a

theorem map_eq_of_forall₂ {γ : Type} {m : α → γ} {m' : β → γ} {as : List α} {bs : List β}
    (h : List.Forall₂ (fun a b => m a = m' b) as bs) : as.map m = bs.map m' := by
  induction h with
  | nil => rfl
  | cons hab _ ih => rw [List.map_cons, List.map_cons, hab, ih]

theorem forall₂_of_map_eq {γ : Type} {m : α → γ} {m' : β → γ} {as : List α} {bs : List β}
    (h : as.map m = bs.map m') : List.Forall₂ (fun a b => m a = m' b) as bs := by
  rwa [← List.forall₂_eq_eq_eq, List.forall₂_map_left_iff, List.forall₂_map_right_iff] at h

theorem forall₂_and {R S : α → β → Prop} {as : List α} {bs : List β} (hR : List.Forall₂ R as bs)
    (hS : List.Forall₂ S as bs) : List.Forall₂ (fun a b => R a b ∧ S a b) as bs := by
  induction hR with
  | nil => exact .nil
  | cons hab _ ih =>
    cases hS with
    | cons hab' hrest => exact .cons ⟨hab, hab'⟩ (ih hrest)

theorem exists_of_forall₂ {R : α → β → Prop} {as : List α} {bs : List β} {a : α}
    (h : List.Forall₂ R as bs) (ha : a ∈ as) : ∃ b ∈ bs, R a b := by
  induction h with
  | nil => cases ha
  | @cons a' b' _ bs' hab _ ih =>
    rcases List.mem_cons.1 ha with rfl | ha
    · exact ⟨b', List.mem_cons_self, hab⟩
    · obtain ⟨b, hb, hr⟩ := ih ha
      exact ⟨b, List.mem_cons_of_mem _ hb, hr⟩

theorem exists_mem_zip_of_forall₂ {R : α → β → Prop} {as : List α} {bs : List β} {a : α}
    (h : List.Forall₂ R as bs) (ha : a ∈ as) : ∃ b, (a, b) ∈ as.zip bs ∧ R a b := by
  induction h with
  | nil => cases ha
  | @cons a' b' _ bs' hab _ ih =>
    rw [List.zip_cons_cons]
    rcases List.mem_cons.1 ha with rfl | ha
    · exact ⟨b', List.mem_cons_self, hab⟩
    · obtain ⟨b, hb, hr⟩ := ih ha
      exact ⟨b, List.mem_cons_of_mem _ hb, hr⟩

/-- Related lists are pairwise related in themselves together. -/
theorem pairwise_iff_of_forall₂ {R : α → β → Prop} {P : α → α → Prop} {Q : β → β → Prop}
    (hPQ : ∀ a b a' b', R a b → R a' b' → (P a a' ↔ Q b b')) {as : List α} {bs : List β}
    (h : List.Forall₂ R as bs) : as.Pairwise P ↔ bs.Pairwise Q := by
  induction h with
  | nil => simp
  | @cons a b as bs hab hrest ih =>
    rw [List.pairwise_cons, List.pairwise_cons, ih]
    refine and_congr_left' ⟨fun hP b' hb' => ?_, fun hQ a' ha' => ?_⟩
    · obtain ⟨a', ha', hr⟩ := exists_of_forall₂ hrest.flip hb'
      exact (hPQ a b a' b' hab hr).1 (hP a' ha')
    · obtain ⟨b', hb', hr⟩ := exists_of_forall₂ hrest ha'
      exact (hPQ a b a' b' hab hr).2 (hQ b' hb')

/-! ## Equal work -/

theorem bind_congr_ok {x : Except ε α} {k k' : α → Except ε β}
    (h : ∀ a, x = .ok a → k' a = k a) : x >>= k' = x >>= k := by
  cases x with
  | ok a => exact h a rfl
  | error e => rfl

theorem bind_eq_bind {x x' : Except ε α} {k k' : α → Except ε β} (hx : x' = x)
    (hk : ∀ a, x = .ok a → k' a = k a) : x' >>= k' = x >>= k := by
  rw [hx, bind_congr_ok hk]

/-- Work behind work whose result is mapped. -/
theorem map_bind_congr {α' : Type} {m : α → α'} {x : Except ε α} {k : α → Except ε β}
    {k' : α' → Except ε β} (h : ∀ a, x = .ok a → k' (m a) = k a) :
    (m <$> x) >>= k' = x >>= k := by
  cases x with
  | ok a => exact h a rfl
  | error e => rfl

/-- What comes behind a failure does not matter. -/
theorem throw_bind_congr (e : ε) (k k' : α → Except ε β) :
    (throw e >>= k') = (throw e >>= k) := rfl

/-- Lists of work that is equal one by one. -/
theorem mapM_map_congr {α' : Type} {m : α → α'} {k : α → Except ε β} {k' : α' → Except ε β} :
    ∀ {as : List α}, (∀ a ∈ as, k' (m a) = k a) → (as.map m).mapM k' = as.mapM k
  | [], _ => rfl
  | a :: as, h => by
    rw [List.map_cons, List.mapM_cons, List.mapM_cons, h a List.mem_cons_self,
      mapM_map_congr fun b hb => h b (List.mem_cons_of_mem a hb)]

theorem optionMapM_map_congr {α' : Type} {m : α → α'} {k : α → Except ε β} {k' : α' → Except ε β}
    {a? : Option α} (h : ∀ a ∈ a?, k' (m a) = k a) : (a?.map m).mapM k' = a?.mapM k := by
  cases a? with
  | none => rfl
  | some a => rw [Option.map_some, Option.mapM_some, Option.mapM_some, h a rfl]

/-! ## Work that fails alike -/

/-- Two pieces of work fail for one reason, or have results that are related. -/
inductive FailsAlike (R : α → β → Prop) : Except ε α → Except ε β → Prop
  | results {a : α} {b : β} : R a b → FailsAlike R (.ok a) (.ok b)
  | failures (e : ε) : FailsAlike R (.error e) (.error e)

namespace FailsAlike

variable {α' β' : Type} {R : α → β → Prop} {S : α' → β' → Prop} {x : Except ε α} {y : Except ε β}

theorem imp {R' : α → β → Prop} (hR : ∀ a b, R a b → R' a b) (h : FailsAlike R x y) :
    FailsAlike R' x y := by
  cases h with
  | results hab => exact .results (hR _ _ hab)
  | failures e => exact .failures e

/-- Work behind work fails alike when both do. -/
theorem bind {k : α → Except ε α'} {k' : β → Except ε β'} (h : FailsAlike R x y)
    (hk : ∀ a b, R a b → FailsAlike S (k a) (k' b)) : FailsAlike S (x >>= k) (y >>= k') := by
  cases h with
  | results hab => exact hk _ _ hab
  | failures e => exact .failures e

/-- Work behind one and the same work. -/
theorem step {k : α → Except ε α'} {k' : α → Except ε β'}
    (hk : ∀ a, x = .ok a → FailsAlike S (k a) (k' a)) : FailsAlike S (x >>= k) (x >>= k') := by
  cases hx : x with
  | ok a => exact hk a hx
  | error e => exact .failures e

theorem map {m : α → α'} {m' : β → β'} (h : FailsAlike R x y)
    (hm : ∀ a b, R a b → S (m a) (m' b)) :
    FailsAlike S (x >>= fun a => pure (m a)) (y >>= fun b => pure (m' b)) :=
  h.bind fun _ _ hab => .results (hm _ _ hab)

/-- Work that fails alike, with results that are taken alike, comes to the same. -/
theorem bind_eq {γ : Type} (h : FailsAlike R x y) {k : α → Except ε γ} {k' : β → Except ε γ}
    (hk : ∀ a b, R a b → k' b = k a) : y >>= k' = x >>= k := by
  cases h with
  | results hR => exact hk _ _ hR
  | failures e => rfl

theorem ite {x' : Except ε α} {y' : Except ε β} (p : Prop) [Decidable p] (h : FailsAlike R x y)
    (h' : FailsAlike R x' y') : FailsAlike R (if p then x else x') (if p then y else y') := by
  split
  · exact h
  · exact h'

/-- Work on the members of two lists fails alike when it does on each two of them. -/
theorem mapM {k : α → Except ε α'} {k' : β → Except ε β'} {as : List α} {bs : List β}
    (h : List.Forall₂ (fun a b => FailsAlike S (k a) (k' b)) as bs) :
    FailsAlike (List.Forall₂ S) (as.mapM k) (bs.mapM k') := by
  induction h with
  | nil => exact .results .nil
  | cons hab _ ih =>
    rw [List.mapM_cons, List.mapM_cons]
    exact hab.bind fun _ _ hcd => ih.map fun _ _ hrest => .cons hcd hrest

end FailsAlike

/-! ## Work on occurrences -/

namespace AliasM

/-- The work `x` turns the forest `f` into `g` and gives `a`. -/
def Runs (x : AliasM α) (f : Forest) (a : α) (g : Forest) : Prop :=
  ((ExceptT.run x).run f).run = (.ok a, g)

/-- The work `x` turns the forest `f` into `g` and fails. -/
def Fails (x : AliasM α) (f : Forest) (e : CompileError) (g : Forest) : Prop :=
  ((ExceptT.run x).run f).run = (.error e, g)

/-- What the work `x` comes to on the forest `f`. -/
def outcome (x : AliasM α) (f : Forest) : Except CompileError α :=
  (((ExceptT.run x).run f).run).1

/-- The forest that the work `x` leaves, whether it fails or not. -/
def left (x : AliasM α) (f : Forest) : Forest :=
  (((ExceptT.run x).run f).run).2

variable {f g h : Forest} {a : α} {b : β}

theorem runs_or_fails (x : AliasM α) (f : Forest) :
    (∃ a, Runs x f a (x.left f)) ∨ ∃ e, Fails x f e (x.left f) := by
  rw [left]
  simp only [Runs, Fails]
  rcases ((ExceptT.run x).run f).run with ⟨e | a, g⟩
  · exact .inr ⟨e, rfl⟩
  · exact .inl ⟨a, rfl⟩

theorem Fails.outcome_eq {x : AliasM α} {e : CompileError} (h : Fails x f e g) :
    x.outcome f = .error e := congrArg Prod.fst h

/-- Work behind work that ends well comes to what it comes to on the forest left. -/
theorem Runs.outcome_bind {x : AliasM α} {k : α → AliasM β} (hx : Runs x f a g) :
    (x >>= k).outcome f = (k a).outcome g := by
  have hx : (ExceptT.run x).run f = (.ok a, g) := hx
  rw [outcome, ExceptT.run_bind, StateT.run_bind, hx]
  rfl

/-- What fails first fails. -/
theorem outcome_bind_of_error {x : AliasM α} {e : CompileError} (h : x.outcome f = .error e)
    (k : α → AliasM β) : (x >>= k).outcome f = .error e := by
  revert h
  rw [outcome, outcome, ExceptT.run_bind, StateT.run_bind, Id.run_bind]
  rcases ((ExceptT.run x).run f).run with ⟨_ | a, g⟩
  · rintro ⟨⟩
    rfl
  · rintro ⟨⟩

theorem outcome_read_bind {view : Forest → Except CompileError α} (k : α → AliasM β) :
    (read view >>= k).outcome f = view f >>= fun a => (k a).outcome f := by
  have hread : (ExceptT.run (read view)).run f = (view f, f) := rfl
  rw [outcome, ExceptT.run_bind, StateT.run_bind, hread]
  cases view f <;> rfl

theorem outcome_read {view : Forest → Except CompileError α} (k : α → β) :
    (read view >>= fun a => pure (k a)).outcome f = k <$> view f := by
  rw [outcome_read_bind]
  cases view f <;> rfl

/-- Work has one result. -/
theorem Runs.unique {x : AliasM α} {a' : α} {g' : Forest} (hr : Runs x f a g)
    (hr' : Runs x f a' g') : a = a' ∧ g = g' := by
  obtain ⟨ha, hg⟩ := Prod.mk.inj (hr.symm.trans hr')
  exact ⟨Except.ok.inj ha, hg⟩

@[simp] theorem runs_pure {a' : α} : Runs (pure a) f a' g ↔ a' = a ∧ g = f := by
  simp [Runs, eq_comm]

@[simp] theorem runs_bind {x : AliasM α} {k : α → AliasM β} :
    Runs (x >>= k) f b h ↔ ∃ a g, Runs x f a g ∧ Runs (k a) g b h := by
  simp only [Runs, ExceptT.run_bind, StateT.run_bind, Id.run_bind]
  rcases ((ExceptT.run x).run f).run with ⟨_ | a, g⟩
  · simp
  · simp

@[simp] theorem runs_fresh {name? : Option String} {a : Alias} :
    Runs (fresh name?) f a g ↔ (a, g) = f.fresh name? := by
  simp [Runs, fresh, Prod.ext_iff, StateT.run, Id.run, eq_comm]

@[simp] theorem runs_change {step : Forest → Except CompileError Forest} {u : Unit} :
    Runs (change step) f u g ↔ step f = .ok g := by
  simp only [Runs, change, ExceptT.run_mk, StateT.run, Id.run]
  cases step f <;> simp

@[simp] theorem runs_read {view : Forest → Except CompileError α} :
    Runs (read view) f a g ↔ view f = .ok a ∧ g = f := by
  simp [Runs, read, StateT.run, Id.run, eq_comm]

theorem not_fails_pure {e : CompileError} : ¬ Fails (pure a) f e g := by
  simp [Fails]

/-- Work behind work fails where the first one does, or the second one behind it. -/
theorem fails_bind {x : AliasM α} {k : α → AliasM β} {e : CompileError} :
    Fails (x >>= k) f e h ↔ Fails x f e h ∨ ∃ a g, Runs x f a g ∧ Fails (k a) g e h := by
  simp only [Fails, Runs, ExceptT.run_bind, StateT.run_bind, Id.run_bind]
  rcases ((ExceptT.run x).run f).run with ⟨_ | a, g⟩
  · simp
  · simp

theorem fails_change {step : Forest → Except CompileError Forest} {e : CompileError} :
    Fails (change step) f e g ↔ step f = .error e ∧ g = f := by
  simp only [Fails, change, ExceptT.run_mk, StateT.run, Id.run]
  cases step f <;> simp [eq_comm]

theorem fails_read {view : Forest → Except CompileError α} {e : CompileError} :
    Fails (read view) f e g ↔ view f = .error e ∧ g = f := by
  simp [Fails, read, StateT.run, Id.run, eq_comm]

end AliasM

namespace UnifyM

/-- The merging `x` turns the forest `f` into `g` and gives `a`. -/
def Runs (x : UnifyM α) (f : Forest) (a : α) (g : Forest) : Prop :=
  ((OptionT.run x).run f).run = (some a, g)

variable {f g h : Forest} {a : α} {b : β}

@[simp] theorem runs_pure {a' : α} : Runs (pure a) f a' g ↔ a' = a ∧ g = f := by
  simp [Runs, eq_comm]

@[simp] theorem runs_bind {x : UnifyM α} {k : α → UnifyM β} :
    Runs (x >>= k) f b h ↔ ∃ a g, Runs x f a g ∧ Runs (k a) g b h := by
  simp only [Runs, OptionT.run_bind, Option.elimM, StateT.run_bind, Id.run_bind]
  rcases ((OptionT.run x).run f).run with ⟨_ | a, g⟩
  · simp
  · simp

@[simp] theorem runs_unify {a b : Alias} {u : Unit} :
    Runs (unify a b) f u g ↔ f.unify a b = some g := by
  simp only [Runs, unify, OptionT.run_mk, StateT.run, Id.run]
  cases f.unify a b <;> simp

@[simp] theorem not_runs_failure : ¬ Runs (failure : UnifyM α) f a g := by
  simp [Runs]

@[simp] theorem runs_orError {x : UnifyM α} {e : CompileError} :
    AliasM.Runs (orError x e) f a g ↔ Runs x f a g := by
  simp only [AliasM.Runs, Runs, orError, ExceptT.run_mk, StateT.run, Id.run]
  rcases OptionT.run x f with ⟨_ | a, g⟩ <;> simp

/-- Merging gives a result, or comes to nothing and fails as it is told to. -/
theorem runs_or_outcome_orError (x : UnifyM α) (e : CompileError) (f : Forest) :
    (∃ a g, Runs x f a g) ∨ (orError x e).outcome f = .error e := by
  simp only [Runs, AliasM.outcome, orError, ExceptT.run_mk, StateT.run, Id.run]
  rcases OptionT.run x f with ⟨_ | a, g⟩
  · exact .inr rfl
  · exact .inl ⟨a, g, rfl⟩

end UnifyM

end SqlTree
