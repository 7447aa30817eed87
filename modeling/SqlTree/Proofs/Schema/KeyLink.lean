import SqlTree.Proofs.Runs
import SqlTree.Schema.Catalog
import SqlTree.Statement.OfQuery

/-!
# Foreign keys found by their columns

A link names two tables, and of the foreign keys between them those columns that it is told. Columns
are told in any order and without regard to ASCII case, so adding columns to a link that finds its
key without them must not lead it to another one.

* `SameColumns` and `SameColumnPairs` say when columns, or pairs of them, are the same.
* `KeyLink.Fits` says that a declared key is one that the link may mean. Whether one, none or
  several of the keys of the origin fit decides what it resolves to: `KeyLink.resolveDeclared_eq`.
* `KeyLink.resolve_honours_columns`: the pairs found have the columns told, telling more columns of
  the key found finds it again, and only a second key that fits stands in the way.
-/

namespace SqlTree

/-! ## The same columns -/

/-- Two lists name the same columns, each as often, up to ASCII case and order. -/
def SameColumns (as bs : List String) : Prop :=
  (as.map Text.asciiLower).Perm (bs.map Text.asciiLower)

/-- Two lists name the same pairs of columns, each as often, up to ASCII case and order. -/
def SameColumnPairs (ps qs : List (String × String)) : Prop :=
  (ps.map lowerPair).Perm (qs.map lowerPair)

instance (as bs : List String) : Decidable (SameColumns as bs) :=
  inferInstanceAs (Decidable (List.Perm _ _))

instance (ps qs : List (String × String)) : Decidable (SameColumnPairs ps qs) :=
  inferInstanceAs (Decidable (List.Perm _ _))

namespace SameColumns

variable {as bs cs : List String}

theorem refl (as : List String) : SameColumns as as := List.Perm.refl _

theorem symm (h : SameColumns as bs) : SameColumns bs as := List.Perm.symm h

theorem trans (h : SameColumns as bs) (h' : SameColumns bs cs) : SameColumns as cs :=
  List.Perm.trans h h'

end SameColumns

theorem SameColumnPairs.length_eq {ps qs : List (String × String)} (h : SameColumnPairs ps qs) :
    ps.length = qs.length := by
  simpa using List.Perm.length_eq h

/-! ## Tables by name -/

namespace Catalog

variable {c : Catalog} {name name' : String} {t : Table}

/-- The table found has the name asked for, up to ASCII case. -/
theorem asciiLower_name_of_table (h : c.table name = .ok t) :
    Text.asciiLower t.name = Text.asciiLower name := by
  rw [table] at h
  split at h
  · rename_i found hfind
    obtain rfl := Except.ok.inj h
    have hsame := List.find?_some hfind
    exact Text.sameName_iff.1 hsame
  · cases h

/-- Names that are equal up to ASCII case find the same table. -/
theorem table_of_sameName (h : c.table name = .ok t)
    (hname : Text.asciiLower name' = Text.asciiLower name) : c.table name' = .ok t := by
  have hsame : (fun t : Table => Text.sameName t.name name') =
      fun t => Text.sameName t.name name := by
    funext t
    rw [Text.sameName, Text.sameName, hname]
  rw [table] at h ⊢
  rw [hsame]
  split at h
  · exact h
  · cases h

end Catalog

/-! ## Keys that fit a link -/

namespace KeyLink

/-- The link between the same tables without columns. -/
def bare (l : KeyLink) : KeyLink := { origin := l.origin, destination := l.destination }

/-- A key leads to the destination of the link and has the columns that the link gives. -/
structure Fits (l : KeyLink) (k : ForeignKey) : Prop where
  leads : Text.asciiLower k.destination = Text.asciiLower l.destination
  origin : ∀ columns ∈ l.originColumns?, SameColumns columns k.originColumns
  destination : ∀ columns ∈ l.destinationColumns?, SameColumns columns k.destinationColumns

variable {c : Catalog} {l : KeyLink} {k : ForeignKey} {o d : Table} {m : List (String × String)}

theorem agrees_iff {given? : Option (List String)} {columns : List String} :
    agrees given? columns = true ↔ ∀ given ∈ given?, SameColumns given columns := by
  cases given? with
  | none => exact iff_of_true rfl nofun
  | some given => simp [agrees, SameColumns]

theorem isMatch_iff {name : String} (hname : Text.asciiLower name = Text.asciiLower l.destination) :
    l.isMatch name k = true ↔ l.Fits k := by
  rw [isMatch, Bool.and_eq_true, Bool.and_eq_true, Text.sameName_iff, agrees_iff, agrees_iff, hname]
  exact ⟨fun ⟨⟨h₁, h₂⟩, h₃⟩ => ⟨h₁, h₂, h₃⟩, fun ⟨h₁, h₂, h₃⟩ => ⟨⟨h₁, h₂⟩, h₃⟩⟩

instance (l : KeyLink) (k : ForeignKey) : Decidable (l.Fits k) :=
  decidable_of_iff (l.isMatch l.destination k = true) (isMatch_iff rfl)

/-- The keys of a table that fit the link. -/
def fitting (l : KeyLink) (o : Table) : List ForeignKey := o.foreignKeys.filter (l.Fits ·)

theorem fits_of_fitting (h : l.fitting o = [k]) : l.Fits k := by
  have hmem : k ∈ l.fitting o := by rw [h]; exact List.mem_singleton_self k
  exact of_decide_eq_true (List.mem_filter.1 hmem).2

/-- Giving a link more columns keeps of the keys that fit those that have these columns. -/
theorem fitting_of_bare (hk : l.bare.fitting o = [k])
    (horigin : ∀ columns ∈ l.originColumns?, SameColumns columns k.originColumns)
    (hdestination : ∀ columns ∈ l.destinationColumns?, SameColumns columns k.destinationColumns) :
    l.fitting o = [k] := by
  -- A key that fits with columns fits without them, so the keys are filtered once more.
  have hbare : ∀ k', l.Fits k' → l.bare.Fits k' := fun k' h => ⟨h.leads, nofun, nofun⟩
  have hnested : l.fitting o = (l.bare.fitting o).filter (l.Fits ·) := by
    rw [fitting, fitting, List.filter_filter]
    refine List.filter_congr fun k' _ => ?_
    simpa using hbare k'
  have hfits : l.Fits k := ⟨(fits_of_fitting hk).leads, horigin, hdestination⟩
  rw [hnested, hk, List.filter_cons_of_pos (by simpa using hfits), List.filter_nil]

/-- **What a link resolves to when it does not give both sides.** The tables are found first. Then a
single key that fits is taken; where there is none, columns of the origin refer to the primary
key. -/
theorem resolveDeclared_eq (ho : c.table l.origin = .ok o) (hd : c.table l.destination = .ok d) :
    l.resolveDeclared c.schema =
      match l.fitting o, l.originColumns? with
      | [k], _ => .ok k.pairs
      | [], none => .error l.notFound
      | [], some columns =>
        if d.primaryKey.columns.length = columns.length then
          .ok (columns.zip d.primaryKey.columns)
        else .error l.notFound
      | ks, _ => .error (.severalForeignKeys l.origin l.destination ks.length) := by
  have hname := Catalog.asciiLower_name_of_table hd
  have hfilter : o.foreignKeys.filter (l.isMatch d.name) = l.fitting o :=
    List.filter_congr fun k _ => by
      rw [Bool.eq_iff_iff, isMatch_iff hname, decide_eq_true_iff]
  have hname' : c.schema.declaredName l.destination = .ok d.name := by
    change (c.table l.destination >>= fun t => pure t.name) = _
    rw [hd]
    rfl
  have hkeys : c.schema.foreignKeys l.origin = .ok o.foreignKeys := by
    change (c.table l.origin >>= fun t => pure t.foreignKeys) = _
    rw [ho]
    rfl
  have hprimary : c.schema.primaryKey d.name = .ok d.primaryKey := by
    change (c.table d.name >>= fun t => pure t.primaryKey) = _
    rw [Catalog.table_of_sameName hd hname]
    rfl
  rw [resolveDeclared, hname', hkeys, ok_bind, ok_bind, hfilter]
  rcases l.fitting o with _ | ⟨k, _ | ⟨k', ks⟩⟩
  · cases l.originColumns? with
    | none => rfl
    | some columns =>
      simp only [hprimary, ok_bind]
      by_cases hlength : d.primaryKey.columns.length = columns.length
      · rw [if_neg (not_not_intro hlength), if_pos hlength]
        rfl
      · rw [if_pos hlength, if_neg hlength]
        rfl
  · rfl
  · rfl

/-- A link that has to be asked for fails without its tables. -/
theorem tables_or_noSuchTable (c : Catalog) (l : KeyLink) :
    (∃ o d, c.table l.origin = .ok o ∧ c.table l.destination = .ok d) ∨
      ∃ name, l.resolveDeclared c.schema = .error (.noSuchTable name) := by
  have hmissing (name : String) :
      (∃ t, c.table name = .ok t) ∨ c.table name = .error (.noSuchTable name) := by
    rw [Catalog.table]
    split
    · exact .inl ⟨_, rfl⟩
    · exact .inr rfl
  rcases hmissing l.destination with ⟨d, hd⟩ | hd
  · rcases hmissing l.origin with ⟨o, ho⟩ | ho
    · exact .inl ⟨o, d, ho, hd⟩
    · refine .inr ⟨l.origin, ?_⟩
      simp only [resolveDeclared, Catalog.schema, hd, ho, ok_bind, error_bind]
      rfl
  · refine .inr ⟨l.destination, ?_⟩
    simp only [resolveDeclared, Catalog.schema, hd, error_bind]

/-- The pairs found by asking are those of the only key that fits, or the columns of the origin with
those of a primary key. -/
theorem resolveDeclared_cases (h : l.resolveDeclared c.schema = .ok m) :
    (∃ o d k, c.table l.origin = .ok o ∧ c.table l.destination = .ok d ∧ l.fitting o = [k] ∧
        m = k.pairs) ∨
      ∃ os key, l.originColumns? = some os ∧ key.length = os.length ∧ m = os.zip key := by
  rcases tables_or_noSuchTable c l with ⟨o, d, ho, hd⟩ | ⟨name, hmissing⟩
  · rw [resolveDeclared_eq ho hd] at h
    split at h
    · rename_i hone
      exact .inl ⟨o, d, _, ho, hd, hone, (Except.ok.inj h).symm⟩
    · cases h
    · rename_i horigin
      split at h
      · rename_i hlength
        exact .inr ⟨_, _, horigin, hlength, (Except.ok.inj h).symm⟩
      · cases h
    · cases h
  · cases hmissing.symm.trans h

/-- A link that does not give both sides resolves by asking. -/
theorem resolve_eq_resolveDeclared {db : Schema}
    (h : ¬ (l.originColumns?.isSome ∧ l.destinationColumns?.isSome)) :
    l.resolve db = l.resolveDeclared db := by
  rw [resolve]
  split
  · rename_i horigin hdestination
    exact absurd ⟨by rw [horigin]; rfl, by rw [hdestination]; rfl⟩ h
  · rfl

/-! ## Columns that are given -/

/-- **The pairs found have the columns that the link gives.** -/
theorem sameColumns_of_resolve (h : l.resolve c.schema = .ok m) :
    (∀ os ∈ l.originColumns?, SameColumns (m.map (·.1)) os) ∧
      ∀ ds ∈ l.destinationColumns?, SameColumns (m.map (·.2)) ds := by
  by_cases hboth : l.originColumns?.isSome ∧ l.destinationColumns?.isSome
  · obtain ⟨os, horigin⟩ := Option.isSome_iff_exists.1 hboth.1
    obtain ⟨ds, hdestination⟩ := Option.isSome_iff_exists.1 hboth.2
    simp only [resolve, horigin, hdestination] at h ⊢
    split at h
    · cases h
    · rename_i hwidths
      obtain rfl := Except.ok.inj h
      have hlength : os.length = ds.length := not_not.1 (not_or.1 hwidths).1
      refine ⟨fun _ hos => ?_, fun _ hds => ?_⟩
      · obtain rfl := Option.some.inj hos
        rw [List.map_fst_zip (Nat.le_of_eq hlength)]
        exact .refl _
      · obtain rfl := Option.some.inj hds
        rw [List.map_snd_zip (Nat.le_of_eq hlength.symm)]
        exact .refl _
  · rw [resolve_eq_resolveDeclared hboth] at h
    rcases resolveDeclared_cases h with
      ⟨o, d, k, -, -, hone, rfl⟩ | ⟨os, key, horigin, hlength, rfl⟩
    · have hfits := fits_of_fitting hone
      exact ⟨fun os hos => (hfits.origin os hos).symm,
        fun ds hds => (hfits.destination ds hds).symm⟩
    · refine ⟨fun _ hos => ?_, fun ds hds => absurd ⟨?_, ?_⟩ hboth⟩
      · obtain rfl := Option.some.inj (horigin.symm.trans hos)
        rw [List.map_fst_zip (Nat.le_of_eq hlength.symm)]
        exact .refl _
      · rw [horigin]
        rfl
      · exact Option.isSome_iff_exists.2 ⟨ds, hds⟩

/-- **A key found without columns is found again with columns of its own on one side.** -/
theorem resolve_of_bare (h : l.bare.resolve c.schema = .ok m)
    (hone : ¬ (l.originColumns?.isSome ∧ l.destinationColumns?.isSome))
    (horigin : ∀ os ∈ l.originColumns?, SameColumns os (m.map (·.1)))
    (hdestination : ∀ ds ∈ l.destinationColumns?, SameColumns ds (m.map (·.2))) :
    l.resolve c.schema = .ok m := by
  have hbare : l.bare.resolveDeclared c.schema = .ok m := h
  rcases resolveDeclared_cases hbare with ⟨o, d, k, ho, hd, hk, rfl⟩ | ⟨_, _, hnone, -⟩
  · rw [resolve_eq_resolveDeclared hone, resolveDeclared_eq (l := l) ho hd,
      fitting_of_bare hk horigin hdestination]
  · cases hnone

/-- Pairs that are given with both sides are taken as they are. -/
theorem resolve_of_pairs {db : Schema} {ps : List (String × String)} (hps : ps ≠ [])
    (horigin : l.originColumns? = some (ps.map (·.1)))
    (hdestination : l.destinationColumns? = some (ps.map (·.2))) : l.resolve db = .ok ps := by
  have hwidths : ¬ ((ps.map (·.1)).length ≠ (ps.map (·.2)).length ∨
      (ps.map (·.1)).isEmpty = true) := by
    simpa using hps
  simp only [resolve, horigin, hdestination]
  rw [if_neg hwidths, List.zip_map', List.map_id']

theorem resolveDeclared_eq_severalForeignKeys {a b : String} {n : Nat}
    (ho : c.table l.origin = .ok o) (hd : c.table l.destination = .ok d) :
    l.resolveDeclared c.schema = .error (.severalForeignKeys a b n) ↔
      a = l.origin ∧ b = l.destination ∧ n = (l.fitting o).length ∧ 2 ≤ n := by
  rw [resolveDeclared_eq ho hd]
  rcases l.fitting o with _ | ⟨k, _ | ⟨k', ks⟩⟩
  · refine iff_of_false ?_ fun ⟨_, _, hn, htwo⟩ => absurd (hn ▸ htwo) (by simp)
    cases l.originColumns? with
    | none => nofun
    | some columns =>
      dsimp only
      split <;> nofun
  · exact iff_of_false nofun fun ⟨_, _, hn, htwo⟩ => absurd (hn ▸ htwo) (by simp)
  · simp only [Except.error.injEq, CompileError.severalForeignKeys.injEq, List.length_cons]
    constructor
    · rintro ⟨rfl, rfl, rfl⟩
      exact ⟨rfl, rfl, rfl, by omega⟩
    · rintro ⟨rfl, rfl, rfl, -⟩
      exact ⟨rfl, rfl, rfl⟩

/-- **Only a second key that fits makes a link ambiguous.** -/
theorem resolve_eq_severalForeignKeys {a b : String} {n : Nat} :
    l.resolve c.schema = .error (.severalForeignKeys a b n) ↔
      a = l.origin ∧ b = l.destination ∧
        ¬ (l.originColumns?.isSome ∧ l.destinationColumns?.isSome) ∧
        ∃ o d, c.table l.origin = .ok o ∧ c.table l.destination = .ok d ∧
          n = (l.fitting o).length ∧ 2 ≤ n := by
  by_cases hboth : l.originColumns?.isSome ∧ l.destinationColumns?.isSome
  · refine iff_of_false (fun h => ?_) fun h => h.2.2.1 hboth
    obtain ⟨os, horigin⟩ := Option.isSome_iff_exists.1 hboth.1
    obtain ⟨ds, hdestination⟩ := Option.isSome_iff_exists.1 hboth.2
    simp only [resolve, horigin, hdestination] at h
    split at h <;> cases h
  · rw [resolve_eq_resolveDeclared hboth]
    constructor
    · intro h
      rcases tables_or_noSuchTable c l with ⟨o, d, ho, hd⟩ | ⟨name, hmissing⟩
      · obtain ⟨ha, hb, hn⟩ := (resolveDeclared_eq_severalForeignKeys ho hd).1 h
        exact ⟨ha, hb, hboth, o, d, ho, hd, hn⟩
      · cases hmissing.symm.trans h
    · rintro ⟨ha, hb, -, o, d, ho, hd, hn⟩
      exact (resolveDeclared_eq_severalForeignKeys ho hd).2 ⟨ha, hb, hn⟩

/-- **Links honour the columns that they are given, and nothing else about them.**

The pairs found have the columns given, on either side. Where the tables alone lead to some pairs,
the columns of these on one side lead to them too, and so do both together as pairs, in any order
and any ASCII case. A link fails for ambiguity just when it does not give both sides, its tables are
there and two or more of the keys of its origin fit it. -/
theorem resolve_honours_columns (c : Catalog) (l : KeyLink) :
    (∀ m, l.resolve c.schema = .ok m →
      (∀ os ∈ l.originColumns?, SameColumns (m.map (·.1)) os) ∧
        ∀ ds ∈ l.destinationColumns?, SameColumns (m.map (·.2)) ds) ∧
    (∀ m, l.bare.resolve c.schema = .ok m → m ≠ [] →
      (∀ os, SameColumns os (m.map (·.1)) →
        { l.bare with originColumns? := some os }.resolve c.schema = .ok m) ∧
      (∀ ds, SameColumns ds (m.map (·.2)) →
        { l.bare with destinationColumns? := some ds }.resolve c.schema = .ok m) ∧
      ∀ ps, SameColumnPairs ps m →
        { l.bare with
          originColumns? := some (ps.map Prod.fst)
          destinationColumns? := some (ps.map Prod.snd) }.resolve c.schema = .ok ps) ∧
    ∀ a b n, l.resolve c.schema = .error (.severalForeignKeys a b n) ↔
      a = l.origin ∧ b = l.destination ∧
        ¬ (l.originColumns?.isSome ∧ l.destinationColumns?.isSome) ∧
        ∃ o d, c.table l.origin = .ok o ∧ c.table l.destination = .ok d ∧
          n = (l.fitting o).length ∧ 2 ≤ n := by
  refine ⟨fun m h => sameColumns_of_resolve h, fun m h hm => ⟨fun os hos => ?_, fun ds hds => ?_,
    fun ps hps => ?_⟩, fun a b n => resolve_eq_severalForeignKeys⟩
  · refine resolve_of_bare h nofun (fun os' hos' => ?_) nofun
    exact Option.some.inj hos' ▸ hos
  · refine resolve_of_bare h nofun nofun fun ds' hds' => ?_
    exact Option.some.inj hds' ▸ hds
  · refine resolve_of_pairs (fun hnil => hm ?_) rfl rfl
    rw [← List.length_eq_zero_iff, ← hps.length_eq, hnil, List.length_nil]

/-- Players with a squad and one that they are lent to, and matches of a squad at home. -/
def squadCatalog : Catalog where
  tables :=
    [{ name := "Player"
       columns := ["id", "teamId", "season", "lentTo", "lentIn"]
       foreignKeys :=
         [⟨"squad", [("teamId", "team"), ("season", "year")]⟩,
          ⟨"squad", [("lentTo", "team"), ("lentIn", "year")]⟩] },
     { name := "Match"
       columns := ["id", "homeTeam", "season"]
       foreignKeys := [⟨"squad", [("homeTeam", "team"), ("season", "year")]⟩] },
     { name := "Squad"
       columns := ["team", "year"]
       declaredKey? := some (.regular ["team", "year"]) }]

theorem resolve_honours_columns_squad :
    (⟨"match", "squad", some ["Season", "homeTeam"], none⟩ : KeyLink).resolve squadCatalog.schema =
      .ok [("homeTeam", "team"), ("season", "year")] ∧
    (⟨"match", "squad", some ["Season", "homeTeam"], some ["Year", "team"]⟩ : KeyLink).resolve
      squadCatalog.schema = .ok [("Season", "Year"), ("homeTeam", "team")] ∧
    (⟨"player", "squad", none, some ["YEAR", "team"]⟩ : KeyLink).resolve squadCatalog.schema =
      .error (.severalForeignKeys "player" "squad" 2) := by
  obtain ⟨-, hmore, -⟩ := resolve_honours_columns squadCatalog ⟨"match", "squad", none, none⟩
  obtain ⟨horigin, -, hpairs⟩ := hmore [("homeTeam", "team"), ("season", "year")] rfl nofun
  obtain ⟨-, -, hseveral⟩ :=
    resolve_honours_columns squadCatalog ⟨"player", "squad", none, some ["YEAR", "team"]⟩
  refine ⟨horigin ["Season", "homeTeam"] (by decide),
    hpairs [("Season", "Year"), ("homeTeam", "team")] (by decide), (hseveral _ _ _).2 ?_⟩
  exact ⟨rfl, rfl, by decide, _, _, rfl, rfl, by decide, Nat.le_refl 2⟩

end KeyLink

end SqlTree
