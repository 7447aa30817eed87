import SqlTree.Proofs.Engine.Select
import SqlTree.Proofs.Statement.Rename

/-!
# Other names, the same result

Sources are found by their names, and names are compared without regard to ASCII case. Other names
for the sources of a statement that are equal, in this sense, just where the names were before lead
to the same rows: `Select.result_rename`.
-/

namespace SqlTree

/-- The source with another name. -/
def Header.rename (n : String → String) (h : Header) : Header := ⟨h.name?.map n, h.columns⟩

theorem SelectItem.hasAggregate_mapOwners {ρ σ : Type} (E : Engine) (g : Option ρ → Option σ)
    (i : SelectItem ρ) : (i.mapOwners g).hasAggregate E = i.hasAggregate E := by
  cases i with
  | star owner? => rfl
  | expr e name? => exact e.hasAggregate_mapOwners E g

variable {E : Engine} {n : String → String} {hs : List Header}

section

variable (hn : RespectsNames n)

include hn

/-! ## Columns -/

namespace Header

theorem isNamed_rename (h : Header) (owner : String) :
    (h.rename n).isNamed (n owner) = h.isNamed owner := by
  rw [isNamed, isNamed, rename]
  cases h.name? with
  | none => rfl
  | some name => exact hn name owner

theorem column_rename (rows : List Row) (name : String) (owner? : Option String) :
    column (hs.map (·.rename n)) rows name (owner?.map n) = column hs rows name owner? := by
  cases owner? with
  | none =>
    rw [Option.map_none, column, column, List.zip_map_left, List.findSome?_map]
    rfl
  | some owner =>
    have hnamed :
        ((fun p : Header × Row => p.1.isNamed (n owner)) ∘ Prod.map (Header.rename n) id) =
          fun p => p.1.isNamed owner := by
      funext p
      exact isNamed_rename hn p.1 owner
    rw [Option.map_some, column, column, List.zip_map_left, List.find?_map, hnamed]
    cases (hs.zip rows).find? (·.1.isNamed owner) <;> rfl

end Header

theorem Engine.rowEnv_rename (rows : List Row) :
    (E.rowEnv (hs.map (·.rename n)) rows).pull (Option.map n) = E.rowEnv hs rows := by
  have hcolumn : (fun name o => Header.column (hs.map (·.rename n)) rows name (o.map n)) =
      Header.column hs rows := by
    funext name o
    exact Header.column_rename hn rows name o
  rw [Env.pull, rowEnv, rowEnv, hcolumn]

/-- The value of a renamed expression in a renamed row. -/
theorem Engine.eval_rowEnv_rename (e : Expr String) (rows : List Row) :
    (e.mapOwners (Option.map n)).eval E [] (E.rowEnv (hs.map (·.rename n)) rows) =
      e.eval E [] (E.rowEnv hs rows) := by
  rw [Expr.eval_mapOwners, rowEnv_rename hn, List.map_nil]

theorem Sample.value_rename (s : Sample) (e : Expr String) :
    s.value E (hs.map (·.rename n)) (e.mapOwners (Option.map n)) = s.value E hs e := by
  have hmembers : (s.members E (hs.map (·.rename n))).map (·.pull (Option.map n)) =
      s.members E hs := by
    rw [members, members, List.map_map]
    exact List.map_congr_left fun rows _ => Engine.rowEnv_rename hn rows
  have henv : (s.env E (hs.map (·.rename n))).pull (Option.map n) = s.env E hs :=
    congrArg (Env.mk · _) (congrArg Env.column (Engine.rowEnv_rename (E := E) hn s.rows))
  rw [value, value, Expr.eval_mapOwners, hmembers, henv]

theorem SelectItem.values_rename (s : Sample) (i : SelectItem String) :
    (i.mapOwners (Option.map n)).values E (hs.map (·.rename n)) s = i.values E hs s := by
  cases i with
  | star owner? =>
    cases owner? with
    | none =>
      rw [mapOwners, Option.map_none, values, values, List.zip_map_left, List.flatMap_map]
      rfl
    | some owner =>
      have hnamed : ((fun p : Header × Row => p.1.isNamed (n owner)) ∘
          Prod.map (Header.rename n) id) = fun p => p.1.isNamed owner := by
        funext p
        exact Header.isNamed_rename hn p.1 owner
      rw [mapOwners, Option.map_some, values, values, List.zip_map_left, List.filter_map, hnamed,
        List.flatMap_map]
      rfl
  | expr e name? => rw [mapOwners, values, values, s.value_rename hn]

theorem SelectItem.columns_rename (i : SelectItem String) :
    (i.mapOwners (Option.map n)).columns (hs.map (·.rename n)) = i.columns hs := by
  cases i with
  | star owner? =>
    cases owner? with
    | none =>
      rw [mapOwners, Option.map_none, columns, columns, List.flatMap_map]
      rfl
    | some owner =>
      have hnamed : (Header.isNamed · (n owner)) ∘ Header.rename n = (·.isNamed owner) := by
        funext h
        exact Header.isNamed_rename hn h owner
      rw [mapOwners, Option.map_some, columns, columns, List.filter_map, hnamed, List.flatMap_map]
      rfl
  | expr e name? =>
    cases name? with
    | some name => rfl
    | none =>
      cases e with
      | member e list negated => cases list <;> rfl
      | _ => rfl

/-! ## Rows -/

theorem Engine.keeps_rename (e? : Option (Expr String)) (rows : List Row) :
    E.keeps (hs.map (·.rename n)) (e?.map (·.mapOwners (Option.map n))) rows =
      E.keeps hs e? rows := by
  cases e? with
  | none => rfl
  | some e =>
    rw [keeps, keeps, Option.map_some, Option.all_some, Option.all_some, eval_rowEnv_rename hn]

theorem JoinItem.extend_rename (j : JoinItem) (r : Relation) (rows : List Row) :
    (j.rename n).extend E (hs.map (·.rename n)) r rows = j.extend E hs r rows := by
  obtain ⟨kind, item, on⟩ := j
  have hkeeps : E.keeps (hs.map (·.rename n)) (some (on.mapOwners (Option.map n))) =
      E.keeps hs (some on) :=
    funext (Engine.keeps_rename hn (some on))
  rw [rename, extend, extend]
  simp only [hkeeps]

theorem Engine.joined_rename (joins : List JoinItem) : ∀ (rs : List Relation)
    (found : List (List Row)), E.joined (hs.map (·.rename n)) ((renameJoins n joins).zip rs) found =
      E.joined hs (joins.zip rs) found := by
  induction joins with
  | nil =>
    intro rs found
    rfl
  | cons j joins ih =>
    intro rs found
    cases rs with
    | nil => rfl
    | cons r rs =>
      rw [renameJoins, List.zip_cons_cons, List.zip_cons_cons, joined, joined,
        funext (j.extend_rename hn r), ih]

end

/-! ## Results -/

namespace Select

variable (t : Select) (rs : List Relation)

theorem fromItems_rename : (t.rename n).fromItems = t.fromItems.map (·.rename n) := by
  obtain ⟨_, _, source, joins, _, _, _, _, _⟩ := t
  have hitems : (renameJoins n joins).map (·.item) = (joins.map (·.item)).map (·.rename n) := by
    induction joins with
    | nil => rfl
    | cons j joins ih =>
      cases j
      rw [renameJoins, List.map_cons, ih, List.map_cons, List.map_cons]
      rfl
  rw [rename, fromItems, fromItems, hitems, List.map_cons]

theorem isAggregate_rename : (t.rename n).isAggregate E = t.isAggregate E := by
  cases t
  simp only [rename, isAggregate, List.isEmpty_map, Option.isSome_map, List.any_map,
    Function.comp_def, SelectItem.hasAggregate_mapOwners]

theorem headers_rename : (t.rename n).headers rs = (t.headers rs).map (·.rename n) := by
  rw [headers, headers, fromItems_rename, List.zip_map_left, List.map_map, List.map_map]
  refine List.map_congr_left fun p _ => ?_
  simp only [Function.comp_apply, Prod.map_fst, Prod.map_snd, id_eq, FromItem.name?_rename,
    Header.rename]

section

variable (hn : RespectsNames n)

include hn

theorem found_rename : (t.rename n).found E rs = t.found E rs := by
  cases rs with
  | nil => rfl
  | cons r rest =>
    rw [found, found, headers_rename]
    cases t
    simp only [rename, Engine.joined_rename hn, funext (Engine.keeps_rename hn _)]

theorem groupKey_rename (rows : List Row) :
    (t.rename n).groupKey E rs rows = t.groupKey E rs rows := by
  rw [groupKey, groupKey, headers_rename]
  cases t
  simp only [rename, List.map_map, Function.comp_def, Engine.eval_rowEnv_rename hn]

theorem samples_rename : (t.rename n).samples E rs = t.samples E rs := by
  have hgroup : (t.rename n).group.isEmpty = t.group.isEmpty := by
    cases t
    simp only [rename, List.isEmpty_map]
  have hgroups : (t.rename n).groups E rs = t.groups E rs := by
    rw [groups, groups, hgroup, found_rename t rs hn, funext (groupKey_rename t rs hn)]
  have hkeeps : (t.rename n).keepsGroup E rs = t.keepsGroup E rs := by
    funext s
    rw [keepsGroup, keepsGroup, headers_rename]
    cases t
    simp only [rename, Option.all_map, Sample.value_rename hn]
  rw [samples, samples, isAggregate_rename, hgroups, hkeeps, found_rename t rs hn]

theorem rowValues_rename (s : Sample) :
    (t.rename n).rowValues E rs s = t.rowValues E rs s := by
  rw [rowValues, rowValues, headers_rename]
  cases t
  simp only [rename, List.flatMap_map, SelectItem.values_rename hn]

theorem sortKeys_rename (s : Sample) : (t.rename n).sortKeys E rs s = t.sortKeys E rs s := by
  rw [sortKeys, sortKeys, headers_rename]
  cases t
  simp only [rename, List.map_map, Function.comp_def, SortTerm.mapOwners, Sample.value_rename hn]

/-- Other names lead to the same rows, whatever the sources hold. -/
theorem resultFrom_rename : (t.rename n).resultFrom E rs = t.resultFrom E rs := by
  have hcolumns : (t.rename n).items.flatMap (·.columns ((t.rename n).headers rs)) =
      t.items.flatMap (·.columns (t.headers rs)) := by
    rw [headers_rename]
    cases t
    simp only [rename, List.flatMap_map, SelectItem.columns_rename hn]
  have hkept : (t.rename n).kept E rs = t.kept E rs := by
    have hdistinct : (t.rename n).distinct = t.distinct := by
      cases t
      rfl
    rw [kept, kept, hdistinct, samples_rename t rs hn, funext (rowValues_rename t rs hn)]
  have hlimit : (t.rename n).limit? = t.limit? := by
    cases t
    rfl
  rw [resultFrom, resultFrom, hcolumns, hkept, hlimit, funext (rowValues_rename t rs hn),
    funext (sortKeys_rename t rs hn)]

end

end Select

section

variable (db : String → Relation)

mutual

/-- **Other names lead to the same result**, when they are equal just where the names were. -/
theorem Select.result_rename (hn : RespectsNames n) :
    ∀ t : Select, (t.rename n).result E db = t.result E db
  | ⟨distinct, items, source, joins, filter?, group, having?, order, limit?⟩ => by
    have hfrom := Select.resultFrom_rename (E := E)
      ⟨distinct, items, source, joins, filter?, group, having?, order, limit?⟩
      (source.relation E db :: joinsRelations E db joins) hn
    rw [Select.rename, Select.result, FromItem.relation_rename hn source,
      joinsRelations_rename hn joins, Select.result, ← hfrom]
    rfl

theorem FromItem.relation_rename (hn : RespectsNames n) : ∀ item : FromItem,
    (item.rename n).relation E db = item.relation E db
  | .table name name? => rfl
  | .select s name? => by
    rw [FromItem.rename, FromItem.relation, FromItem.relation, Select.result_rename hn s]

theorem joinsRelations_rename (hn : RespectsNames n) : ∀ joins : List JoinItem,
    joinsRelations E db (renameJoins n joins) = joinsRelations E db joins
  | [] => rfl
  | j :: rest => by
    rw [renameJoins, joinsRelations, joinsRelations, JoinItem.relation_rename hn j,
      joinsRelations_rename hn rest]

theorem JoinItem.relation_rename (hn : RespectsNames n) : ∀ j : JoinItem,
    (j.rename n).relation E db = j.relation E db
  | ⟨kind, item, on⟩ => by
    rw [JoinItem.rename, JoinItem.relation, JoinItem.relation, FromItem.relation_rename hn item]

end

end

end SqlTree
