import SqlTree.Proofs.Query.Relabel
import SqlTree.Proofs.Statement.Level

/-!
# Statements under other names

The same request, known by other identities and with other names for its occurrences, is written as
the same statement under other names. `Select.rename` gives the sources of a statement other names
and writes these in front of columns; names of columns and tables stay.

* `Context.Renames` says that occurrences in one context are those in another, under other
  identities and names.
* `Query.toSelect_relabel`: the statement of the one is the statement of the other, renamed.
-/

namespace SqlTree

/-! ## Renaming a statement -/

mutual

/-- The selection with other names for its sources. -/
def Select.rename (n : String → String) : Select → Select
  | ⟨distinct, items, source, joins, filter?, group, having?, order, limit?⟩ =>
    ⟨distinct, items.map (·.mapOwners (Option.map n)), source.rename n, renameJoins n joins,
      filter?.map (·.mapOwners (Option.map n)), group.map (·.mapOwners (Option.map n)),
      having?.map (·.mapOwners (Option.map n)), order.map (·.mapOwners (Option.map n)), limit?⟩

/-- The source with another name for it. A table that would be given its own name is given none. -/
def FromItem.rename (n : String → String) : FromItem → FromItem
  | .table name name? =>
    .table name (if n (name?.getD name) = name then none else some (n (name?.getD name)))
  | .select s name? => .select (s.rename n) (name?.map n)

/-- The joins with other names for their sources. -/
def renameJoins (n : String → String) : List JoinItem → List JoinItem
  | [] => []
  | j :: rest => j.rename n :: renameJoins n rest

/-- The join with another name for its source. -/
def JoinItem.rename (n : String → String) : JoinItem → JoinItem
  | ⟨kind, item, on⟩ => ⟨kind, item.rename n, on.mapOwners (Option.map n)⟩

end

theorem renameJoins_append (n : String → String) (js js' : List JoinItem) :
    renameJoins n (js ++ js') = renameJoins n js ++ renameJoins n js' := by
  induction js with
  | nil => rfl
  | cons j js ih => rw [List.cons_append, renameJoins, renameJoins, ih, List.cons_append]

theorem FromItem.name?_rename (n : String → String) (item : FromItem) :
    (item.rename n).name? = item.name?.map n := by
  cases item with
  | table name given? =>
    have hname : (table name given?).name? = some (given?.getD name) := by
      cases given? <;> rfl
    rw [hname, rename, Option.map_some]
    split
    · rename_i heq
      exact congrArg some heq.symm
    · rfl
  | select s name? => rfl

/-- New names are equal up to ASCII case just where the names were. -/
def RespectsNames (n : String → String) : Prop :=
  ∀ x y, Text.sameName (n x) (n y) = Text.sameName x y

/-! ## Lists of occurrences -/

theorem eraseDups_map {α β : Type} [BEq α] [LawfulBEq α] [BEq β] [LawfulBEq β] {m : α → β}
    (hm : Function.Injective m) : ∀ as : List α, (as.map m).eraseDups = as.eraseDups.map m
  | [] => rfl
  | a :: as => by
    have hsame : ((fun b => !b == m a) ∘ m) = fun b => !b == a := by
      funext b
      by_cases hb : b = a
      · simp [hb]
      · have hne : m b ≠ m a := fun h => hb (hm h)
        simp [hb, hne]
    rw [List.map_cons, List.eraseDups_cons, List.filter_map, hsame, eraseDups_map hm,
      List.eraseDups_cons, List.map_cons]
termination_by as => as.length
decreasing_by exact Nat.lt_succ_of_le (List.length_filter_le _ _)

theorem nodup_eraseDups {α : Type} [BEq α] [LawfulBEq α] : ∀ as : List α, as.eraseDups.Nodup
  | [] => .nil
  | a :: as => by
    rw [List.eraseDups_cons]
    refine List.nodup_cons.2 ⟨fun h => ?_, nodup_eraseDups _⟩
    simp at h
termination_by as => as.length
decreasing_by exact Nat.lt_succ_of_le (List.length_filter_le _ _)

/-! ## Contexts and levels -/

/-- The occurrences of the context `c` are occurrences of `c'`, under the identities that `m` gives
and the names that `n` gives. -/
structure Context.Renames (m : Alias → Alias) (n : String → String) (c c' : Context) : Prop where
  schema : c'.schema = c.schema
  injective : Function.Injective m
  root : ∀ a, c'.forest.root (m a) = m (c.forest.root a)
  userName : ∀ a, c'.forest.userName? (m a) = c.forest.userName? a
  name : ∀ a x, c.name a = .ok x → c'.name (m a) = .ok (n x)

/-- The level `s'` is `s`, in a context with other identities and names. -/
structure Scope.Renames (m : Alias → Alias) (n : String → String) (s s' : Scope) : Prop where
  context : s.context.Renames m n s'.context
  showsNames : s'.showsNames = s.showsNames

variable {m : Alias → Alias} {n : String → String} {c c' : Context} {s s' : Scope}

theorem Context.Renames.scope (hc : c.Renames m n c') (aliases : List Alias) :
    (Scope.ofAliases c aliases).Renames m n (Scope.ofAliases c' (aliases.map m)) := by
  refine ⟨hc, ?_⟩
  have hroots : (aliases.map m).map c'.forest.root = (aliases.map c.forest.root).map m := by
    rw [List.map_map, List.map_map]
    exact List.map_congr_left fun a _ => hc.root a
  rw [Scope.ofAliases, Scope.ofAliases, hroots, eraseDups_map hc.injective, List.length_map]

namespace Scope.Renames

theorem owner? (hs : s.Renames m n s') (o : Option Alias) (x : Option String)
    (h : s.owner? o = .ok x) : s'.owner? (o.map m) = .ok (x.map n) := by
  cases o with
  | none =>
    rw [Scope.owner?, pure_eq_ok] at h
    rw [← h]
    rfl
  | some a =>
    simp only [Scope.owner?, bind_eq_ok, pure_eq_ok] at h
    obtain ⟨name, hname, rfl⟩ := h
    rw [Option.map_some, Scope.owner?, hs.context.name a name hname, hs.showsNames]
    cases s.showsNames <;> rfl

theorem expr (hs : s.Renames m n s') {e : Expr Alias} {e' : Expr String}
    (h : s.expr e = .ok e') : s'.expr (e.relabel m) = .ok (e'.mapOwners (Option.map n)) :=
  e.withOwners_relabel hs.owner? h

theorem filter (hs : s.Renames m n s') {l : Lookup (Expr Alias)} {e' : Expr String}
    (h : s.filter l = .ok e') :
    s'.filter (l.map (·.relabel m)) = .ok (e'.mapOwners (Option.map n)) := by
  simp only [Scope.filter, bind_eq_ok] at h
  obtain ⟨e, he, h⟩ := h
  rw [Scope.filter, hs.context.schema, Lookup.resolve_map, he]
  exact hs.expr h

theorem group (hs : s.Renames m n s') {group? : Option (Lookup (List (Expr Alias)))}
    {es' : List (Expr String)} (h : s.group group? = .ok es') :
    s'.group (group?.map (·.map (·.map (·.relabel m)))) =
      .ok (es'.map (·.mapOwners (Option.map n))) := by
  cases group? with
  | none =>
    rw [Scope.group, pure_eq_ok] at h
    rw [← h]
    rfl
  | some l =>
    simp only [Scope.group, bind_eq_ok] at h
    obtain ⟨es, hes, h⟩ := h
    rw [Option.map_some, Scope.group, hs.context.schema, Lookup.resolve_map, hes]
    exact mapM_map_eq_ok (fun _ _ => hs.expr) h

theorem order (hs : s.Renames m n s') {o : SortOrder} {ts : List (SortTerm String)}
    (h : s.order o = .ok ts) :
    s'.order (o.relabel m) = .ok (ts.map (·.mapOwners (Option.map n))) := by
  rw [Scope.order] at h ⊢
  rw [SortOrder.terms_relabel]
  exact mapM_map_eq_ok (fun _ _ => SortTerm.withOwners_relabel hs.owner?) h

end Scope.Renames

theorem JoinLink.comparison_relabel {ρ σ : Type} (m : ρ → σ) (link : JoinLink) (left right : ρ)
    (p : String × String) :
    (link.comparison left right p).relabel m = link.comparison (m left) (m right) p := by
  rw [comparison, comparison]
  split <;> rfl

theorem JoinLink.condition_relabel {db : Schema} {link : JoinLink} {left right : Alias}
    {e : Expr Alias} (h : link.condition db left right = .ok e) (m : Alias → Alias) :
    link.condition db (m left) (m right) = .ok (e.relabel m) := by
  simp only [condition, bind_eq_ok] at h
  obtain ⟨pairs, hpairs, h⟩ := h
  rw [condition, hpairs]
  cases pairs with
  | nil => simp at h
  | cons p pairs =>
    simp only [List.map_cons, pure_eq_ok] at h
    have hrest : (pairs.map (link.comparison left right)).map (·.relabel m) =
        pairs.map (link.comparison (m left) (m right)) := by
      rw [List.map_map]
      exact List.map_congr_left fun p _ => link.comparison_relabel m left right p
    rw [← h, Expr.foldl_and_relabel, hrest, comparison_relabel]
    rfl

namespace Scope.Renames

theorem on (hs : s.Renames m n s') {link : JoinLink} {left right : Alias}
    {filter? : Option (Lookup (Expr Alias))} {on : Expr String}
    (h : s.on link left right filter? = .ok on) :
    s'.on link (m left) (m right) (filter?.map (·.map (·.relabel m))) =
      .ok (on.mapOwners (Option.map n)) := by
  simp only [Scope.on, bind_eq_ok] at h
  obtain ⟨condition, hcondition, h⟩ := h
  rw [Scope.on, hs.context.schema, JoinLink.condition_relabel hcondition m]
  cases filter? with
  | none => exact hs.expr h
  | some l =>
    simp only [bind_eq_ok] at h
    obtain ⟨e, he, h⟩ := h
    simp only [ok_bind, Option.map_some, Lookup.resolve_map, he]
    change s'.expr (_ : Expr Alias) = _
    rw [← Expr.and_relabel]
    exact hs.expr h

theorem tableName? (hs : s.Renames m n s') {name : String} {a : Alias} {name? : Option String}
    (h : s.tableName? name (some a) = .ok name?) :
    s'.tableName? name (some (m a)) =
      .ok (if n (name?.getD name) = name then none else some (n (name?.getD name))) := by
  simp only [Scope.tableName?, bind_eq_ok, pure_eq_ok] at h
  obtain ⟨given, hgiven, rfl⟩ := h
  have hname : (if given = name then none else some given : Option String).getD name = given := by
    split
    · rename_i heq
      exact heq.symm
    · rfl
  rw [hname, Scope.tableName?, hs.context.name a given hgiven]
  rfl

theorem nestedName? (hs : s.Renames m n s') {alias? : Option Alias} {name? : Option String}
    (h : s.nestedName? alias? = .ok name?) :
    s'.nestedName? (alias?.map m) = .ok (name?.map n) := by
  cases alias? with
  | none =>
    rw [Scope.nestedName?, pure_eq_ok] at h
    rw [← h]
    rfl
  | some a =>
    simp only [Scope.nestedName?] at h
    rw [Option.map_some, Scope.nestedName?, hs.context.userName, hs.showsNames]
    split at h
    · rename_i hnamed
      simp only [bind_eq_ok, pure_eq_ok] at h
      obtain ⟨given, hgiven, rfl⟩ := h
      rw [if_pos hnamed, hs.context.name a given hgiven]
      rfl
    · rename_i hunnamed
      rw [pure_eq_ok] at h
      rw [if_neg hunnamed, ← h]
      rfl

end Scope.Renames

/-! ## Statements -/

theorem Clauses.unjoinable?_relabel (m : Alias → Alias) (c : Clauses) :
    (c.relabel m).unjoinable? = c.unjoinable? := by
  rw [unjoinable?, unjoinable?, relabel]
  simp only [Option.isSome_map]

theorem Source.occurrence_relabel {source : Source} {a : Alias} (h : source.occurrence = .ok a)
    (m : Alias → Alias) : (source.relabel m).occurrence = .ok (m a) := by
  rw [occurrence_eq_ok] at h ⊢
  rw [Source.alias?_relabel, h, Option.map_some]

mutual

/-- **A request known by other identities is the same statement under other names.** -/
theorem Query.toSelect_relabel (hc : c.Renames m n c') : ∀ (q : Query) {t : Select},
    q.toSelect c = .ok t → (q.relabel m).toSelect c' = .ok (t.rename n)
  | ⟨source, clauses, joins, isQualified⟩, t, h => by
    have hs := hc.scope (source.alias?.toList ++ joinsLevelAliases joins)
    rw [List.map_append, ← Option.toList_map, ← Source.alias?_relabel,
      ← joinsLevelAliases_relabel] at hs
    rw [Query.toSelect] at h
    simp only [bind_eq_ok] at h
    obtain ⟨items, hitems, h⟩ := h
    split at h
    · simp at h
    · rename_i hsome
      simp only [bind_eq_ok, pure_eq_ok] at h
      obtain ⟨item, hsource, left, hleft, joined, hjoined, filter?, hfilter, group, hgroup, having?,
        hhaving, order, horder, rfl⟩ := h
      have hitems' := mapM_map_eq_ok (fun _ _ => SelectItem.withOwners_relabel hs.owner?) hitems
      rw [List.map_append, ← joinsItems_relabel] at hitems'
      have hfilter' := optionMapM_map_eq_ok (fun _ _ => hs.filter) hfilter
      have hhaving' := optionMapM_map_eq_ok (fun _ _ => hs.expr) hhaving
      have horder' := hs.order horder
      rw [← pushOrders_relabel] at horder'
      have hsource' := Source.toFromItem_relabel hc hs source hleft hsource
      have hjoined' := joinsToItems_relabel hc hs joins hjoined
      have hsome' : ¬ (items.map (·.mapOwners (Option.map n))).isEmpty := by
        rwa [List.isEmpty_map]
      rw [Query.relabel, Query.toSelect]
      simp only [Clauses.relabel, hitems', ok_bind, if_neg hsome', hsource',
        Source.occurrence_relabel hleft m, hjoined', hfilter', hs.group hgroup, hhaving', horder']
      rfl

theorem Source.toFromItem_relabel (hc : c.Renames m n c') {s s' : Scope}
    (hs : s.Renames m n s') : ∀ (source : Source) {a : Alias} {item : FromItem},
      source.occurrence = .ok a → source.toFromItem c s = .ok item →
        (source.relabel m).toFromItem c' s' = .ok (item.rename n)
  | .table name none, a, item, ha, _ => by
    rw [Source.occurrence_eq_ok] at ha
    cases ha
  | .table name (some own), a, item, _, h => by
    simp only [Source.toFromItem, bind_eq_ok, pure_eq_ok] at h
    obtain ⟨name?, hname, rfl⟩ := h
    rw [Source.relabel, Option.map_some, Source.toFromItem, hs.tableName? hname]
    rfl
  | .nested query alias?, a, item, _, h => by
    simp only [Source.toFromItem, bind_eq_ok, pure_eq_ok] at h
    obtain ⟨selection, hselection, name?, hname, rfl⟩ := h
    rw [Source.relabel, Source.toFromItem, Query.toSelect_relabel hc query hselection,
      hs.nestedName? hname]
    rfl

theorem Join.toItems_relabel (hc : c.Renames m n c') {s s' : Scope}
    (hs : s.Renames m n s') : ∀ (j : Join) {left : Alias} {mayRequire : Bool}
      {items : List JoinItem},
      j.toItems c s left mayRequire = .ok items →
        (j.relabel m).toItems c' s' (m left) mayRequire = .ok (renameJoins n items)
  | ⟨key, kind, link, mergedLinks, ⟨source, clauses, joins, isQualified⟩⟩, left, mayRequire, items,
      h => by
    rw [Join.toItems] at h
    rw [Join.relabel, Query.relabel, Join.toItems]
    split at h
    · simp at h
    · rename_i hjoinable
      rw [Clauses.unjoinable?_relabel]
      simp only [bind_eq_ok] at h
      obtain ⟨_, hagrees, h⟩ := h
      split at h
      · simp at h
      · rename_i hrequire
        simp only [bind_eq_ok, pure_eq_ok] at h
        obtain ⟨item, hsource, right, hright, on, hon, rest, hrest, rfl⟩ := h
        have hsource' := Source.toFromItem_relabel hc hs source hright hsource
        have hrest' := joinsToItems_relabel hc hs joins hrest
        simp only [hc.schema, hagrees, ok_bind, if_neg hrequire, hsource',
          Source.occurrence_relabel hright m, Clauses.relabel, hs.on hon, hrest']
        rfl

theorem joinsToItems_relabel (hc : c.Renames m n c') {s s' : Scope}
    (hs : s.Renames m n s') : ∀ (joins : List Join) {left : Alias} {mayRequire : Bool}
      {items : List JoinItem},
      joinsToItems c s left mayRequire joins = .ok items →
        joinsToItems c' s' (m left) mayRequire (relabelJoins m joins) =
          .ok (renameJoins n items)
  | [], left, mayRequire, items, h => by
    rw [joinsToItems, pure_eq_ok] at h
    rw [← h]
    rfl
  | j :: rest, left, mayRequire, items, h => by
    simp only [joinsToItems, bind_eq_ok, pure_eq_ok] at h
    obtain ⟨first, hfirst, behind, hbehind, rfl⟩ := h
    rw [relabelJoins, joinsToItems, Join.toItems_relabel hc hs j hfirst,
      joinsToItems_relabel hc hs rest hbehind, renameJoins_append]
    rfl

end

end SqlTree
