import SqlTree.Proofs.Engine.Alike
import SqlTree.Proofs.Region.Sound
import SqlTree.Proofs.Schema.KeyLink
import SqlTree.Proofs.Statement.Count
import SqlTree.Query.Key

/-!
# Conditions on unique keys

The condition that the columns of a unique key have given values is made only for the columns of a
whole key, and then it is true for at most one row of a table whose rows differ in their keys.

* `Table.IsKey` says which columns are those of a key, `Table.Holds` when rows satisfy the keys of
  their table.
* `Engine.EqualAlike` is what is asked of the comparison of values: two that are equal to a third
  one are equal. So two rows with the values given would be equal in their keys.
* `Source.uniqueKeyFilter_finds_one`: when the condition is made, when it is true, and that order
  and ASCII case of the columns make no difference to either.
* `Query.filterByUniqueKey_keeps_one` says so of a request with that condition among others.
-/

namespace SqlTree

/-! ## Equal values -/

theorem Value.isNull_iff {v : Value} : v.isNull = true ↔ v = .null := by
  cases v <;> simp [isNull]

namespace Engine

variable (E : Engine)

/-- Two values are equal to the engine. Nothing is equal to `NULL`. -/
def Equal (v w : Value) : Prop := E.truth (E.apply .eq v w) = some true

instance (v w : Value) : Decidable (E.Equal v w) := inferInstanceAs (Decidable (_ = _))

/-- Values that are equal to one value are equal to each other. -/
def EqualAlike : Prop := ∀ u v w, E.Equal u w → E.Equal v w → E.Equal u v

theorem not_equal_null (v : Value) : ¬ E.Equal v .null := by
  rw [Equal, (E.eq_null v).1, E.truth_null]
  nofun

end Engine

namespace Expr

variable {ρ : Type}

/-- A condition is as true as the conjunction of its terms. -/
theorem truth_eval_conjuncts (E : Engine) (e : Expr ρ) (members : List (Env ρ)) (env : Env ρ) :
    E.truth (e.eval E members env) =
      Truth.all (e.conjuncts.map fun term => E.truth (term.eval E members env)) := by
  -- All but a conjunction are their only term.
  have hsingle : ∀ t : Truth, t = Truth.all [t] := by rintro (_ | _ | _) <;> rfl
  cases e with
  | conj terms =>
    rw [eval, E.truth_all, evalList_eq_map, List.map_map, conjuncts]
    rfl
  | _ => exact hsingle _

theorem truth_eval_and (E : Engine) (a b : Expr ρ) (members : List (Env ρ)) (env : Env ρ) :
    E.truth ((a.and b).eval E members env) = some true ↔
      E.truth (a.eval E members env) = some true ∧ E.truth (b.eval E members env) = some true := by
  simp only [truth_eval_conjuncts E (a.and b), truth_eval_conjuncts E a, truth_eval_conjuncts E b,
    conjuncts_and, List.map_append, Truth.all_eq_true, List.forall_mem_append]

theorem conjuncts_allEqual {key : List (String × Value)} (hkey : key ≠ []) :
    (allEqual key).conjuncts = key.map fun p => .binary .eq (.col p.1) (.value p.2) := by
  cases key with
  | nil => exact absurd rfl hkey
  | cons p rest =>
    rw [allEqual, ← List.foldl_map, conjuncts_foldl_and, List.flatMap_map, List.map_cons,
      List.map_eq_flatMap]
    rfl

end Expr

/-! ## Keys of a table -/

/-- A column paired with a value, the column without regard to ASCII case. -/
def lowerColumn (p : String × Value) : String × Value := (Text.asciiLower p.1, p.2)

/-- Two lists pair the same columns with the same values, up to ASCII case and order. -/
def SameColumnValues (key key' : List (String × Value)) : Prop :=
  (key.map lowerColumn).Perm (key'.map lowerColumn)

instance (key key' : List (String × Value)) : Decidable (SameColumnValues key key') :=
  inferInstanceAs (Decidable (List.Perm _ _))

namespace SameColumnValues

variable {key key' : List (String × Value)}

theorem symm (h : SameColumnValues key key') : SameColumnValues key' key := List.Perm.symm h

theorem columns (h : SameColumnValues key key') :
    SameColumns (key.map (·.1)) (key'.map (·.1)) := by
  have hcolumns := List.Perm.map Prod.fst h
  rw [List.map_map, List.map_map] at hcolumns
  rw [SameColumns, List.map_map, List.map_map]
  exact hcolumns

theorem values (h : SameColumnValues key key') : (key.map (·.2)).Perm (key'.map (·.2)) := by
  have hvalues := List.Perm.map Prod.snd h
  rw [List.map_map, List.map_map] at hvalues
  exact hvalues

theorem ne_nil (h : SameColumnValues key' key) (hkey : key ≠ []) : key' ≠ [] := by
  rintro rfl
  exact hkey (List.map_eq_nil_iff.1 (List.nil_perm.1 h))

end SameColumnValues

namespace Table

variable {E : Engine} {t : Table} {columns : List String} {rows : List (Env Alias)}

/-- Columns are those of the primary key, which is the row id when none is declared, or those of a
unique key. -/
def IsKey (t : Table) (columns : List String) : Prop :=
  SameColumns columns t.primaryKey.columns ∨ ∃ key ∈ t.uniqueKeys, SameColumns columns key

instance (t : Table) (columns : List String) : Decidable (t.IsKey columns) :=
  inferInstanceAs (Decidable (_ ∨ _))

theorem isKey_iff : t.IsKey columns ↔ ∃ key ∈ t.keys, SameColumns columns key := by
  simp [IsKey, keys]

theorem IsKey.of_sameColumns {columns' : List String} (h : t.IsKey columns)
    (hsame : SameColumns columns' columns) : t.IsKey columns' := by
  rw [isKey_iff] at h ⊢
  obtain ⟨key, hkey, hcolumns⟩ := h
  exact ⟨key, hkey, hsame.trans hcolumns⟩

/-- Rows that a table may hold: of no two of them all columns of one key are equal. What conditions
read of a row does not depend on the ASCII case of the columns. -/
structure Holds (E : Engine) (t : Table) (rows : List (Env Alias)) : Prop where
  constants : ∀ row ∈ rows, row.ReadsConstants
  caseless : ∀ row ∈ rows, ∀ name name', Text.asciiLower name = Text.asciiLower name' →
    row.column name none = row.column name' none
  keys : ∀ key ∈ t.keys, rows.Pairwise fun row row' =>
    ¬ ∀ column ∈ key, E.Equal (row.column column none) (row'.column column none)

end Table

/-- What the condition on a key does among the rows of a table: it is true of those that have the
values of the key in its columns, and so of none when `NULL` is among the values, and of one at
most. -/
structure Expr.FindsOne (E : Engine) (rows : List (Env Alias)) (key : List (String × Value))
    (e : Expr Alias) : Prop where
  equal : ∀ row ∈ rows, E.truth (e.eval E [] row) = some true ↔
    ∀ p ∈ key, E.Equal (row.column p.1 none) p.2
  null : .null ∈ key.map (·.2) → ∀ row ∈ rows, E.truth (e.eval E [] row) ≠ some true
  one : E.EqualAlike → (rows.filter fun row => E.truth (e.eval E [] row) = some true).length ≤ 1

/-! ## Rows told apart -/

/-- Of rows that are pairwise told apart, at most one is among those that are not. -/
theorem length_filter_le_one_of_pairwise {α : Type} {R : α → α → Prop} {p : α → Bool} {as : List α}
    (has : as.Pairwise R) (hp : ∀ a ∈ as, ∀ b ∈ as, p a = true → p b = true → ¬ R a b) :
    (as.filter p).length ≤ 1 := by
  have hpairs := has.filter p
  have hmem : ∀ a ∈ as.filter p, a ∈ as ∧ p a = true := fun a ha => List.mem_filter.1 ha
  match as.filter p, hpairs, hmem with
  | [], _, _ => exact Nat.zero_le 1
  | [_], _, _ => exact Nat.le_refl 1
  | a :: b :: _, hpairs, hmem =>
    obtain ⟨ha, hpa⟩ := hmem a List.mem_cons_self
    obtain ⟨hb, hpb⟩ := hmem b (List.mem_cons_of_mem a List.mem_cons_self)
    exact absurd (List.rel_of_pairwise_cons hpairs List.mem_cons_self) (hp a ha b hb hpa hpb)

namespace Table.Holds

variable {E : Engine} {t : Table} {rows : List (Env Alias)} {key : List (String × Value)}

/-- Two rows that have the same values in the columns of a key are equal in it. -/
theorem equal_on_key (h : t.Holds E rows) (hE : E.EqualAlike) {columns : List String}
    (hcolumns : SameColumns (key.map (·.1)) columns) {row row' : Env Alias} (hrow : row ∈ rows)
    (hrow' : row' ∈ rows) (hall : ∀ p ∈ key, E.Equal (row.column p.1 none) p.2)
    (hall' : ∀ p ∈ key, E.Equal (row'.column p.1 none) p.2) :
    ∀ column ∈ columns, E.Equal (row.column column none) (row'.column column none) := by
  intro column hcolumn
  have hlower : Text.asciiLower column ∈ (key.map (·.1)).map Text.asciiLower :=
    (List.Perm.mem_iff hcolumns).2 (List.mem_map_of_mem hcolumn)
  obtain ⟨_, hlisted, hname⟩ := List.mem_map.1 hlower
  obtain ⟨p, hp, rfl⟩ := List.mem_map.1 hlisted
  rw [← h.caseless row hrow _ _ hname, ← h.caseless row' hrow' _ _ hname]
  exact hE _ _ _ (hall p hp) (hall' p hp)

/-- **At most one row has given values in the columns of a key.** -/
theorem length_filter_le_one (h : t.Holds E rows) (hE : E.EqualAlike)
    (hcolumns : t.IsKey (key.map (·.1))) {p : Env Alias → Bool}
    (hp : ∀ row ∈ rows, p row = true → ∀ q ∈ key, E.Equal (row.column q.1 none) q.2) :
    (rows.filter p).length ≤ 1 := by
  obtain ⟨columns, hmem, hsame⟩ := isKey_iff.1 hcolumns
  refine length_filter_le_one_of_pairwise (h.keys columns hmem) fun a ha b hb hpa hpb hR => hR ?_
  exact h.equal_on_key hE hsame ha hb (hp a ha hpa) (hp b hb hpb)

end Table.Holds

/-! ## The condition on a key -/

theorem Truth.all_perm {ts ts' : List Truth} (h : ts.Perm ts') : Truth.all ts = Truth.all ts' := by
  simp only [Truth.all, h.mem_iff]

namespace Source

variable {c : Catalog} {s : Source} {name : String} {t : Table} {key key' : List (String × Value)}
  {e : Expr Alias} {E : Engine} {row : Env Alias}

/-- What the condition on a key comes to for a table that is known. -/
theorem resolve_uniqueKeyFilter (hs : s.tableName? = some name) (ht : c.table name = .ok t)
    (key : List (String × Value)) :
    (s.uniqueKeyFilter key).resolve c.schema =
      if t.IsKey (key.map (·.1)) then
        .ok (if key.any (·.2.isNull) then .never else .allEqual key)
      else .error (.notAUniqueKey name (key.map (·.1))) := by
  have hfind : (t.keys.find? (Text.sameNames (key.map (·.1)))).isSome = true ↔
      t.IsKey (key.map (·.1)) := by
    simp only [List.find?_isSome, Text.sameNames_iff, Table.isKey_iff, SameColumns]
  have hasked : c.schema.uniqueKey? name (key.map (·.1)) =
      .ok (t.keys.find? (Text.sameNames (key.map (·.1)))) := by
    change (c.table name >>= fun t => pure _) = _
    rw [ht]
    rfl
  rw [uniqueKeyFilter, keyTable, hs]
  simp only [ok_bind, hasked]
  cases hkey : t.keys.find? (Text.sameNames (key.map (·.1))) with
  | none =>
    rw [hkey] at hfind
    rw [if_neg fun h => Bool.false_ne_true (hfind.2 h)]
    rfl
  | some columns =>
    rw [hkey] at hfind
    rw [if_pos (hfind.1 rfl)]
    rfl

theorem resolve_uniqueKeyFilter_eq_ok (hs : s.tableName? = some name) :
    (s.uniqueKeyFilter key).resolve c.schema = .ok e ↔
      ∃ t, c.table name = .ok t ∧ t.IsKey (key.map (·.1)) ∧
        e = if key.any (·.2.isNull) then .never else .allEqual key := by
  constructor
  · intro h
    cases ht : c.table name with
    | error e' =>
      simp only [uniqueKeyFilter, keyTable, hs, Catalog.schema, ht, ok_bind, error_bind] at h
      cases h
    | ok t =>
      rw [resolve_uniqueKeyFilter hs ht] at h
      split at h
      · rename_i hkey
        exact ⟨t, rfl, hkey, (Except.ok.inj h).symm⟩
      · cases h
  · rintro ⟨t, ht, hkey, rfl⟩
    rw [resolve_uniqueKeyFilter hs ht, if_pos hkey]

/-- How true the condition on a key is in a row. -/
theorem truth_uniqueKeyFilter (hs : s.tableName? = some name)
    (he : (s.uniqueKeyFilter key).resolve c.schema = .ok e) (hkey : key ≠ [])
    (hrow : row.ReadsConstants) :
    E.truth (e.eval E [] row) =
      if .null ∈ key.map (·.2) then some false
      else Truth.all (key.map fun p => E.truth (E.apply .eq (row.column p.1 none) p.2)) := by
  obtain ⟨t, -, -, rfl⟩ := (resolve_uniqueKeyFilter_eq_ok hs).1 he
  have hnull : key.any (·.2.isNull) = true ↔ Value.null ∈ key.map (·.2) := by
    simp only [List.any_eq_true, Value.isNull_iff, List.mem_map]
  by_cases hany : Value.null ∈ key.map (·.2)
  · rw [if_pos (hnull.2 hany), if_pos hany, Expr.never, Expr.eval, hrow.zero, E.truth_ofBool]
  · rw [if_neg fun h => hany (hnull.1 h), if_neg hany, Expr.truth_eval_conjuncts,
      Expr.conjuncts_allEqual hkey, List.map_map]
    rfl

/-- **The condition on a key is true of the rows that have the values in its columns.** -/
theorem truth_uniqueKeyFilter_eq_true (hs : s.tableName? = some name)
    (he : (s.uniqueKeyFilter key).resolve c.schema = .ok e) (hkey : key ≠ [])
    (hrow : row.ReadsConstants) :
    E.truth (e.eval E [] row) = some true ↔ ∀ p ∈ key, E.Equal (row.column p.1 none) p.2 := by
  rw [truth_uniqueKeyFilter hs he hkey hrow]
  split
  · rename_i hnull
    obtain ⟨p, hp, hvalue⟩ := List.mem_map.1 hnull
    refine iff_of_false (by decide) fun hall => E.not_equal_null (row.column p.1 none) ?_
    exact hvalue ▸ hall p hp
  · rw [Truth.all_eq_true, List.forall_mem_map]
    rfl

/-- The condition on the same key listed in another way is as true in every row. -/
theorem truth_uniqueKeyFilter_congr (hs : s.tableName? = some name) {e' : Expr Alias}
    (he : (s.uniqueKeyFilter key).resolve c.schema = .ok e)
    (he' : (s.uniqueKeyFilter key').resolve c.schema = .ok e') (hkey : key ≠ [])
    (hsame : SameColumnValues key' key) (hrow : row.ReadsConstants)
    (hcaseless : ∀ name name', Text.asciiLower name = Text.asciiLower name' →
      row.column name none = row.column name' none) :
    E.truth (e'.eval E [] row) = E.truth (e.eval E [] row) := by
  -- A comparison is the same for the column in small letters.
  have hlower : (fun p : String × Value => E.truth (E.apply .eq (row.column p.1 none) p.2)) =
      (fun p => E.truth (E.apply .eq (row.column p.1 none) p.2)) ∘ lowerColumn := by
    funext p
    have hcolumn := hcaseless (Text.asciiLower p.1) p.1 (Text.asciiLower_asciiLower p.1)
    rw [Function.comp_apply, lowerColumn, hcolumn]
  rw [truth_uniqueKeyFilter hs he' (hsame.ne_nil hkey) hrow, truth_uniqueKeyFilter hs he hkey hrow,
    hlower, ← List.map_map, ← List.map_map, Truth.all_perm (hsame.map _)]
  simp only [hsame.values.mem_iff]

theorem findsOne_of_resolve (hs : s.tableName? = some name) (ht : c.table name = .ok t)
    (he : (s.uniqueKeyFilter key).resolve c.schema = .ok e) (hkey : key ≠ [])
    {rows : List (Env Alias)} (hrows : t.Holds E rows) : e.FindsOne E rows key := by
  have htrue : ∀ row ∈ rows, E.truth (e.eval E [] row) = some true ↔
      ∀ p ∈ key, E.Equal (row.column p.1 none) p.2 := fun row hrow =>
    truth_uniqueKeyFilter_eq_true hs he hkey (hrows.constants row hrow)
  refine ⟨htrue, fun hnull row hrow h => ?_, fun hE => ?_⟩
  · obtain ⟨p, hp, hvalue⟩ := List.mem_map.1 hnull
    exact E.not_equal_null (row.column p.1 none) (hvalue ▸ (htrue row hrow).1 h p hp)
  · obtain ⟨t', ht', hcolumns, -⟩ := (resolve_uniqueKeyFilter_eq_ok hs).1 he
    obtain rfl := Except.ok.inj (ht.symm.trans ht')
    refine hrows.length_filter_le_one hE hcolumns fun row hrow h => ?_
    exact (htrue row hrow).1 (of_decide_eq_true h)

end Source

/-- **A request for the row of a unique key keeps one row**, whatever else it asks of the rows. -/
theorem Query.filterByUniqueKey_keeps_one {c : Catalog} {q : Query} {name : String} {t : Table}
    {key : List (String × Value)} (hs : q.source.tableName? = some name)
    (ht : c.table name = .ok t) (hkey : key ≠ []) {E : Engine} (hE : E.EqualAlike)
    {rows : List (Env Alias)} (hrows : t.Holds E rows) {e : Expr Alias}
    (he : ∀ filter ∈ (q.filterByUniqueKey key).clauses.filter?,
      filter.resolve c.schema = .ok e) :
    (rows.filter fun row => E.truth (e.eval E [] row) = some true).length ≤ 1 := by
  have hfilter := he _ rfl
  cases hold : q.clauses.filter? with
  | none =>
    rw [hold] at hfilter
    exact (Source.findsOne_of_resolve hs ht hfilter hkey hrows).one hE
  | some old =>
    rw [hold] at hfilter
    obtain ⟨a, -, hfilter⟩ := bind_eq_ok.1 hfilter
    obtain ⟨b, hb, hfilter⟩ := bind_eq_ok.1 hfilter
    obtain rfl := pure_eq_ok.1 hfilter
    refine Nat.le_trans (List.Sublist.length_le (List.monotone_filter_right rows fun row h => ?_))
      ((Source.findsOne_of_resolve hs ht hb hkey hrows).one hE)
    rw [decide_eq_true_iff] at h ⊢
    exact ((Expr.truth_eval_and E a b [] row).1 h).2

/-- **The condition on a unique key finds one row.**

It is made just for the columns of a key of the table. Among rows that satisfy the keys it is true
of those that have the values given, and of one at most. The columns may be listed in any order and
any ASCII case: that changes neither whether it is made nor how true it is of any row. -/
theorem Source.uniqueKeyFilter_finds_one (c : Catalog) (s : Source) (name : String)
    (key : List (String × Value)) (hs : s.tableName? = some name) (hkey : key ≠ []) :
    ((∃ e, (s.uniqueKeyFilter key).resolve c.schema = .ok e) ↔
      ∃ t, c.table name = .ok t ∧ t.IsKey (key.map (·.1))) ∧
    (∀ t, c.table name = .ok t → ¬ t.IsKey (key.map (·.1)) →
      (s.uniqueKeyFilter key).resolve c.schema =
        .error (.notAUniqueKey name (key.map (·.1)))) ∧
    (∀ t e, c.table name = .ok t → (s.uniqueKeyFilter key).resolve c.schema = .ok e →
      ∀ E rows, t.Holds E rows → e.FindsOne E rows key) ∧
    ∀ key', SameColumnValues key' key →
      ((∃ e, (s.uniqueKeyFilter key').resolve c.schema = .ok e) ↔
        ∃ e, (s.uniqueKeyFilter key).resolve c.schema = .ok e) ∧
      ∀ t e e', c.table name = .ok t → (s.uniqueKeyFilter key).resolve c.schema = .ok e →
        (s.uniqueKeyFilter key').resolve c.schema = .ok e' → ∀ E rows, t.Holds E rows →
          ∀ row ∈ rows, E.truth (e'.eval E [] row) = E.truth (e.eval E [] row) := by
  have hresolves (key : List (String × Value)) :
      (∃ e, (s.uniqueKeyFilter key).resolve c.schema = .ok e) ↔
        ∃ t, c.table name = .ok t ∧ t.IsKey (key.map (·.1)) := by
    simp only [resolve_uniqueKeyFilter_eq_ok hs]
    exact ⟨fun ⟨_, t, ht, hcolumns, _⟩ => ⟨t, ht, hcolumns⟩,
      fun ⟨t, ht, hcolumns⟩ => ⟨_, t, ht, hcolumns, rfl⟩⟩
  refine ⟨hresolves key, fun t ht hnot => ?_,
    fun t e ht he E rows hrows => findsOne_of_resolve hs ht he hkey hrows,
    fun key' hsame => ⟨?_, fun t e e' ht he he' E rows hrows row hrow => ?_⟩⟩
  · rw [resolve_uniqueKeyFilter hs ht, if_neg hnot]
  · rw [hresolves, hresolves]
    refine exists_congr fun t => and_congr_right fun _ => ⟨fun h => ?_, fun h => ?_⟩
    · exact h.of_sameColumns hsame.symm.columns
    · exact h.of_sameColumns hsame.columns
  · exact truth_uniqueKeyFilter_congr hs he he' hkey hsame (hrows.constants row hrow)
      (hrows.caseless row hrow)

/-! ## A table of seats -/

/-- A stored row does not tell columns apart by their ASCII case. -/
theorem Table.value_of_sameName (t : Table) (row : StoredRow) {name name' : String}
    (h : Text.asciiLower name = Text.asciiLower name') : t.value row name = t.value row name' := by
  have hkey : t.isRowIdKey name = t.isRowIdKey name' := by
    simp only [isRowIdKey, Text.sameName, h]
  have hdeclares : t.declares name = t.declares name' := by
    simp only [declares, Text.sameName, h]
  have hrowId : isRowIdName name = isRowIdName name' := by
    simp only [isRowIdName, Text.sameName, h]
  rw [value, value, hkey, hdeclares, hrowId, h]

/-- What conditions read of a stored row. -/
def Table.env (t : Table) (row : StoredRow) : Env Alias :=
  ⟨fun name _ => t.value row name, fun text _ => .ofBool (text == "1")⟩

theorem Engine.equalAlike_plain : Engine.plain.EqualAlike := by
  have hequal : ∀ v w, Engine.plain.Equal v w → v = w := by
    intro v w h
    have happly : Engine.plain.apply .eq v w =
        if v.isNull || w.isNull then .null else .ofBool (decide (v = w)) := rfl
    rw [Engine.Equal, happly] at h
    split at h
    · rw [Engine.truth_null] at h
      cases h
    · rw [Engine.truth_ofBool] at h
      exact of_decide_eq_true (Option.some.inj h)
  intro u v w hu hv
  obtain rfl := hequal u w hu
  obtain rfl := hequal v u hv
  exact hu

/-- Seats, found by their row and number. -/
def seats : Table where
  name := "Seat"
  columns := ["id", "row", "number"]
  uniqueKeys := [["row", "number"]]

/-- A seat in a row of seats, with its number if it has one. -/
def seat (id : Int64) (line : String) (number : Value) : StoredRow where
  rowId := id
  values name := if name = "row" then .text line else if name = "number" then number else .null

/-- Two seats with one number in different rows of seats, and two without a number in the same. -/
def seatRows : List (Env Alias) :=
  [seat 1 "A" (.integer 4), seat 2 "B" (.integer 4), seat 3 "B" .null, seat 4 "B" .null].map
    seats.env

/-- The seat with the number 4 in the row B, its columns in an order and case of their own. -/
def seatKey : List (String × Value) := [("Number", .integer 4), ("row", .text "B")]

theorem seats_holds : seats.Holds .plain seatRows where
  constants row hrow := by
    obtain ⟨stored, -, rfl⟩ := List.mem_map.1 hrow
    exact ⟨rfl, rfl⟩
  caseless row hrow name name' h := by
    obtain ⟨stored, -, rfl⟩ := List.mem_map.1 hrow
    exact seats.value_of_sameName stored h
  keys := by decide +kernel

theorem Source.uniqueKeyFilter_finds_one_seat :
    ∃ e, ((Source.table "seat" none).uniqueKeyFilter seatKey).resolve
          ({ tables := [seats] } : Catalog).schema = .ok e ∧
      e.FindsOne .plain seatRows seatKey ∧
      (seatRows.filter fun row =>
        Engine.plain.truth (e.eval .plain [] row) = some true).length ≤ 1 := by
  obtain ⟨hmade, -, hfinds, -⟩ :=
    uniqueKeyFilter_finds_one { tables := [seats] } (.table "seat" none) "seat" seatKey rfl nofun
  obtain ⟨e, he⟩ := hmade.2 ⟨seats, rfl, .inr ⟨_, List.mem_singleton_self _, by decide⟩⟩
  have hone := hfinds seats e rfl he .plain seatRows seats_holds
  exact ⟨e, he, hone, hone.one Engine.equalAlike_plain⟩

end SqlTree
