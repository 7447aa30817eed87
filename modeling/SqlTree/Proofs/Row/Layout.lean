import Mathlib.Algebra.Ring.Nat
import SqlTree.Proofs.Query.Nodes
import SqlTree.Proofs.Runs
import SqlTree.Row.Layout

/-!
# Layouts tile the row

The layout of a request with joins is written as three recursions that have to agree: the one that
gives out the columns, the one that counts them, and the one that lists the selected items. Here all
three are read off the nodes of the request.

* `Query.width_eq` sums the widths of the nodes.
* `Query.layoutFrom_tiles` is what one layout says: its ranges, listed depth-first, follow each
  other without gap or overlap, and the range of every node is as wide as what the node selects.
* `Query.layoutFrom_total` is when there is a layout: the keys of joins beside each other differ.
* `RowLayout.slice?_eq_some_iff` reads the slices of a row off the ranges.
* `Query.rowLayout?_tiles_row` puts them together.
-/

namespace SqlTree

/-! ## Views -/

/-- The keys of joins at every depth. -/
inductive KeyTree where
  | node (below : List (String × KeyTree))

mutual

/-- The keys of the joins of a request, each with the keys beneath it. -/
def Query.keyTree : Query → KeyTree
  | ⟨_, _, joins, _⟩ => .node (joinsKeys joins)

/-- The keys of joins, each with the keys beneath it. -/
def joinsKeys : List Join → List (String × KeyTree)
  | [] => []
  | j :: rest => (j.key, joinKeyTree j) :: joinsKeys rest

/-- The keys beneath one join. -/
def joinKeyTree : Join → KeyTree
  | ⟨_, _, _, _, query⟩ => query.keyTree

end

mutual

/-- The keys of the scopes of a layout, each with the keys beneath it. -/
def RowLayout.keyTree : RowLayout → KeyTree
  | ⟨_, _, scopes⟩ => .node (scopesKeys scopes)

/-- The keys of scopes, each with the keys beneath it. -/
def scopesKeys : List (String × RowLayout) → List (String × KeyTree)
  | [] => []
  | (key, l) :: rest => (key, l.keyTree) :: scopesKeys rest

end

mutual

/-- The ranges of a layout, depth-first: its own one before those of its scopes. -/
def RowLayout.ranges : RowLayout → List (Nat × Nat)
  | ⟨start, stop, scopes⟩ => (start, stop) :: scopesRanges scopes

/-- The ranges of scopes, one scope behind the other. -/
def scopesRanges : List (String × RowLayout) → List (Nat × Nat)
  | [] => []
  | (_, l) :: rest => l.ranges ++ scopesRanges rest

end

mutual

/-- The values of a sliced row, depth-first: its own ones before those of its scopes. -/
def SlicedRow.values {α : Type} : SlicedRow α → List α
  | ⟨own, scopes⟩ => own ++ slicesValues scopes

/-- The values of sliced rows, one behind the other. -/
def slicesValues {α : Type} : List (String × SlicedRow α) → List α
  | [] => []
  | (_, r) :: rest => r.values ++ slicesValues rest

end

/-- Ranges that follow each other from `start` to `stop` without gap or overlap. -/
def Tiles : Nat → Nat → List (Nat × Nat) → Prop
  | start, stop, [] => start = stop
  | start, stop, r :: rest => r.1 = start ∧ r.1 ≤ r.2 ∧ Tiles r.2 stop rest

/-- Joins beside each other whose keys differ in more than ASCII case. -/
def HaveDistinctKeys (joins : List Join) : Prop :=
  joins.Pairwise fun j k => Text.asciiLower j.key ≠ Text.asciiLower k.key

/-! ## Tilings -/

namespace Tiles

variable {a b c : Nat} {rs ss : List (Nat × Nat)}

theorem append (h : Tiles a b rs) (h' : Tiles b c ss) : Tiles a c (rs ++ ss) := by
  induction rs generalizing a with
  | nil =>
    obtain rfl : a = b := h
    exact h'
  | cons r rs ih => exact ⟨h.1, h.2.1, ih h.2.2⟩

theorem le (h : Tiles a b rs) : a ≤ b := by
  induction rs generalizing a with
  | nil => exact Nat.le_of_eq h
  | cons r rs ih =>
    obtain ⟨rfl, hr, hrs⟩ := h
    exact Nat.le_trans hr (ih hrs)

/-- The widths of the ranges make up the whole. -/
theorem sum_widths (h : Tiles a b rs) : a + (rs.map fun r => r.2 - r.1).sum = b := by
  induction rs generalizing a with
  | nil => exact h
  | cons r rs ih =>
    obtain ⟨rfl, hr, hrs⟩ := h
    have := ih hrs
    simp only [List.map_cons, List.sum_cons]
    omega

/-- A row that reaches to the end of all ranges is one that reaches to the end of each. -/
theorem forall_le_iff (h : Tiles a b rs) (hne : rs ≠ []) {n : Nat} :
    (∀ r ∈ rs, r.1 ≤ r.2 ∧ r.2 ≤ n) ↔ b ≤ n := by
  induction rs generalizing a with
  | nil => exact absurd rfl hne
  | cons r rs ih =>
    obtain ⟨-, hr, hrs⟩ := h
    rw [List.forall_mem_cons]
    rcases eq_or_ne rs [] with rfl | hrs'
    · obtain rfl : r.2 = b := hrs
      simp [hr]
    · rw [ih hrs hrs']
      have := hrs.le
      omega

/-- What the ranges cut out of a list is, one behind the other, what the whole cuts out of it. -/
theorem flatMap_cut (h : Tiles a b rs) {α : Type} (row : List α) :
    (rs.flatMap fun r => (row.take r.2).drop r.1) = (row.take b).drop a := by
  induction rs generalizing a with
  | nil =>
    obtain rfl : a = b := h
    simp
  | cons r rs ih =>
    obtain ⟨rfl, hr, hrs⟩ := h
    have hb := hrs.le
    rw [List.flatMap_cons, ih hrs]
    simp only [List.drop_take]
    conv_rhs => rw [show b - r.1 = (r.2 - r.1) + (b - r.2) by omega, List.take_add]
    rw [List.drop_drop, show r.1 + (r.2 - r.1) = r.2 by omega]

end Tiles

/-! ## Widths -/

section

variable (f : Forest) (db : Schema)

mutual

/-- **The width of a request is the sum of the widths of its nodes.** -/
theorem Query.width_eq_ok : ∀ (q : Query) {w : Nat}, q.width f db = .ok w ↔
    ∃ ws, List.Forall₂ (fun p n => Query.ownWidth f db p = .ok n) q.nodes ws ∧ ws.sum = w
  | ⟨source, clauses, joins, isQualified⟩, w => by
    simp only [Query.width, bind_eq_ok, pure_eq_ok, joinsWidth_eq_ok joins, Query.nodes,
      List.forall₂_cons_left_iff]
    constructor
    · rintro ⟨n, hn, m, ⟨ws, hws, rfl⟩, rfl⟩
      exact ⟨n :: ws, ⟨n, ws, hn, hws, rfl⟩, by simp⟩
    · rintro ⟨_, ⟨n, ws, hn, hws, rfl⟩, rfl⟩
      exact ⟨n, hn, ws.sum, ⟨ws, hws, rfl⟩, by simp⟩

theorem joinsWidth_eq_ok : ∀ (joins : List Join) {w : Nat}, joinsWidth f db joins = .ok w ↔
    ∃ ws, List.Forall₂ (fun p n => Query.ownWidth f db p = .ok n) (joinsNodes joins) ws ∧
      ws.sum = w
  | [], w => by simp [joinsWidth, joinsNodes]
  | j :: rest, w => by
    simp only [joinsWidth, bind_eq_ok, pure_eq_ok, joinWidth_eq_ok j, joinsWidth_eq_ok rest,
      joinsNodes]
    constructor
    · rintro ⟨_, ⟨ws, hws, rfl⟩, _, ⟨vs, hvs, rfl⟩, rfl⟩
      exact ⟨ws ++ vs, List.rel_append hws hvs, by simp⟩
    · rintro ⟨us, hus, rfl⟩
      obtain ⟨ws, vs, hws, hvs, rfl⟩ := forall₂_append_left.1 hus
      exact ⟨_, ⟨ws, hws, rfl⟩, _, ⟨vs, hvs, rfl⟩, by simp⟩

theorem joinWidth_eq_ok : ∀ (j : Join) {w : Nat}, j.width f db = .ok w ↔
    ∃ ws, List.Forall₂ (fun p n => Query.ownWidth f db p = .ok n) (joinNodes j) ws ∧ ws.sum = w
  | ⟨_, _, _, _, query⟩, w => by
    rw [Join.width, joinNodes, Query.width_eq_ok query]

end

/-! ## What a layout says -/

/-- What the layout of some nodes says: its ranges tile the columns, and each is as wide as what its
node selects. -/
structure LaysOut (start stop : Nat) (ranges : List (Nat × Nat)) (nodes : List Query) : Prop where
  tiles : Tiles start stop ranges
  widths : List.Forall₂ (fun r p => Query.ownWidth f db p = .ok (r.2 - r.1)) ranges nodes

variable {f db}

theorem LaysOut.append {a b c : Nat} {rs ss : List (Nat × Nat)} {ps qs : List Query}
    (h : LaysOut f db a b rs ps) (h' : LaysOut f db b c ss qs) :
    LaysOut f db a c (rs ++ ss) (ps ++ qs) :=
  ⟨h.tiles.append h'.tiles, List.rel_append h.widths h'.widths⟩

/-- The request is as wide as its layout is long. -/
theorem LaysOut.width_eq {a b : Nat} {rs : List (Nat × Nat)} {q : Query}
    (h : LaysOut f db a b rs q.nodes) : q.width f db = .ok (b - a) := by
  refine (Query.width_eq_ok f db q).2 ⟨rs.map fun r => r.2 - r.1, ?_, ?_⟩
  · rw [List.forall₂_map_right_iff]
    exact h.widths.flip
  · have := h.tiles.sum_widths
    omega

mutual

/-- **A layout tiles its columns, node by node, under the keys of the request.** -/
theorem Query.layoutFrom_tiles : ∀ (q : Query) {start stop : Nat} {l : RowLayout},
    q.layoutFrom f db start = .ok (l, stop) →
      LaysOut f db start stop l.ranges q.nodes ∧ l.keyTree = q.keyTree
  | ⟨source, clauses, joins, isQualified⟩, start, stop, l, h => by
    simp only [Query.layoutFrom, bind_eq_ok, pure_eq_ok, Prod.mk.injEq] at h
    obtain ⟨width, hwidth, ⟨scopes, stop⟩, hscopes, rfl, rfl⟩ := h
    obtain ⟨below, keys⟩ := joinsLayout_tiles joins hscopes
    have own : LaysOut f db start (start + width) [(start, start + width)]
        [⟨source, clauses, joins, isQualified⟩] :=
      ⟨⟨rfl, Nat.le_add_right _ _, rfl⟩,
        .cons (by rw [Nat.add_sub_cancel_left]; exact hwidth) .nil⟩
    rw [RowLayout.ranges, Query.nodes]
    exact ⟨own.append below, by rw [RowLayout.keyTree, Query.keyTree, keys]⟩

theorem joinsLayout_tiles : ∀ (joins : List Join) {seen : List String} {start stop : Nat}
    {scopes : List (String × RowLayout)}, joinsLayout f db seen start joins = .ok (scopes, stop) →
      LaysOut f db start stop (scopesRanges scopes) (joinsNodes joins) ∧
        scopesKeys scopes = joinsKeys joins
  | [], seen, start, stop, scopes, h => by
    simp only [joinsLayout, pure_eq_ok, Prod.mk.injEq] at h
    obtain ⟨rfl, rfl⟩ := h
    exact ⟨⟨rfl, .nil⟩, rfl⟩
  | j :: rest, seen, start, stop, scopes, h => by
    rw [joinsLayout] at h
    split at h
    · simp at h
    · simp only [bind_eq_ok, pure_eq_ok, Prod.mk.injEq] at h
      obtain ⟨⟨l, mid⟩, hl, ⟨ls, stop⟩, hls, rfl, rfl⟩ := h
      obtain ⟨first, key⟩ := joinLayout_tiles j hl
      obtain ⟨behind, keys⟩ := joinsLayout_tiles rest hls
      rw [scopesRanges, joinsNodes, scopesKeys, joinsKeys, key, keys]
      exact ⟨first.append behind, rfl⟩

theorem joinLayout_tiles : ∀ (j : Join) {start stop : Nat} {l : RowLayout},
    joinLayout f db start j = .ok (l, stop) →
      LaysOut f db start stop l.ranges (joinNodes j) ∧ l.keyTree = joinKeyTree j
  | ⟨_, _, _, _, query⟩, start, stop, l, h => by
    rw [joinLayout] at h
    rw [joinNodes, joinKeyTree]
    exact Query.layoutFrom_tiles query h

end

/-! ## When there is a layout -/

/-- Work that gives a result when `ok` holds, and otherwise reports clashing keys. -/
def ReportsClash {α : Type} (x : Except CompileError α) (ok : Prop) : Prop :=
  (∃ a, x = .ok a) ∧ ok ∨ (∃ key, x = .error (.clashingJoins key)) ∧ ¬ ok

mutual

/-- **A request whose columns can be counted has a layout just when the keys of joins beside each
other differ.** -/
theorem Query.layoutFrom_total : ∀ (q : Query) (start : Nat),
    (∀ p ∈ q.nodes, ∃ n, Query.ownWidth f db p = .ok n) →
      ReportsClash (q.layoutFrom f db start) (∀ p ∈ q.nodes, HaveDistinctKeys p.joins)
  | ⟨source, clauses, joins, isQualified⟩, start, h => by
    rw [Query.nodes, List.forall_mem_cons] at h
    obtain ⟨⟨n, hn⟩, below⟩ := h
    change itemsWidth f db source.alias? (source.width f db) clauses.selection = .ok n at hn
    rw [Query.layoutFrom, hn, Query.nodes, List.forall_mem_cons]
    rcases joinsLayout_total joins [] (start + n) below with
      ⟨⟨scopes, hs⟩, -, keys, deeper⟩ | ⟨⟨key, hk⟩, clash⟩
    · exact .inl ⟨⟨_, by rw [ok_bind, hs]; rfl⟩, keys, deeper⟩
    · refine .inr ⟨⟨key, by rw [ok_bind, hk]; rfl⟩, fun ok => clash ⟨by simp, ok⟩⟩

theorem joinsLayout_total : ∀ (joins : List Join) (seen : List String) (start : Nat),
    (∀ p ∈ joinsNodes joins, ∃ n, Query.ownWidth f db p = .ok n) →
      ReportsClash (joinsLayout f db seen start joins)
        ((∀ s ∈ seen, ∀ j ∈ joins, Text.asciiLower s ≠ Text.asciiLower j.key) ∧ HaveDistinctKeys joins ∧
          ∀ p ∈ joinsNodes joins, HaveDistinctKeys p.joins)
  | [], seen, start, _ => .inl ⟨⟨_, rfl⟩, by simp [HaveDistinctKeys, joinsNodes]⟩
  | j :: rest, seen, start, h => by
    rw [joinsNodes, List.forall_mem_append] at h
    rw [joinsLayout, joinsNodes, List.forall_mem_append]
    by_cases hseen : seen.any (Text.sameName · j.key)
    · refine .inr ⟨⟨j.key, by rw [if_pos hseen]; rfl⟩, fun ok => ?_⟩
      obtain ⟨s, hs, hj⟩ := List.any_eq_true.1 hseen
      exact ok.1 s hs j (by simp) (Text.sameName_iff.1 hj)
    · rw [if_neg hseen]
      have fresh : ∀ s ∈ seen, Text.asciiLower s ≠ Text.asciiLower j.key := by simpa using hseen
      rcases joinLayout_total j start h.1 with ⟨⟨⟨l, mid⟩, hl⟩, ok⟩ | ⟨⟨key, hk⟩, clash⟩
      · rcases joinsLayout_total rest (j.key :: seen) mid h.2 with
          ⟨⟨ls, hls⟩, others, keys, deeper⟩ | ⟨⟨key, hk⟩, clash⟩
        · rw [List.forall_mem_cons] at others
          refine .inl ⟨⟨_, by rw [hl, ok_bind, hls]; rfl⟩, fun s hs => ?_, ?_, ok, deeper⟩
          · exact List.forall_mem_cons.2 ⟨fresh s hs, others.2 s hs⟩
          · exact List.pairwise_cons.2 ⟨others.1, keys⟩
        · refine .inr ⟨⟨key, by rw [hl, ok_bind, hk]; rfl⟩, ?_⟩
          rintro ⟨others, keys, -, deeper⟩
          obtain ⟨differ, keys⟩ := List.pairwise_cons.1 keys
          refine clash ⟨List.forall_mem_cons.2 ⟨differ, fun s hs k hk => ?_⟩, keys, deeper⟩
          exact others s hs k (List.mem_cons_of_mem j hk)
      · exact .inr ⟨⟨key, by rw [hk]; rfl⟩, fun ok => clash ok.2.2.1⟩

theorem joinLayout_total : ∀ (j : Join) (start : Nat),
    (∀ p ∈ joinNodes j, ∃ n, Query.ownWidth f db p = .ok n) →
      ReportsClash (joinLayout f db start j) (∀ p ∈ joinNodes j, HaveDistinctKeys p.joins)
  | ⟨_, _, _, _, query⟩, start, h => by
    rw [joinNodes] at h
    rw [joinLayout, joinNodes]
    exact Query.layoutFrom_total query start h

end

end

/-! ## Slices -/

section

variable {α : Type} (row : List α)

theorem slice?_eq_some_iff {start stop : Nat} {own : List α} :
    SqlTree.slice? row start stop = some own ↔
      (start ≤ stop ∧ stop ≤ row.length) ∧ (row.take stop).drop start = own := by
  unfold SqlTree.slice?
  split
  case isTrue h => simp [h]
  case isFalse h => simp [h]

mutual

/-- **A row is sliced when it reaches to the end of every range**, and then the slices are what the
ranges cut out of it. -/
theorem RowLayout.slice?_eq_some_iff : ∀ l : RowLayout,
    ((∃ s, l.slice? row = some s) ↔ ∀ r ∈ l.ranges, r.1 ≤ r.2 ∧ r.2 ≤ row.length) ∧
      ∀ s, l.slice? row = some s →
        s.values = l.ranges.flatMap fun r => (row.take r.2).drop r.1
  | ⟨start, stop, scopes⟩ => by
    obtain ⟨fits, values⟩ := sliceScopes?_eq_some_iff scopes
    simp only [RowLayout.slice?, RowLayout.ranges, List.forall_mem_cons, List.flatMap_cons,
      Option.bind_eq_bind, Option.pure_def, Option.bind_eq_some_iff, Option.some.injEq,
      SqlTree.slice?_eq_some_iff, ← fits]
    constructor
    · constructor
      · rintro ⟨_, slices, hs, own, ⟨hown, -⟩, -⟩
        exact ⟨hown, slices, hs⟩
      · rintro ⟨hown, slices, hs⟩
        exact ⟨_, slices, hs, _, ⟨hown, rfl⟩, rfl⟩
    · rintro _ ⟨slices, hs, _, ⟨-, rfl⟩, rfl⟩
      rw [SlicedRow.values, values slices hs]

theorem sliceScopes?_eq_some_iff : ∀ scopes : List (String × RowLayout),
    ((∃ ss, sliceScopes? row scopes = some ss) ↔
        ∀ r ∈ scopesRanges scopes, r.1 ≤ r.2 ∧ r.2 ≤ row.length) ∧
      ∀ ss, sliceScopes? row scopes = some ss →
        slicesValues ss = (scopesRanges scopes).flatMap fun r => (row.take r.2).drop r.1
  | [] => by simp [sliceScopes?, scopesRanges, slicesValues]
  | (key, l) :: rest => by
    obtain ⟨fits, values⟩ := l.slice?_eq_some_iff
    obtain ⟨restFit, restValues⟩ := sliceScopes?_eq_some_iff rest
    simp only [sliceScopes?, scopesRanges, List.forall_mem_append, List.flatMap_append,
      Option.bind_eq_bind, Option.pure_def, Option.bind_eq_some_iff, Option.some.injEq, ← fits,
      ← restFit]
    constructor
    · constructor
      · rintro ⟨_, s, hs, ss, hss, -⟩
        exact ⟨⟨s, hs⟩, ss, hss⟩
      · rintro ⟨⟨s, hs⟩, ss, hss⟩
        exact ⟨_, s, hs, ss, hss, rfl⟩
    · rintro _ ⟨s, hs, ss, hss, rfl⟩
      rw [slicesValues, values s hs, restValues ss hss]

end

/-- **A layout that tiles the first columns slices the rows that have them**, and the slices make up
these columns. -/
theorem LaysOut.slice? {f : Forest} {db : Schema} {l : RowLayout} {w : Nat} {ps : List Query}
    (h : LaysOut f db 0 w l.ranges ps) :
    (w ≤ row.length ↔ ∃ s, l.slice? row = some s) ∧
      ∀ s, l.slice? row = some s → s.values = row.take w := by
  have hne : l.ranges ≠ [] := by
    cases l
    simp [RowLayout.ranges]
  obtain ⟨fits, values⟩ := l.slice?_eq_some_iff row
  refine ⟨(h.tiles.forall_le_iff hne).symm.trans fits.symm, fun s hs => ?_⟩
  rw [values s hs, h.tiles.flatMap_cut, List.drop_zero]

end

/-! ## The row -/

theorem Query.rowLayout?_eq_some {f : Forest} {db : Schema} {q : Query} {l : RowLayout}
    (h : q.rowLayout? f db = .ok (some l)) : ∃ w, q.layoutFrom f db 0 = .ok (l, w) := by
  rw [rowLayout?] at h
  split at h
  · simp at h
  · simp only [bind_eq_ok, pure_eq_ok] at h
    obtain ⟨⟨l', w⟩, hl, heq⟩ := h
    obtain rfl : l' = l := Option.some.inj heq
    exact ⟨w, hl⟩

/-- **The layout of a request with joins tiles the first columns of its rows.** Where there is a
layout, its ranges run through the selected columns in the order in which the nodes of the request
select them, its scopes carry the keys of the joins, and it slices exactly the rows that have all
the columns. There is one just when no two joins beside each other have one key up to ASCII case,
which is what is reported otherwise. -/
theorem Query.rowLayout?_tiles_row (f : Forest) (db : Schema) (q : Query) (joined : q.joins ≠ []) :
    (∀ l?, q.rowLayout? f db = .ok l? → ∃ l w, l? = some l ∧ q.width f db = .ok w ∧
      Tiles 0 w l.ranges ∧
      List.Forall₂ (fun r p => Query.ownWidth f db p = .ok (r.2 - r.1)) l.ranges q.nodes ∧
      q.items = q.nodes.flatMap (·.clauses.selection) ∧
      l.keyTree = q.keyTree ∧
      ∀ (α : Type) (row : List α), (w ≤ row.length ↔ ∃ s, l.slice? row = some s) ∧
        ∀ s, l.slice? row = some s → s.values = row.take w) ∧
    ∀ w, q.width f db = .ok w →
      ((∃ l, q.rowLayout? f db = .ok (some l)) ↔ ∀ p ∈ q.nodes, HaveDistinctKeys p.joins) ∧
      ((∃ key, q.rowLayout? f db = .error (.clashingJoins key)) ↔
        ∃ p ∈ q.nodes, ¬ HaveDistinctKeys p.joins) := by
  have layout : q.rowLayout? f db = (q.layoutFrom f db 0).bind fun r => .ok (some r.1) := by
    rw [Query.rowLayout?, if_neg (by simpa using joined)]
    rfl
  constructor
  · intro l? h
    rw [layout] at h
    obtain ⟨⟨l, w⟩, hl, hl?⟩ := bind_eq_ok.1 h
    obtain ⟨out, keys⟩ := q.layoutFrom_tiles hl
    refine ⟨l, w, ?_, out.width_eq, out.tiles, out.widths, q.items_eq, keys, fun α row => ?_⟩
    · exact (Except.ok.inj hl?).symm
    · exact out.slice? row
  · intro w hw
    obtain ⟨ws, counted, -⟩ := (q.width_eq_ok f db).1 hw
    have each : ∀ p ∈ q.nodes, ∃ n, Query.ownWidth f db p = .ok n := by
      intro p hp
      obtain ⟨n, -, hn⟩ := exists_of_forall₂ counted hp
      exact ⟨n, hn⟩
    rw [layout]
    rcases q.layoutFrom_total 0 each with ⟨⟨r, hr⟩, ok⟩ | ⟨⟨key, hk⟩, clash⟩
    · rw [hr]
      refine ⟨iff_of_true ⟨_, rfl⟩ ok, iff_of_false ?_ ?_⟩
      · rintro ⟨key, ⟨⟩⟩
      · rintro ⟨p, hp, hne⟩
        exact hne (ok p hp)
    · rw [hk]
      refine ⟨iff_of_false ?_ clash, iff_of_true ⟨key, rfl⟩ (by simpa using clash)⟩
      rintro ⟨l, ⟨⟩⟩

theorem Query.rowLayout?_tiles_row_books : booksWithCountry.joins ≠ [] ∧
    ∃ l, booksWithCountry.rowLayout? .empty bookCatalog.schema = .ok (some l) ∧
      Tiles 0 4 l.ranges ∧ l.keyTree = .node [("author", .node [("country", .node [])])] ∧
      ∃ s, l.slice? ["7", "Emma", "2", "England"] = some s ∧
        s.values = ["7", "Emma", "2", "England"] := by
  have joined : booksWithCountry.joins ≠ [] := by simp [booksWithCountry]
  have counted : booksWithCountry.width .empty bookCatalog.schema = .ok 4 := by rfl
  obtain ⟨tiled, total⟩ :=
    Query.rowLayout?_tiles_row .empty bookCatalog.schema booksWithCountry joined
  have distinct : ∀ p ∈ booksWithCountry.nodes, HaveDistinctKeys p.joins := by
    simp [booksWithCountry, Query.nodes, joinsNodes, joinNodes, Association.toJoin,
      Association.withDestination, Query.table, Query.ofSource, Query.select, Query.selectNothing,
      HaveDistinctKeys]
  obtain ⟨l, hl⟩ := (total 4 counted).1.2 distinct
  obtain ⟨l', w, hl', hw, tiles, -, -, keys, slices⟩ := tiled _ hl
  obtain rfl : l = l' := Option.some.inj hl'
  obtain rfl : 4 = w := Except.ok.inj (counted.symm.trans hw)
  obtain ⟨s, hs⟩ := (slices String ["7", "Emma", "2", "England"]).1.1 (by decide)
  exact ⟨joined, l, hl, tiles, keys, s, hs, (slices _ _).2 s hs⟩

end SqlTree
