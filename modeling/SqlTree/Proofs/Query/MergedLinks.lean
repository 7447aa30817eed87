import SqlTree.Proofs.Query.Gathered
import SqlTree.Proofs.Query.Qualified

/-!
# Links of merged joins

Joins under one key are merged when they link the same tables in the same direction, and may still
differ in the columns that they compare. So among the links that a join has to agree with there is
none between other tables, at any depth of a request (`Query.withJoin_linksSameTables`): only
columns are left to be compared.
-/

namespace SqlTree

/-! ## Links between the same tables -/

namespace JoinLink

variable {a b c : JoinLink}

theorem isBetweenSameTables_iff : a.isBetweenSameTables b = true ↔
    a.isHeldByParent = b.isHeldByParent ∧
      Text.asciiLower a.key.origin = Text.asciiLower b.key.origin ∧
      Text.asciiLower a.key.destination = Text.asciiLower b.key.destination := by
  simp [isBetweenSameTables, Text.sameName, and_assoc]

theorem isBetweenSameTables_self (a : JoinLink) : a.isBetweenSameTables a = true :=
  isBetweenSameTables_iff.2 ⟨rfl, rfl, rfl⟩

theorem isBetweenSameTables_symm (h : a.isBetweenSameTables b = true) :
    b.isBetweenSameTables a = true := by
  obtain ⟨hheld, horigin, hdestination⟩ := isBetweenSameTables_iff.1 h
  exact isBetweenSameTables_iff.2 ⟨hheld.symm, horigin.symm, hdestination.symm⟩

theorem isBetweenSameTables_trans (hab : a.isBetweenSameTables b = true)
    (hbc : b.isBetweenSameTables c = true) : a.isBetweenSameTables c = true := by
  obtain ⟨hheld, horigin, hdestination⟩ := isBetweenSameTables_iff.1 hab
  obtain ⟨hheld', horigin', hdestination'⟩ := isBetweenSameTables_iff.1 hbc
  exact isBetweenSameTables_iff.2 ⟨hheld.trans hheld', horigin.trans horigin',
    hdestination.trans hdestination'⟩

end JoinLink

/-- The links merged into a join are between the tables that its own is between. -/
def Join.LinksSameTables (j : Join) : Prop :=
  ∀ l ∈ j.mergedLinks, j.link.isBetweenSameTables l = true

/-- The links merged into the joins of a request are between the same tables as the links of the
joins. -/
def Query.LinksSameTables (q : Query) : Prop := ∀ j ∈ q.joins, j.LinksSameTables

/-- A join that links the same tables as what was merged into it, like all joins beneath it. -/
structure Join.IsSound (j : Join) : Prop where
  links : j.LinksSameTables
  query : j.query.Everywhere Query.LinksSameTables

theorem Query.everywhere_linksSameTables_iff (q : Query) : q.Everywhere LinksSameTables ↔
    q.source.Everywhere LinksSameTables ∧ ∀ j ∈ q.joins, j.IsSound := by
  obtain ⟨source, clauses, joins, isQualified⟩ := q
  rw [Everywhere, joinsEverywhere_iff]
  constructor
  · exact fun h => ⟨h.2.1, fun j hj => ⟨h.1 j hj, h.2.2 j hj⟩⟩
  · exact fun h => ⟨fun j hj => (h.2 j hj).links, h.1, fun j hj => (h.2 j hj).query⟩

/-! ## Merging -/

theorem Join.of_mem_linksWith {a : Join} {more : List JoinLink} {l : JoinLink}
    (h : l ∈ a.linksWith more) : l ∈ a.mergedLinks ∨ l ∈ more := by
  rw [linksWith] at h
  generalize a.mergedLinks = links at h ⊢
  induction more generalizing links with
  | nil => exact .inl h
  | cons l' more ih =>
    rw [List.foldl_cons] at h
    rcases ih _ h with hl | hl
    · split at hl
      · exact .inl hl
      · rcases List.mem_append.1 hl with hl | hl
        · exact .inl hl
        · exact .inr (List.mem_singleton.1 hl ▸ List.mem_cons_self)
    · exact .inr (List.mem_cons_of_mem l' hl)

theorem Join.key_of_find? {key : String} {joins : List Join} {k : Join}
    (h : find? key joins = some k) : k.key = key := by
  simpa using List.find?_some h

theorem Join.find?_eq_none_iff {key : String} {joins : List Join} :
    find? key joins = none ↔ ∀ j ∈ joins, j.key ≠ key := by
  simp [find?]

theorem Join.of_mem_replace {m k : Join} {joins : List Join} (h : k ∈ m.replace joins) :
    k = m ∨ k ∈ joins := by
  induction joins with
  | nil => cases h
  | cons j rest ih =>
    rw [replace] at h
    split at h
    · exact (List.mem_cons.1 h).imp_right (List.mem_cons_of_mem j)
    · rcases List.mem_cons.1 h with rfl | h
      · exact .inr List.mem_cons_self
      · exact (ih h).imp_right (List.mem_cons_of_mem j)

theorem Join.map_key_replace (m : Join) (joins : List Join) :
    (m.replace joins).map (·.key) = joins.map (·.key) := by
  induction joins with
  | nil => rfl
  | cons j rest ih =>
    rw [replace]
    split
    · rename_i hkey
      rw [List.map_cons, List.map_cons, hkey]
    · rw [List.map_cons, List.map_cons, ih]

theorem Join.forall_replace {P : Join → Prop} {m : Join} {joins : List Join}
    (h : ∀ j ∈ joins, P j) (hm : P m) : ∀ j ∈ m.replace joins, P j := by
  intro j hj
  rcases of_mem_replace hj with rfl | hj
  · exact hm
  · exact h j hj

section

variable {f g : Forest}

theorem Join.merge_sameTables {k j m : Join} (h : UnifyM.Runs (k.merge j) f m g) :
    k.link.isBetweenSameTables j.link = true := by
  cases j
  rw [merge] at h
  split at h
  · assumption
  · exact absurd h UnifyM.not_runs_failure

/-- What is merged is a table. -/
theorem Source.merge_everywhere {s s' t : Source} {P : Query → Prop}
    (h : UnifyM.Runs (s.merge s') f t g) : t.Everywhere P := by
  cases t with
  | table name alias? => trivial
  | nested query alias? =>
    have htable := Source.merge_tableName h
    cases s with
    | table name alias? => cases htable
    | nested query alias? => exact absurd h UnifyM.not_runs_failure

mutual

theorem Query.merge_sound : ∀ (b : Query) {a c : Query} {f g : Forest},
    a.Everywhere Query.LinksSameTables → b.Everywhere Query.LinksSameTables →
      UnifyM.Runs (a.merge b) f c g → c.Everywhere Query.LinksSameTables
  | ⟨source, clauses, joins, isQualified⟩, a, c, f, g, ha, hb, hruns => by
    obtain ⟨_, _, joins', hsource, hjoins, rfl⟩ := Query.merge_runs hruns
    have hmore := ((Query.everywhere_linksSameTables_iff _).1 hb).2
    have hmine := ((Query.everywhere_linksSameTables_iff a).1 ha).2
    exact (Query.everywhere_linksSameTables_iff _).2
      ⟨Source.merge_everywhere hsource, mergeJoins_sound joins hmine hmore hjoins⟩
termination_by structural b => b

/-- The links of a join that was merged are those of both, which link the same tables. -/
theorem Join.merge_sound : ∀ (j : Join) {k m : Join} {f g : Forest}, k.IsSound → j.IsSound →
    UnifyM.Runs (k.merge j) f m g → m.IsSound
  | ⟨key, kind, link, mergedLinks, query⟩, k, m, f, g, hk, hj, hruns => by
    have htables := Join.merge_sameTables hruns
    obtain ⟨q, hq, rfl⟩ := Join.merge_runs hruns
    refine ⟨fun l hl => ?_, query.merge_sound hk.query hj.query hq⟩
    rcases Join.of_mem_linksWith hl with hl | hl
    · exact hk.links l hl
    · rcases List.mem_cons.1 hl with rfl | hl
      · exact htables
      · exact JoinLink.isBetweenSameTables_trans htables (hj.links l hl)
termination_by structural j => j

theorem mergeJoins_sound : ∀ (more : List Join) {mine joins : List Join} {f g : Forest},
    (∀ j ∈ mine, j.IsSound) → (∀ j ∈ more, j.IsSound) →
      UnifyM.Runs (mergeJoins mine more) f joins g → ∀ j ∈ joins, j.IsSound
  | [], mine, joins, f, g, hmine, _, hruns => by
    rw [mergeJoins, UnifyM.runs_pure] at hruns
    obtain ⟨rfl, -⟩ := hruns
    exact hmine
  | j :: rest, mine, joins, f, g, hmine, hmore, hruns => by
    obtain ⟨hj, hrest⟩ := List.forall_mem_cons.1 hmore
    rw [mergeJoins] at hruns
    split at hruns
    · exact mergeJoins_sound rest (List.forall_mem_append.2 ⟨hmine, by simpa using hj⟩) hrest hruns
    · rename_i k hfind
      simp only [UnifyM.runs_bind] at hruns
      obtain ⟨m, e, hm, hruns⟩ := hruns
      have hsound := Join.merge_sound j (hmine k (List.mem_of_find?_eq_some hfind)) hj hm
      exact mergeJoins_sound rest (Join.forall_replace hmine hsound) hrest hruns
termination_by structural more => more

end

/-- **Appending a join never puts links between different tables together.** -/
theorem Query.withJoin_linksSameTables {q q' : Query} {key : String} {j : Join}
    (hq : q.Everywhere LinksSameTables) (hj : j.IsSound)
    (h : AliasM.Runs (q.withJoin key j) f q' g) : q'.Everywhere LinksSameTables := by
  obtain ⟨joins, hjoins, rfl⟩ := runs_withJoin.1 h
  obtain ⟨hsource, hmine⟩ := q.everywhere_linksSameTables_iff.1 hq
  have hmore : ∀ k ∈ [{ j with key := key }], k.IsSound := by
    simpa using (⟨hj.links, hj.query⟩ : Join.IsSound { j with key := key })
  exact (everywhere_linksSameTables_iff _).2 ⟨hsource, mergeJoins_sound _ hmine hmore hjoins⟩

end

end SqlTree
