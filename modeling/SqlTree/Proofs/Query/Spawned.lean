import SqlTree.Proofs.Query.Levels
import SqlTree.Proofs.Query.Within

/-!
# Occurrences that qualifying makes

Qualifying a request gives a new occurrence to every source that has none. A source that is an
occurrence already stays that one, and no two occurrences are made one.

* `Forest.Spawns f g as`: the occurrences of `f` are the same in `g`, and the identities `as` are
  new occurrences there.
* `Query.qualify_spawns`: qualifying spawns the occurrences of the sources that had none.
* `Query.BecomesUpTo.levelAliases_nodup_iff`: the sources of a qualified level are all different
  occurrences when those of the level before were, as far as they were occurrences.
-/

namespace SqlTree

namespace Forest

/-- An identity that was not made. -/
def lacks (f : Forest) (a : Alias) : Bool := f.cells.length ≤ a.id

theorem lacks_eq_false_iff {f : Forest} {a : Alias} : f.lacks a = false ↔ f.Holds a := by
  simp [lacks, Holds]

theorem lacks_iff {f : Forest} {a : Alias} : f.lacks a = true ↔ ¬ f.Holds a := by
  simp [lacks, Holds]

/-- All occurrences of `f` are what they were in the closed forest `g`, where the identities `as`
are occurrences that were made since. -/
structure Spawns (f g : Forest) (as : List Alias) : Prop where
  grounded : g.IsGrounded
  widens : Widens f g
  root_eq : ∀ a, f.Holds a → g.root a = f.root a
  nodup : as.Nodup
  isNew : ∀ a ∈ as, ¬ f.Holds a ∧ g.Holds a ∧ g.root a = a

variable {e f g h : Forest} {as bs : List Alias} {a b : Alias}

theorem Spawns.nil (hf : f.IsGrounded) (hclosed : f.IsClosed) : Spawns f f [] :=
  ⟨hf, hclosed.widens_self, fun _ _ => rfl, .nil, by simp⟩

/-- New occurrences were not made in any earlier forest. -/
theorem Spawns.not_holds (hg : Spawns f g as) (hw : Widens e f) (ha : a ∈ as) : ¬ e.Holds a :=
  fun hold => (hg.isNew a ha).1 (hw.holds hold)

/-- **New occurrences behind new occurrences are new.** -/
theorem Spawns.append (hg : Spawns f g as) (hh : Spawns g h bs) : Spawns f h (as ++ bs) := by
  refine ⟨hh.grounded, hg.widens.trans hh.widens, ?_, ?_, ?_⟩
  · intro a ha
    rw [hh.root_eq a (hg.widens.holds ha), hg.root_eq a ha]
  · exact hg.nodup.append hh.nodup fun a ha hb => (hh.isNew a hb).1 (hg.isNew a ha).2.1
  · intro a ha
    rcases List.mem_append.1 ha with ha | ha
    · obtain ⟨hnew, hmade, hroot⟩ := hg.isNew a ha
      exact ⟨hnew, hh.widens.holds hmade, by rw [hh.root_eq a hmade, hroot]⟩
    · obtain ⟨hnew, hmade, hroot⟩ := hh.isNew a ha
      exact ⟨fun hold => hnew (hg.widens.holds hold), hmade, hroot⟩

theorem spawns_fresh (hf : f.IsGrounded) (hclosed : f.IsClosed) (name? : Option String) :
    Spawns f (f.fresh name?).2 [(f.fresh name?).1] := by
  obtain ⟨hcoarsens, hroot⟩ := (sameProxies_fresh f name?).root_eq hf
  refine ⟨hcoarsens.grounded, fresh_widens hclosed name?, fun a _ => hroot a,
    List.nodup_singleton _, fun a ha => ?_⟩
  obtain rfl := List.mem_singleton.1 ha
  have hmade := f.made_fresh name?
  exact ⟨Nat.lt_irrefl _, hmade.2, hmade.1.root_eq⟩

theorem Spawns.bind {name : String} (hg : Spawns f g as) (hh : g.bind a name = .ok h) :
    Spawns f h as := by
  have hsame := sameProxies_bind hg.grounded hh
  obtain ⟨hcoarsens, hroot⟩ := hsame.root_eq hg.grounded
  have hwidens := hsame.widens hg.widens.closed
  refine ⟨hcoarsens.grounded, hg.widens.trans hwidens, ?_, hg.nodup, ?_⟩
  · intro b hb
    rw [hroot, hg.root_eq b hb]
  · intro b hb
    obtain ⟨hnew, hmade, hbroot⟩ := hg.isNew b hb
    exact ⟨hnew, hwidens.holds hmade, by rw [hroot, hbroot]⟩

/-- A new identity that is made the occurrence of another one is no new occurrence. -/
theorem Spawns.link (hf : f.IsClosed) (hg : Spawns f g [a]) (hb : g.Holds b)
    (hh : g.link a b = .ok h) : Spawns f h [] := by
  obtain ⟨hcoarsens, -, hkept⟩ := link_root_eq hg.grounded hh
  refine ⟨hcoarsens.grounded, hg.widens.trans (link_widens hg.grounded hg.widens.closed hb hh), ?_,
    .nil, by simp⟩
  intro c hc
  obtain ⟨hnew, -, hroot⟩ := hg.isNew a (List.mem_singleton_self a)
  rw [hkept c, hg.root_eq c hc]
  rw [hroot, hg.root_eq c hc]
  rintro rfl
  exact hnew (hf.holds_root hc)

end Forest

/-! ## Qualifying -/

/-- The sources of a request have the identities of its forest. -/
theorem Query.IsWithin.holds {f : Forest} : ∀ q : Query, q.IsWithin f →
    ∀ a ∈ q.statementAliases, f.Holds a := by
  refine Query.nestedInduction fun q ih hq a ha => ?_
  rw [Query.statementAliases_eq, List.mem_flatMap] at ha
  obtain ⟨n, hn, ha⟩ := ha
  have hnode := Query.Everywhere.of_mem_nodes q hq n hn
  have hown := hnode.self.source
  have hnested := hnode.source
  cases hsource : n.source with
  | table name alias? =>
    rw [hsource] at ha hown
    exact hown a (Option.mem_toList.1 ha)
  | nested inner alias? =>
    rw [hsource] at ha hown hnested
    rcases List.mem_append.1 ha with ha | ha
    · exact hown a (Option.mem_toList.1 ha)
    · exact ih n hn inner alias? hsource hnested a ha

/-- What is qualified is given new occurrences only. -/
abbrev Query.QualifiedAnew (e : Forest) : Query → Query → Prop :=
  Query.QualifiedUpTo fun owner _ => ¬ e.Holds owner

/-- What a request becomes that is given new occurrences only. -/
abbrev Query.BecomesAnew (e : Forest) : Query → Query → Prop :=
  Query.BecomesUpTo fun owner _ => ¬ e.Holds owner

section

variable {e : Forest}

theorem Forest.filter_lacks_of_not_holds {a : Alias} (h : ¬ e.Holds a) :
    [a].filter e.lacks = [a] := by
  rw [List.filter_singleton, Forest.lacks_iff.2 h]
  rfl

theorem Forest.filter_lacks_of_holds {as : List Alias} (h : ∀ a ∈ as, e.Holds a) :
    as.filter e.lacks = [] := by
  rw [List.filter_eq_nil_iff]
  intro a ha
  rw [Bool.not_eq_true, Forest.lacks_eq_false_iff]
  exact h a ha

mutual

/-- **Qualifying spawns the occurrences of the sources that had none.** -/
theorem Query.qualify_spawns : ∀ (q : Query) {f g : Forest} {q' : Query}, f.IsGrounded →
    Forest.Widens e f → q.IsWithin e → AliasM.Runs q.qualify f q' g →
      Forest.Spawns f g (q'.statementAliases.filter e.lacks) ∧ q.QualifiedAnew e q'
  | ⟨source, clauses, joins, true⟩, f, g, q', hf, hw, hq, h => by
    rw [Query.qualify, AliasM.runs_pure] at h
    obtain ⟨rfl, rfl⟩ := h
    rw [Forest.filter_lacks_of_holds (Query.IsWithin.holds _ hq)]
    exact ⟨.nil hf hw.closed, .kept⟩
  | ⟨source, clauses, joins, false⟩, f, g, q', hf, hw, hq, h => by
    simp only [Query.qualify, AliasM.runs_bind, AliasM.runs_pure, AliasM.runs_fresh] at h
    obtain ⟨owner, f₁, ⟨rfl, rfl⟩, source', f₂, hsource, joins', f₃, hjoins, rfl, rfl⟩ := h
    have hfresh := Forest.spawns_fresh hf hw.closed none
    obtain ⟨hspawns, hs⟩ := source.qualify_spawns hw hq.self.source hq.source hfresh hsource
    obtain ⟨hrest, hj⟩ := qualifyJoins_spawns joins hspawns.grounded
      (hw.trans hspawns.widens) hq.joins hjoins
    rw [Query.statementAliases, List.filter_append]
    exact ⟨hspawns.append hrest, .made hs hj⟩
termination_by structural q => q

theorem Source.qualify_spawns {f₀ f : Forest} {owner : Alias} : ∀ (s : Source) {g : Forest}
    {s' : Source}, Forest.Widens e f₀ → (∀ a ∈ s.alias?, e.Holds a) →
      s.Everywhere (Query.IsNodeWithin e) → Forest.Spawns f₀ f [owner] →
        AliasM.Runs (s.qualify owner) f s' g →
          Forest.Spawns f₀ g (s'.statementAliases.filter e.lacks) ∧
            s.QualifiedUpTo (fun owner _ => ¬ e.Holds owner) owner s'
  | .table name none, g, s', hw, _, _, howner, h => by
    simp only [Source.qualify, AliasM.bind, AliasM.runs_bind, AliasM.runs_pure,
      AliasM.runs_change] at h
    obtain ⟨_, f', hbind, rfl, rfl⟩ := h
    have hnew := howner.not_holds hw (List.mem_singleton_self owner)
    refine ⟨?_, .table hnew⟩
    rw [Source.statementAliases, Option.toList_some, Forest.filter_lacks_of_not_holds hnew]
    exact howner.bind hbind
  | .table name (some own), g, s', hw, hown, _, howner, h => by
    simp only [Source.qualify, AliasM.bind, AliasM.link, AliasM.runs_bind, AliasM.runs_pure,
      AliasM.runs_change] at h
    obtain ⟨_, f₁, hbind, _, f₂, hlink, rfl, rfl⟩ := h
    have hnew := howner.not_holds hw (List.mem_singleton_self owner)
    have hheld := hown own rfl
    have hbound := howner.bind hbind
    refine ⟨?_, .table hnew⟩
    rw [Source.statementAliases, Option.toList_some,
      Forest.filter_lacks_of_holds (by simpa using hheld)]
    exact hbound.link hw.closed (hbound.widens.holds (hw.holds hheld)) hlink
  | .nested query none, g, s', hw, _, hs, howner, h => by
    simp only [Source.qualify, AliasM.runs_bind, AliasM.runs_pure] at h
    obtain ⟨query', f', hquery, rfl, rfl⟩ := h
    have hnew := howner.not_holds hw (List.mem_singleton_self owner)
    obtain ⟨hinner, hq⟩ := query.qualify_spawns howner.grounded (hw.trans howner.widens) hs hquery
    refine ⟨?_, .nested hnew hq⟩
    rw [Source.statementAliases, Option.toList_some, List.filter_append,
      Forest.filter_lacks_of_not_holds hnew]
    exact howner.append hinner
  | .nested query (some own), g, s', hw, hown, hs, howner, h => by
    simp only [Source.qualify, AliasM.link, AliasM.runs_bind, AliasM.runs_pure,
      AliasM.runs_change] at h
    obtain ⟨_, f₁, hlink, query', f₂, hquery, rfl, rfl⟩ := h
    have hnew := howner.not_holds hw (List.mem_singleton_self owner)
    have hheld := hown own rfl
    have hlinked := howner.link hw.closed (howner.widens.holds (hw.holds hheld)) hlink
    obtain ⟨hinner, hq⟩ := query.qualify_spawns hlinked.grounded (hw.trans hlinked.widens) hs hquery
    refine ⟨?_, .nested hnew hq⟩
    rw [Source.statementAliases, Option.toList_some, List.filter_append,
      Forest.filter_lacks_of_holds (by simpa using hheld)]
    exact hlinked.append hinner
termination_by structural s => s

theorem qualifyJoins_spawns : ∀ (joins : List Join) {f g : Forest} {joins' : List Join},
    f.IsGrounded → Forest.Widens e f → joinsEverywhere (Query.IsNodeWithin e) joins →
      AliasM.Runs (qualifyJoins joins) f joins' g →
        Forest.Spawns f g ((joinsStatementAliases joins').filter e.lacks) ∧
          JoinsQualifiedUpTo (fun owner _ => ¬ e.Holds owner) joins joins'
  | [], f, g, joins', hf, hw, _, h => by
    rw [qualifyJoins, AliasM.runs_pure] at h
    obtain ⟨rfl, rfl⟩ := h
    exact ⟨.nil hf hw.closed, .nil⟩
  | j :: rest, f, g, joins', hf, hw, hj, h => by
    simp only [qualifyJoins, AliasM.runs_bind, AliasM.runs_pure] at h
    obtain ⟨j', f₁, hfirst, rest', f₂, hrest, rfl, rfl⟩ := h
    obtain ⟨hspawns, q', rfl, hq⟩ := Join.qualify_spawns j hf hw hj.1 hfirst
    obtain ⟨hbehind, hrest⟩ := qualifyJoins_spawns rest hspawns.grounded
      (hw.trans hspawns.widens) hj.2 hrest
    rw [joinsStatementAliases, List.filter_append]
    exact ⟨hspawns.append hbehind, .cons hq hrest⟩
termination_by structural joins => joins

theorem Join.qualify_spawns : ∀ (j : Join) {f g : Forest} {j' : Join}, f.IsGrounded →
    Forest.Widens e f → joinEverywhere (Query.IsNodeWithin e) j → AliasM.Runs j.qualify f j' g →
      Forest.Spawns f g ((joinStatementAliases j').filter e.lacks) ∧
        ∃ q', j' = { j with query := q' } ∧ j.query.QualifiedAnew e q'
  | ⟨key, kind, link, mergedLinks, query⟩, f, g, j', hf, hw, hj, h => by
    simp only [Join.qualify, AliasM.runs_bind, AliasM.runs_pure] at h
    obtain ⟨q', f₁, hquery, rfl, rfl⟩ := h
    obtain ⟨hspawns, hq⟩ := query.qualify_spawns hf hw hj hquery
    exact ⟨hspawns, q', rfl, hq⟩
termination_by structural j => j

end

end

/-! ## Levels -/

section

variable {e g : Forest} {q q' p p' n n' : Query}

namespace Query.BecomesUpTo

/-- The occurrence of a source is the one that it was, or new. -/
theorem alias?_filter (h : n.BecomesAnew e n')
    (hn : ∀ a ∈ n.source.alias?, e.Holds a) :
    n'.source.alias?.toList.filter (!e.lacks ·) = n.source.alias?.toList := by
  have hheld : ∀ a, e.Holds a → [a].filter (!e.lacks ·) = [a] := by
    intro a ha
    rw [List.filter_singleton, Forest.lacks_eq_false_iff.2 ha]
    rfl
  have hkept : n.source.alias?.toList.filter (!e.lacks ·) = n.source.alias?.toList := by
    cases ha : n.source.alias? with
    | none => rfl
    | some a => exact hheld a (hn a ha)
  rcases h.cases with rfl | ⟨owner, hmade⟩
  · exact hkept
  · rw [hmade.source.alias?_eq]
    cases ha : n.source.alias? with
    | none =>
      have hnew := hmade.source.same_getD
      rw [Option.getD_none, Option.toList_some, List.filter_singleton, Forest.lacks_iff.2 hnew]
      rfl
    | some a => exact hheld a (hn a ha)

/-- The occurrences that a qualified level has from before are those of the level. -/
theorem levelAliases_filter (h : p.BecomesAnew e p')
    (hp : p.IsWithin e) : p'.levelAliases.filter (!e.lacks ·) = p.levelAliases := by
  rw [Query.levelAliases_eq, Query.levelAliases_eq, List.filter_flatMap]
  symm
  have hnodes := (List.forall₂_and_left p.nodes p'.nodes).2
    ⟨fun n hn => (Query.Everywhere.of_mem_nodes p hp n hn).self.source, keepsShape.nodes h⟩
  exact flatMap_eq_of_forall₂ (fun n n' ⟨hn, hnode⟩ => (alias?_filter hnode hn).symm) hnodes

/-- **The sources of a qualified level are different occurrences when those that were occurrences
before were different ones.** -/
theorem levelAliases_nodup_iff (h : p.BecomesAnew e p')
    (hp : p.IsWithin e) (hclosed : e.IsClosed) (hp' : q'.HasLevel p')
    (hg : Forest.Spawns e g (q'.statementAliases.filter e.lacks)) :
    (p'.levelAliases.map g.root).Nodup ↔ (p.levelAliases.map e.root).Nodup := by
  have hfilter := h.levelAliases_filter hp
  have hheld : ∀ a ∈ p.levelAliases, e.Holds a := fun a ha =>
    Query.IsWithin.holds p hp a (p.levelAliases_sublist.subset ha)
  have hroots : p.levelAliases.map g.root = p.levelAliases.map e.root :=
    List.map_congr_left fun a ha => hg.root_eq a (hheld a ha)
  have hsub : (p'.levelAliases.filter e.lacks).Sublist (q'.statementAliases.filter e.lacks) :=
    (p'.levelAliases_sublist.trans hp'.statementAliases_sublist).filter e.lacks
  have hnew : (p'.levelAliases.filter e.lacks).map g.root = p'.levelAliases.filter e.lacks := by
    rw [List.map_congr_left fun a ha => (hg.isNew a (hsub.subset ha)).2.2, List.map_id']
  have hperm : ((p'.levelAliases.filter e.lacks ++ p.levelAliases).map g.root).Perm
      (p'.levelAliases.map g.root) := by
    rw [← hfilter]
    exact (List.filter_append_perm e.lacks p'.levelAliases).map g.root
  rw [← hperm.nodup_iff, List.map_append, hnew, hroots, List.nodup_append']
  refine ⟨fun hnodup => hnodup.2.1, fun hnodup => ⟨hsub.nodup hg.nodup, hnodup, ?_⟩⟩
  intro a ha hroot
  obtain ⟨b, hb, rfl⟩ := List.mem_map.1 hroot
  exact (hg.isNew _ (hsub.subset ha)).1 (hclosed.holds_root (hheld b hb))

end Query.BecomesUpTo

end

end SqlTree
