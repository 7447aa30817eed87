import SqlTree.Proofs.Query.Qualified

/-!
# Qualifying requests without occurrences

Qualifying fails where an occurrence turns out to be of two tables, or to have two names. A request
without occurrences gets new ones only, so qualifying it always ends well
(`Query.exists_qualify`). No user named these, so nothing keeps them from being named in a statement
(`Context.exists_ofQuery`).
-/

namespace SqlTree

namespace Forest

variable {f g h : Forest} {as bs : List Alias} {a : Alias}

/-- None of the identities was given a name. -/
def LacksNames (f : Forest) (as : List Alias) : Prop := ∀ a ∈ as, (f.cell a).userName? = none

theorem LacksNames.append (has : g.LacksNames as) (hg : Grows f g as) (hbs : h.LacksNames bs)
    (hh : Grows g h bs) : h.LacksNames (as ++ bs) := by
  intro a ha
  rcases List.mem_append.1 ha with ha | ha
  · rw [hh.kept a (hg.isNew a ha).2]
    exact has a ha
  · exact hbs a ha

theorem lacksNames_of_free (ha : f.cell a = .free none) : f.LacksNames [a] := by
  intro b hb
  obtain rfl := List.mem_singleton.1 hb
  rw [ha]
  rfl

/-- A new identity can be bound to any table. -/
theorem Grows.exists_bind (hg : Grows f g [a]) (hfree : g.cell a = .free none) (name : String) :
    ∃ h, g.bind a name = .ok h ∧ h.LacksNames [a] := by
  have ha := List.mem_singleton_self a
  refine ⟨g.set a (.bound name none), ?_, fun b hb => ?_⟩
  · simp only [Forest.bind, hg.root_eq ha, hfree]
  · obtain rfl := List.mem_singleton.1 hb
    rw [cell_set_self (hg.isNew b ha).2]
    rfl

end Forest

/-! ## Qualifying -/

mutual

/-- **Qualifying a request without occurrences ends well, and names nothing.** -/
theorem Query.exists_qualify : ∀ (q : Query) (f : Forest), q.Everywhere Query.IsUnnamed →
    ∃ q' g, AliasM.Runs q.qualify f q' g ∧ g.LacksNames q'.statementAliases
  | ⟨source, clauses, joins, true⟩, f, hq => by
    have hfalse : true = false := hq.self.1
    cases hfalse
  | ⟨source, clauses, joins, false⟩, f, hq => by
    have howner := f.grows_fresh none
    obtain ⟨source', f₁, hsource, hunnamed⟩ :=
      source.exists_qualify hq.self.2 hq.source howner (f.cell_fresh_self none)
    obtain ⟨joins', f₂, hjoins, hrest⟩ := exists_qualifyJoins joins f₁ hq.joins
    refine ⟨⟨source', clauses.qualified (f.fresh none).1, joins', true⟩, f₂, ?_, ?_⟩
    · simp only [Query.qualify, AliasM.runs_bind, AliasM.runs_pure, AliasM.runs_fresh]
      exact ⟨_, _, rfl, source', f₁, hsource, joins', f₂, hjoins, rfl, rfl⟩
    · exact hunnamed.append (source.qualify_grows hq.self.2 hq.source howner hsource) hrest
        (qualifyJoins_grows joins hq.joins hjoins)

theorem Source.exists_qualify {e f : Forest} {owner : Alias} : ∀ s : Source, s.alias? = none →
    s.Everywhere Query.IsUnnamed → Forest.Grows e f [owner] → f.cell owner = .free none →
      ∃ s' g, AliasM.Runs (s.qualify owner) f s' g ∧ g.LacksNames s'.statementAliases
  | .table name (some _), hs, _, _, _ => by cases hs
  | .nested query (some _), hs, _, _, _ => by cases hs
  | .table name none, _, _, howner, hfree => by
    obtain ⟨g, hbind, hunnamed⟩ := howner.exists_bind hfree name
    refine ⟨.table name (some owner), g, ?_, hunnamed⟩
    simp only [Source.qualify, AliasM.bind, AliasM.runs_bind, AliasM.runs_pure,
      AliasM.runs_change]
    exact ⟨(), g, hbind, trivial, rfl⟩
  | .nested query none, _, hs, howner, hfree => by
    obtain ⟨query', g, hquery, hunnamed⟩ := query.exists_qualify f hs
    have hown := Forest.lacksNames_of_free hfree
    refine ⟨.nested query' (some owner), g, ?_, ?_⟩
    · simp only [Source.qualify, AliasM.runs_bind, AliasM.runs_pure]
      exact ⟨query', g, hquery, rfl, rfl⟩
    · exact hown.append howner hunnamed (query.qualify_grows hs hquery)

theorem exists_qualifyJoins : ∀ (joins : List Join) (f : Forest),
    joinsEverywhere Query.IsUnnamed joins →
      ∃ joins' g, AliasM.Runs (qualifyJoins joins) f joins' g ∧
        g.LacksNames (joinsStatementAliases joins')
  | [], f, _ => ⟨[], f, by simp [qualifyJoins], by simp [Forest.LacksNames, joinsStatementAliases]⟩
  | j :: rest, f, hj => by
    obtain ⟨j', f₁, hfirst, hunnamed⟩ := j.exists_qualify f hj.1
    obtain ⟨rest', f₂, hrest, hbehind⟩ := exists_qualifyJoins rest f₁ hj.2
    refine ⟨j' :: rest', f₂, ?_, ?_⟩
    · simp only [qualifyJoins, AliasM.runs_bind, AliasM.runs_pure]
      exact ⟨j', f₁, hfirst, rest', f₂, hrest, rfl, rfl⟩
    · exact hunnamed.append (joinQualify_grows j hj.1 hfirst) hbehind
        (qualifyJoins_grows rest hj.2 hrest)

theorem Join.exists_qualify : ∀ (j : Join) (f : Forest), joinEverywhere Query.IsUnnamed j →
    ∃ j' g, AliasM.Runs j.qualify f j' g ∧ g.LacksNames (joinStatementAliases j')
  | ⟨key, kind, link, mergedLinks, query⟩, f, hj => by
    obtain ⟨query', g, hquery, hunnamed⟩ := query.exists_qualify f hj
    refine ⟨⟨key, kind, link, mergedLinks, query'⟩, g, ?_, hunnamed⟩
    simp only [Join.qualify, AliasM.runs_bind, AliasM.runs_pure]
    exact ⟨query', g, hquery, rfl, rfl⟩

end

/-! ## Names -/

theorem repeatedName?_of_not_userGiven {os : List Occurrence}
    (hos : ∀ o ∈ os, o.isUserGiven = false) (given : List String) :
    repeatedName? given os = none := by
  induction os with
  | nil => rfl
  | cons o os ih =>
    obtain ⟨ho, hrest⟩ := List.forall_mem_cons.1 hos
    rw [repeatedName?, ho]
    exact ih hrest

/-- Occurrences that no user named can be named in a statement. -/
theorem Context.exists_ofQuery {f : Forest} {q : Query} (db : Schema)
    (hroots : ∀ a ∈ q.statementAliases, f.root a = a) (hq : f.LacksNames q.statementAliases) :
    ∃ c, Context.ofQuery f db q = .ok c := by
  have hunnamed : ∀ o ∈ f.occurrences q.statementAliases, o.isUserGiven = false := by
    intro o ho
    obtain ⟨r, hr, rfl⟩ := List.mem_map.1 ho
    obtain ⟨a, ha, rfl⟩ := List.mem_map.1 (List.mem_eraseDups.1 hr)
    rw [hroots a ha]
    simp only [Forest.occurrence, Forest.userName?, hroots a ha, hq a ha, Option.isSome_none]
  rw [ofQuery, assignNames, repeatedName?_of_not_userGiven hunnamed]
  exact ⟨_, rfl⟩

end SqlTree
