import SqlTree.Proofs.Query.Over
import SqlTree.Proofs.Row.LaidOut
import SqlTree.Proofs.Row.StarWidths

/-!
# Layouts before and after qualifying

The width of a request and the layout of its rows can be asked for before it is qualified. The star
of another occurrence is counted by the table that this is bound to, and while it is bound to none,
as a star of the source at hand. Qualifying binds occurrences, so a star may be late: it is counted
in one way before and in another one after.

* `Query.qualify_tells`: a source gets an occurrence of its own, or the one that it has.
* `Query.QualifiedUpTo.laidOutAs`: so it makes no difference to ask the qualified request, in the
  forest that qualifying leaves.
* `SelectItem.StaysCounted` says of an item, from what is known before, that it is counted as it
  will be. `Query.qualify_layout_iff`: an item is counted alike before and after just when it stays
  counted, and where all items do, the width and the layout are the same.
-/

namespace SqlTree

/-! ## Occurrences of qualified sources -/

/-- The identity `owner` is of the occurrence `own`. Where it is that one itself, it is of no `old`
occurrence. -/
structure Forest.Tells (f : Forest) (old : Alias → Prop) (owner own : Alias) : Prop where
  same : f.root owner = f.root own
  apart : owner = own → ∀ a, old a → f.root owner ≠ f.root a

section

variable {old : Alias → Prop} {h : Forest}

/-- An identity that was blank is of no old occurrence as long as occurrences stay. -/
theorem Forest.IsBlank.tells {f g : Forest} {owner : Alias}
    {bindings : List (Alias × String)} (hblank : f.IsBlank owner) (howner : f.Holds owner)
    (hnew : ¬ old owner) (hold : ∀ a, old a → f.Holds a)
    (hg : Forest.BindsTo f.Holds bindings f g) (hh : ∀ a, g.Holds a → h.root a = g.root a) :
    h.Tells old owner owner := by
  refine ⟨rfl, fun _ a ha => ?_⟩
  have hheld := hold a ha
  rw [hh a (hg.widens.holds hheld), hg.root a hheld, hh owner (hg.widens.holds howner),
    hg.root owner howner]
  refine hblank.root_ne ?_
  rintro rfl
  exact hnew ha

/-- An identity linked to another one stays of its occurrence. -/
theorem Forest.IsBlank.tells_link {f g : Forest} {owner own : Alias} (hblank : f.IsBlank owner)
    (hf : f.IsGrounded) (hclosed : f.IsClosed) (howner : f.Holds owner) (hown : f.Holds own)
    (hne : own ≠ owner) (hg : f.link owner own = .ok g)
    (hh : ∀ a, g.Holds a → h.root a = g.root a) : h.Tells old owner own := by
  refine ⟨?_, fun heq => absurd heq.symm hne⟩
  obtain ⟨g', hg', hlength, hentry⟩ := hblank.link hf hclosed howner hown
  obtain rfl := Except.ok.inj (hg'.symm.trans hg)
  rw [hh owner (howner.of_length_eq hlength), hh own (hown.of_length_eq hlength)]
  refine congrArg Entry.root ((hentry owner).trans ((hentry own).trans ?_).symm)
  rw [Forest.instead, Forest.instead, if_neg hne, if_pos rfl]

mutual

/-- **What sources are given is told apart from old occurrences**, unless they had an occurrence:
also in later forests, whose occurrences are those in the forest left. -/
theorem Query.qualify_tells : ∀ (q : Query) {f g : Forest} {q' : Query}, f.IsGrounded →
    f.IsClosed → q.IsWithin f → (∀ a, old a → f.Holds a) → AliasM.Runs q.qualify f q' g →
      (∀ a, g.Holds a → h.root a = g.root a) → q.QualifiedUpTo (h.Tells old) q'
  | ⟨source, clauses, joins, true⟩, f, g, q', _, _, _, _, hruns, _ => by
    rw [Query.qualify, AliasM.runs_pure] at hruns
    obtain ⟨rfl, -⟩ := hruns
    exact .kept
  | ⟨source, clauses, joins, false⟩, f, g, q', hf, hclosed, hq, hold, hruns, hh => by
    simp only [Query.qualify, AliasM.runs_bind, AliasM.runs_pure] at hruns
    obtain ⟨owner, f₁, hfresh, source', f₂, hsource, joins', f₃, hjoins, rfl, rfl⟩ := hruns
    obtain ⟨rfl, rfl⟩ : owner = (f.fresh none).1 ∧ f₁ = (f.fresh none).2 :=
      Prod.mk.inj (AliasM.runs_fresh.1 hfresh)
    have h₁ : Forest.BindsTo f.Holds [] f (f.fresh none).2 := Forest.bindsTo_fresh hf hclosed
    have hnew : ∀ {a}, f.Holds a → a ≠ (f.fresh none).1 := by
      rintro a ha rfl
      exact Nat.lt_irrefl _ ha
    obtain ⟨hw₂, -⟩ := source.qualify_within h₁.grounded h₁.widens.closed (f.made_fresh none).2
      (fun a ha => h₁.widens.holds (hq.self.source a ha))
      (Source.everywhere_mono (Query.IsNodeWithin.mono h₁.widens) source hq.source) hsource
    have hf₂ := (source.qualify_coarsens h₁.grounded hsource).grounded
    have hbelow := joinsEverywhere_mono (Query.IsNodeWithin.mono (h₁.widens.trans hw₂)) joins
      hq.joins
    have h₃ := (qualifyJoins_binds joins hf₂ hw₂.closed hbelow (fun _ ha => ha)
      (joinsOpenTables_held joins hbelow)).runs _ _ hjoins
    refine .made (source.qualify_tells h₁.grounded h₁.widens.closed
      (fun a ha => ⟨h₁.widens.holds (hq.self.source a ha), hnew (hq.self.source a ha)⟩)
      (Source.everywhere_mono (Query.IsNodeWithin.mono h₁.widens) source hq.source)
      (Forest.isBlank_fresh hf hclosed) (f.made_fresh none).2 (fun h => hnew (hold _ h) rfl)
      (fun a ha => h₁.widens.holds (hold a ha)) hsource fun a ha => ?_)
      (qualifyJoins_tells joins hf₂ hw₂.closed hbelow
        (fun a ha => hw₂.holds (h₁.widens.holds (hold a ha))) hjoins hh)
    rw [hh a (h₃.widens.holds ha), h₃.root a ha]
termination_by structural q => q

theorem Source.qualify_tells : ∀ (s : Source) {f g : Forest} {owner : Alias} {s' : Source},
    f.IsGrounded → f.IsClosed → (∀ a ∈ s.alias?, f.Holds a ∧ a ≠ owner) →
      s.Everywhere (Query.IsNodeWithin f) → f.IsBlank owner → f.Holds owner → ¬ old owner →
      (∀ a, old a → f.Holds a) → AliasM.Runs (s.qualify owner) f s' g →
      (∀ a, g.Holds a → h.root a = g.root a) → s.QualifiedUpTo (h.Tells old) owner s'
  | .table name none, f, g, owner, s', hf, hclosed, _, _, hblank, hheld, hnew, hold, hruns, hh => by
    simp only [Source.qualify, AliasM.bind, AliasM.runs_bind, AliasM.runs_pure,
      AliasM.runs_change] at hruns
    obtain ⟨_, f₁, hbind, rfl, rfl⟩ := hruns
    exact .table (hblank.tells hheld hnew hold (Forest.bindsTo_bind hf hclosed hheld hbind) hh)
  | .table name (some own), f, g, owner, s', hf, hclosed, hown, _, hblank, hheld, _, _, hruns,
      hh => by
    simp only [Source.qualify, AliasM.bind, AliasM.link, AliasM.runs_bind, AliasM.runs_pure,
      AliasM.runs_change] at hruns
    obtain ⟨_, f₁, hbind, _, f₂, hlink, rfl, rfl⟩ := hruns
    obtain ⟨hownHeld, hne⟩ := hown own rfl
    have hw := Forest.bind_widens hf hclosed hbind
    exact .table ((hblank.bind hf hclosed hownHeld hne hbind).tells_link
      (Forest.bind_coarsens hf hbind).grounded hw.closed (hw.holds hheld) (hw.holds hownHeld) hne
      hlink hh)
  | .nested query none, f, g, owner, s', hf, hclosed, _, hs, hblank, hheld, hnew, hold, hruns,
      hh => by
    simp only [Source.qualify, AliasM.runs_bind, AliasM.runs_pure] at hruns
    obtain ⟨query', f₁, hquery, rfl, rfl⟩ := hruns
    have hg := (query.qualify_binds hf hclosed hs (fun _ ha => ha)
      (query.openTables_held hs)).runs _ _ hquery
    exact .nested (hblank.tells hheld hnew hold hg hh)
      (query.qualify_tells hf hclosed hs hold hquery hh)
  | .nested query (some own), f, g, owner, s', hf, hclosed, hown, hs, hblank, hheld, _, hold,
      hruns, hh => by
    simp only [Source.qualify, AliasM.link, AliasM.runs_bind, AliasM.runs_pure,
      AliasM.runs_change] at hruns
    obtain ⟨_, f₁, hlink, query', f₂, hquery, rfl, rfl⟩ := hruns
    obtain ⟨hownHeld, hne⟩ := hown own rfl
    have hf₁ := (Forest.link_root_eq hf hlink).1.grounded
    have hw := Forest.link_widens hf hclosed hownHeld hlink
    have hs₁ := Query.Everywhere.mono (Query.IsNodeWithin.mono hw) query hs
    have hg := (query.qualify_binds hf₁ hw.closed hs₁ (fun _ ha => ha)
      (query.openTables_held hs₁)).runs _ _ hquery
    refine .nested (hblank.tells_link hf hclosed hheld hownHeld hne hlink fun a ha => ?_)
      (query.qualify_tells hf₁ hw.closed hs₁ (fun a ha => hw.holds (hold a ha)) hquery hh)
    rw [hh a (hg.widens.holds ha), hg.root a ha]
termination_by structural s => s

theorem qualifyJoins_tells : ∀ (joins : List Join) {f g : Forest} {joins' : List Join},
    f.IsGrounded → f.IsClosed → joinsEverywhere (Query.IsNodeWithin f) joins →
      (∀ a, old a → f.Holds a) → AliasM.Runs (qualifyJoins joins) f joins' g →
      (∀ a, g.Holds a → h.root a = g.root a) → JoinsQualifiedUpTo (h.Tells old) joins joins'
  | [], f, g, joins', _, _, _, _, hruns, _ => by
    rw [qualifyJoins, AliasM.runs_pure] at hruns
    obtain ⟨rfl, -⟩ := hruns
    exact .nil
  | ⟨key, kind, link, mergedLinks, query⟩ :: rest, f, g, joins', hf, hclosed, hj, hold, hruns,
      hh => by
    simp only [qualifyJoins, Join.qualify, AliasM.runs_bind, AliasM.runs_pure] at hruns
    obtain ⟨_, f₁, ⟨query', _, hquery, rfl, rfl⟩, rest', f₂, hrest, rfl, rfl⟩ := hruns
    have hf₁ := (query.qualify_coarsens hf hquery).grounded
    obtain ⟨hw, -⟩ := query.qualify_within hf hclosed hj.1 hquery
    have hbelow := joinsEverywhere_mono (Query.IsNodeWithin.mono hw) rest hj.2
    have hg := (qualifyJoins_binds rest hf₁ hw.closed hbelow (fun _ ha => ha)
      (joinsOpenTables_held rest hbelow)).runs _ _ hrest
    refine .cons (query.qualify_tells hf hclosed hj.1 hold hquery fun a ha => ?_)
      (qualifyJoins_tells rest hf₁ hw.closed hbelow (fun a ha => hw.holds (hold a ha)) hrest hh)
    rw [hh a (hg.widens.holds ha), hg.root a ha]
termination_by structural joins => joins

end

/-! ## Counting what was qualified -/

variable {f g : Forest} {db : Schema}

/-- An item is counted as before it was qualified. -/
theorem SelectItem.width_qualified {owner : Alias} {own? : Option Alias}
    (htells : h.Tells old owner (own?.getD owner)) {i : SelectItem Alias} (hi : i.IsOver old)
    (w : Except CompileError Nat) :
    (i.qualified owner).width h db (some (own?.getD owner)) w = i.width h db own? w := by
  match i with
  | expr e name? => rfl
  | star none =>
    have hsame : (some (own?.getD owner)).any (h.isSame · owner) = true := by
      rw [Option.any_some, Forest.isSame_iff]
      exact htells.same.symm
    rw [SelectItem.qualified, SelectItem.width, SelectItem.width, if_pos hsame]
  | star (some a) =>
    have hany : (some (own?.getD owner)).any (h.isSame · a) = own?.any (h.isSame · a) := by
      cases own? with
      | some own => rfl
      | none =>
        rw [Option.any_some, Option.any_none, Bool.eq_false_iff, Ne, Forest.isSame_iff]
        exact htells.apart rfl a (hi a rfl)
    rw [SelectItem.qualified, SelectItem.width, SelectItem.width, hany]

theorem itemsWidth_qualified {owner : Alias} {own? : Option Alias}
    (htells : h.Tells old owner (own?.getD owner)) (w : Except CompileError Nat) :
    ∀ {items : List (SelectItem Alias)}, (∀ i ∈ items, i.IsOver old) →
      itemsWidth h db (some (own?.getD owner)) w (items.map (·.qualified owner)) =
        itemsWidth h db own? w items
  | [], _ => rfl
  | i :: items, hi => by
    rw [List.map_cons, itemsWidth, itemsWidth,
      SelectItem.width_qualified htells (hi i List.mem_cons_self),
      itemsWidth_qualified htells w fun i hmem => hi i (List.mem_cons_of_mem _ hmem)]

mutual

/-- **A qualified request is laid out as it was.** -/
theorem Query.QualifiedUpTo.laidOutAs : ∀ {q q' : Query}, q.QualifiedUpTo (h.Tells old) q' →
    q.IsOver old → q.LaidOutAs h h db q'
  | ⟨_, _, _, _⟩, _, .kept, _ => Query.laidOutAs_self _
  | _, _, .made hsource hjoins, hq => by
    refine .node ?_ (hjoins.laidOutAs hq.joins)
    rw [hsource.alias?_eq, hsource.width_eq hq.source]
    exact itemsWidth_qualified hsource.same_getD _ hq.self.selection

theorem Source.QualifiedUpTo.width_eq : ∀ {owner : Alias} {s s' : Source},
    s.QualifiedUpTo (h.Tells old) owner s' → s.Everywhere (Query.IsNodeOver old) →
      s'.width h db = s.width h db
  | _, _, _, .table _, _ => by rw [Source.width, Source.width]
  | _, _, _, .nested _ hq, hover => by
    rw [Source.width, Source.width, (hq.laidOutAs hover).width_eq]

theorem JoinsQualifiedUpTo.laidOutAs : ∀ {joins joins' : List Join},
    JoinsQualifiedUpTo (h.Tells old) joins joins' →
      joinsEverywhere (Query.IsNodeOver old) joins → JoinsLaidOutAs h h db joins joins'
  | _, _, .nil, _ => .nil
  | ⟨_, _, _, _, _⟩ :: _, _, .cons hq hrest, hover =>
    .cons (hq.laidOutAs hover.1) (hrest.laidOutAs hover.2)

end

end

/-! ## Late stars -/

section

variable {f g : Forest} {db : Schema} {opened : List (Alias × String)}

/-- The item, selected by the node `n`, is counted as it will be when the tables `opened` are known.
All items are but the star of an occurrence that is not that of the source, has no table yet and
gets one: this has to have as many columns as the source. -/
def SelectItem.StaysCounted (f : Forest) (db : Schema) (opened : List (Alias × String))
    (n : Query) : SelectItem Alias → Prop
  | star (some owner) => n.source.alias?.any (f.isSame · owner) = false →
      f.tableName? owner = none → ∀ t, f.firstBinding opened owner = some t →
        db.columnCount t = n.source.width f db
  | _ => True

/-- All items that a node selects are counted as they will be. -/
def Query.StaysCounted (f : Forest) (db : Schema) (opened : List (Alias × String))
    (n : Query) : Prop :=
  ∀ i ∈ n.clauses.selection, i.StaysCounted f db opened n

/-- All items that a node selects are counted alike in two forests. -/
def Query.CountedAlike (f g : Forest) (db : Schema) (n : Query) : Prop :=
  ∀ i ∈ n.clauses.selection, n.itemWidth g db i = n.itemWidth f db i

/-- **When an item is counted alike**, where its source is. -/
theorem SelectItem.width_eq_iff (hg : Forest.BindsTo f.Holds opened f g) {n : Query}
    (hn : n.IsNodeWithin f) (hwidth : n.source.width g db = n.source.width f db)
    {i : SelectItem Alias} (hi : i ∈ n.clauses.selection) :
    n.itemWidth g db i = n.itemWidth f db i ↔ i.StaysCounted f db opened n := by
  have hheld := hn.selection i hi
  rcases i with ⟨_ | owner⟩ | ⟨e, name?⟩
  case star.none => exact iff_of_true hwidth trivial
  case expr => exact iff_of_true rfl trivial
  case star.some =>
    have howner : f.Holds owner := hheld owner rfl
    have hany :
        n.source.alias?.any (g.isSame · owner) = n.source.alias?.any (f.isSame · owner) := by
      cases hown : n.source.alias? with
      | none => rfl
      | some own =>
        rw [Option.any_some, Option.any_some, Forest.isSame, Forest.isSame, hg.root owner howner,
          hg.root own (hn.source own hown)]
    rw [Query.itemWidth, Query.itemWidth, width, width, hany, hwidth, hg.tableName? owner howner,
      StaysCounted]
    cases n.source.alias?.any (f.isSame · owner) with
    | true => exact iff_of_true rfl fun h => absurd h.symm Bool.false_ne_true
    | false =>
      cases f.tableName? owner with
      | some t => exact iff_of_true rfl fun _ h => absurd h (Option.some_ne_none t)
      | none =>
        cases f.firstBinding opened owner with
        | none => exact iff_of_true rfl fun _ _ t h => absurd h.symm (Option.some_ne_none t)
        | some t =>
          exact ⟨fun heq _ _ t' ht' => Option.some.inj ht' ▸ heq, fun h => h rfl rfl t rfl⟩

mutual

/-- **When all items of a request are counted alike**, and then it is laid out alike. -/
theorem Query.countedAlike_iff (hg : Forest.BindsTo f.Holds opened f g) : ∀ q : Query,
    q.IsWithin f →
      (q.Everywhere (Query.CountedAlike f g db) ↔
        q.Everywhere (Query.StaysCounted f db opened)) ∧
      (q.Everywhere (Query.CountedAlike f g db) → q.LaidOutAs f g db q)
  | ⟨source, clauses, joins, isQualified⟩, hq => by
    obtain ⟨hsourceIff, hsourceWidth⟩ := Source.countedAlike_iff hg source hq.source
    obtain ⟨hjoinsIff, hjoinsLaid⟩ := joinsCountedAlike_iff hg joins hq.joins
    have hnode : ∀ hwidth : source.width g db = source.width f db,
        Query.CountedAlike f g db ⟨source, clauses, joins, isQualified⟩ ↔
          Query.StaysCounted f db opened ⟨source, clauses, joins, isQualified⟩ := fun hwidth =>
      forall₂_congr fun i hi => SelectItem.width_eq_iff hg hq.self hwidth hi
    refine ⟨⟨fun ⟨hown, hsource, hjoins⟩ => ?_, fun ⟨hown, hsource, hjoins⟩ => ?_⟩,
      fun ⟨hown, hsource, hjoins⟩ => .node ?_ (hjoinsLaid hjoins)⟩
    · exact ⟨(hnode (hsourceWidth hsource)).1 hown, hsourceIff.1 hsource, hjoinsIff.1 hjoins⟩
    · have hsource' := hsourceIff.2 hsource
      exact ⟨(hnode (hsourceWidth hsource')).2 hown, hsource', hjoinsIff.2 hjoins⟩
    · rw [itemsWidth_eq_total, itemsWidth_eq_total]
      exact congrArg total (List.map_congr_left hown)

theorem Source.countedAlike_iff (hg : Forest.BindsTo f.Holds opened f g) : ∀ s : Source,
    s.Everywhere (Query.IsNodeWithin f) →
      (s.Everywhere (Query.CountedAlike f g db) ↔
        s.Everywhere (Query.StaysCounted f db opened)) ∧
      (s.Everywhere (Query.CountedAlike f g db) → s.width g db = s.width f db)
  | .table name _, _ => ⟨Iff.rfl, fun _ => by rw [Source.width, Source.width]⟩
  | .nested query _, hs => by
    obtain ⟨hiff, hlaid⟩ := Query.countedAlike_iff hg query hs
    refine ⟨hiff, fun hquery => ?_⟩
    rw [Source.width, Source.width, (hlaid hquery).width_eq]

theorem joinsCountedAlike_iff (hg : Forest.BindsTo f.Holds opened f g) : ∀ joins : List Join,
    joinsEverywhere (Query.IsNodeWithin f) joins →
      (joinsEverywhere (Query.CountedAlike f g db) joins ↔
        joinsEverywhere (Query.StaysCounted f db opened) joins) ∧
      (joinsEverywhere (Query.CountedAlike f g db) joins → JoinsLaidOutAs f g db joins joins)
  | [], _ => ⟨Iff.rfl, fun _ => .nil⟩
  | ⟨_, _, _, _, query⟩ :: rest, hj => by
    obtain ⟨hiff, hlaid⟩ := Query.countedAlike_iff hg query hj.1
    obtain ⟨hrestIff, hrestLaid⟩ := joinsCountedAlike_iff hg rest hj.2
    exact ⟨and_congr hiff hrestIff, fun ⟨hquery, hrest⟩ =>
      .cons (hlaid hquery) (hrestLaid hrest)⟩

end

end

/-- **The layout and the width before and after qualifying.** In the forest that qualifying leaves
they are the same for the request and the qualified one. Asked for before, all items at all levels
are counted as after just when none is a late star, and then the layout and the width are those of
the qualified request, and fail to be there for the same reason. -/
theorem Query.qualify_layout_iff {q q' : Query} {f g : Forest} (hf : f.IsGrounded)
    (hclosed : f.IsClosed) (hq : q.IsWithin f) (h : AliasM.Runs q.qualify f q' g) (db : Schema) :
    (q'.rowLayout? g db = q.rowLayout? g db ∧ q'.width g db = q.width g db) ∧
      (q.Everywhere (Query.CountedAlike f g db) ↔
        q.Everywhere (Query.StaysCounted f db q.openTables)) ∧
      (q.Everywhere (Query.StaysCounted f db q.openTables) →
        q'.rowLayout? g db = q.rowLayout? f db ∧ q'.width g db = q.width f db) := by
  have hbinds := (q.qualify_binds hf hclosed hq (fun _ ha => ha) (q.openTables_held hq)).runs q' g h
  have hafter : q.LaidOutAs g g db q' := (q.qualify_tells hf hclosed hq (fun _ ha => ha) h
    fun _ _ => rfl).laidOutAs (Query.isOver_holds_iff.2 hq)
  obtain ⟨hiff, hlaid⟩ := @Query.countedAlike_iff f g db q.openTables hbinds q hq
  refine ⟨⟨hafter.rowLayout?_eq, hafter.width_eq⟩, hiff, fun hstays => ?_⟩
  have hbefore := hlaid (hiff.2 hstays)
  exact ⟨hafter.rowLayout?_eq.trans hbefore.rowLayout?_eq,
    hafter.width_eq.trans hbefore.width_eq⟩

/-- The books, each with the columns of its author twice: selected by the star of its occurrence,
and joined. -/
def booksWithLateStar : Query :=
  { (Query.table "book").select [.star (some ⟨0⟩)] with
    joins := [((Association.belongsTo "book" "author").withDestination
      (.ofSource (.table "author" (some ⟨0⟩)))).toJoin .required true] }

theorem booksWithLateStar_isWithin : booksWithLateStar.IsWithin ⟨[.free none]⟩ := by
  have hbook : ((Query.table "book").select [.star (some ⟨0⟩)]).IsNodeOver
      (Forest.Holds ⟨[.free none]⟩) := by
    refine Query.isNodeOver_select nofun fun i hi => ?_
    obtain rfl := List.mem_singleton.1 hi
    intro a ha
    obtain rfl := Option.some.inj ha
    exact Nat.zero_lt_one
  have hauthor : (Query.ofSource (.table "author" (some ⟨0⟩))).IsOver
      (Forest.Holds ⟨[.free none]⟩) := Query.isOver_ofTable Nat.zero_lt_one "author"
  exact Query.isOver_holds_iff.1 ⟨{ hbook with }, trivial, hauthor, trivial⟩

/-- The star of an author is late. It is counted as three columns before and as two after. -/
theorem Query.qualify_layout_iff_lateStar : ∃ q' g,
    AliasM.Runs booksWithLateStar.qualify ⟨[.free none]⟩ q' g ∧
      booksWithLateStar.width ⟨[.free none]⟩ bookCatalog.schema = .ok 5 ∧
      q'.width g bookCatalog.schema = .ok 4 ∧
      ¬ booksWithLateStar.Everywhere (Query.StaysCounted ⟨[.free none]⟩ bookCatalog.schema
        booksWithLateStar.openTables) := by
  have hruns : ∃ q' g, AliasM.Runs booksWithLateStar.qualify ⟨[.free none]⟩ q' g ∧
      q'.width g bookCatalog.schema = .ok 4 := ⟨_, _, rfl, rfl⟩
  obtain ⟨q', g, hruns, hafter⟩ := hruns
  have hbefore : booksWithLateStar.width ⟨[.free none]⟩ bookCatalog.schema = .ok 5 := rfl
  obtain ⟨-, -, hstays⟩ := Query.qualify_layout_iff
    (Forest.fresh_coarsens Forest.isGrounded_empty none).grounded
    (Forest.fresh_widens Forest.isClosed_empty none).closed booksWithLateStar_isWithin hruns
    bookCatalog.schema
  refine ⟨q', g, hruns, hbefore, hafter, fun hall => ?_⟩
  obtain ⟨-, hwidth⟩ := hstays hall
  have hfour := hafter.symm.trans (hwidth.trans hbefore)
  cases hfour

end SqlTree
