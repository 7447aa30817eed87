import SqlTree.Proofs.Query.Qualified
import SqlTree.Proofs.Row.Layout
import SqlTree.Proofs.Statement.Naming
import SqlTree.Statement.Compile

/-!
# Widths of stars

The layout of a row counts the columns of every selected item from the request; the engine counts
them from the statement, where a star stands for the columns of the sources that go by the name in
front of it. This module compares the two counts.

* `SelectItem.yield` and `Select.width` are the engine's count.
* `SelectItem.Fits` is what has to hold of an item for the two counts to agree, said of the request
  alone. A star of another occurrence fits when that occurrence is bound to a table with as many
  columns. When it is not bound, as that of a nested request, the columns of the source at hand are
  counted in place of its own.
* `Query.prepare_counts_iff`: the counts agree at every level of a statement just when everything
  that is selected fits.
-/

namespace SqlTree

/-! ## Sums of counts -/

/-- The sum of counts, or the first failure to count. -/
def total : List (Except CompileError Nat) → Except CompileError Nat
  | [] => return 0
  | w :: rest => do
    let n ← w
    let m ← total rest
    return n + m

theorem total_append (ws vs : List (Except CompileError Nat)) :
    total (ws ++ vs) = do
      let n ← total ws
      let m ← total vs
      return n + m := by
  induction ws with
  | nil =>
    cases hvs : total vs with
    | error e => rw [List.nil_append, hvs]; rfl
    | ok m => simp [total, hvs]
  | cons w ws ih =>
    rw [List.cons_append, total, total, ih]
    cases w with
    | error e => rfl
    | ok n =>
      cases total ws with
      | error e => rfl
      | ok n' =>
        cases total vs with
        | error e => rfl
        | ok m => simp [Nat.add_assoc]

/-! ## The engine's count -/

/-- The number of columns that an item yields, from sources with names and widths. -/
def SelectItem.yield (columns : List (Option String × Except CompileError Nat)) :
    SelectItem String → Except CompileError Nat
  | star none => total (columns.map (·.2))
  | star (some name) => total ((columns.filter (·.1.any (Text.sameName name))).map (·.2))
  | expr _ _ => return 1

mutual

/-- The number of columns of a selection. -/
def Select.width (db : Schema) : Select → Except CompileError Nat
  | ⟨_, items, source, joins, _, _, _, _, _⟩ =>
    total (items.map (·.yield ((source.name?, source.width db) :: joinItemsColumns db joins)))

/-- The number of columns of a source. -/
def FromItem.width (db : Schema) : FromItem → Except CompileError Nat
  | .table name _ => db.columnCount name
  | .select t _ => t.width db

/-- The names and widths of joined sources. -/
def joinItemsColumns (db : Schema) :
    List JoinItem → List (Option String × Except CompileError Nat)
  | [] => []
  | j :: rest => joinItemColumns db j :: joinItemsColumns db rest

/-- The name and the width of a joined source. -/
def joinItemColumns (db : Schema) : JoinItem → Option String × Except CompileError Nat
  | ⟨_, item, _⟩ => (item.name?, item.width db)

end

/-- The names and widths of the sources of a selection. -/
def Select.columns (db : Schema) (t : Select) : List (Option String × Except CompileError Nat) :=
  t.fromItems.map fun item => (item.name?, item.width db)

theorem Select.width_eq (db : Schema) (t : Select) :
    t.width db = total (t.items.map (·.yield (t.columns db))) := by
  have hjoins : ∀ joins : List JoinItem,
      joinItemsColumns db joins = joins.map fun j => (j.item.name?, j.item.width db) := by
    intro joins
    induction joins with
    | nil => rfl
    | cons j joins ih =>
      rw [joinItemsColumns, ih]
      cases j
      rfl
  cases t
  rw [Select.width, hjoins, columns, fromItems, List.map_cons, List.map_map]
  rfl

/-! ## The count of the layout -/

/-- The number of columns that are counted for an item selected by the node `n`. -/
def Query.itemWidth (f : Forest) (db : Schema) (n : Query) (i : SelectItem Alias) :
    Except CompileError Nat :=
  i.width f db n.source.alias? (n.source.width f db)

/-- The items that the nodes of a request select, each with its node. -/
def Query.nodeItems (q : Query) : List (Query × SelectItem Alias) :=
  q.nodes.flatMap fun n => n.clauses.selection.map (n, ·)

theorem Query.map_snd_nodeItems (q : Query) : q.nodeItems.map (·.2) = q.items := by
  rw [Query.items_eq, nodeItems, List.map_flatMap]
  simp [Function.comp_def]

theorem itemsWidth_eq_total (f : Forest) (db : Schema) (own? : Option Alias)
    (w : Except CompileError Nat) (items : List (SelectItem Alias)) :
    itemsWidth f db own? w items = total (items.map (·.width f db own? w)) := by
  induction items with
  | nil => rfl
  | cons i items ih => rw [itemsWidth, List.map_cons, total, ih]

section

variable (f : Forest) (db : Schema)

mutual

/-- The width of a request is the sum of what is counted for its items. -/
theorem Query.width_eq_total : ∀ q : Query,
    q.width f db = total (q.nodeItems.map fun p => p.1.itemWidth f db p.2)
  | ⟨source, clauses, joins, isQualified⟩ => by
    rw [Query.width, itemsWidth_eq_total, joinsWidth_eq_total joins, Query.nodeItems, Query.nodes,
      List.flatMap_cons, List.map_append, total_append, List.map_map]
    rfl

theorem joinsWidth_eq_total : ∀ joins : List Join,
    joinsWidth f db joins = total (((joinsNodes joins).flatMap fun n =>
      n.clauses.selection.map (n, ·)).map fun p => Query.itemWidth f db p.1 p.2)
  | [] => rfl
  | j :: rest => by
    rw [joinsWidth, joinWidth_eq_total j, joinsWidth_eq_total rest, joinsNodes, List.flatMap_append,
      List.map_append, total_append]

theorem joinWidth_eq_total : ∀ j : Join,
    j.width f db = total (((joinNodes j).flatMap fun n =>
      n.clauses.selection.map (n, ·)).map fun p => Query.itemWidth f db p.1 p.2)
  | ⟨_, _, _, _, query⟩ => by
    rw [Join.width, joinNodes, Query.width_eq_total query]
    rfl

end

end

/-! ## Stars that fit -/

/-- Whether several occurrences stand at the level of a request. -/
def Query.hasSeveral (f : Forest) (q : Query) : Bool :=
  1 < (q.levelAliases.map f.root).eraseDups.length

/-- The nodes at the level of `q` whose sources a star of `owner` stands for: those with its
occurrence, and all of them at a level with one occurrence. -/
def Query.starNodes (f : Forest) (q : Query) (owner : Alias) : List Query :=
  q.nodes.filter fun n => !q.hasSeveral f || n.source.alias?.any (f.isSame owner)

/-- An item selected by the node `n` at the level of `q` fits. An expression always does. A star
without occurrence stands for all sources, and a star of an occurrence for the sources of this one.
They fit when these have as many columns, together, as the source of `n`, or as the table that the
occurrence is bound to where it is another one. -/
def SelectItem.Fits (f : Forest) (db : Schema) (q n : Query) : SelectItem Alias → Prop
  | expr _ _ => True
  | star none => total (q.nodes.map (·.source.width f db)) = n.source.width f db
  | star (some owner) =>
    total ((q.starNodes f owner).map (·.source.width f db)) =
      if n.source.alias?.any (f.isSame · owner) then n.source.width f db
      else
        match f.tableName? owner with
        | some name => db.columnCount name
        | none => n.source.width f db

theorem Forest.isSame_iff {f : Forest} {a b : Alias} : f.isSame a b = true ↔ f.root a = f.root b := by
  simp [isSame]

theorem total_singleton (w : Except CompileError Nat) : total [w] = w := by
  cases w <;> rfl

/-- Of nodes whose occurrences differ one at most has a given occurrence. -/
theorem filter_isSame_eq {f : Forest} {owner a : Alias} {ns : List Query} {m : Query}
    (hroots : ((ns.flatMap (·.source.alias?.toList)).map f.root).Nodup) (hm : m ∈ ns)
    (ha : m.source.alias? = some a) (howner : f.root owner = f.root a) :
    ns.filter (·.source.alias?.any (f.isSame owner)) = [m] := by
  induction ns with
  | nil => cases hm
  | cons n ns ih =>
    rw [List.flatMap_cons, List.map_append] at hroots
    obtain ⟨-, hrest, hdisjoint⟩ := List.nodup_append.1 hroots
    have hroot : ∀ k ∈ n :: ns, k.source.alias?.any (f.isSame owner) →
        f.root a ∈ k.source.alias?.toList.map f.root := by
      intro k _ hk
      obtain ⟨b, hb, hsame⟩ := (Option.any_eq_true _ _).1 hk
      rw [← howner, Forest.isSame_iff.1 hsame, hb]
      simp
    have hbehind : ∀ k ∈ ns, k.source.alias?.any (f.isSame owner) →
        f.root a ∈ (ns.flatMap (·.source.alias?.toList)).map f.root := by
      intro k hk hany
      rw [List.map_flatMap]
      exact List.mem_flatMap.2 ⟨k, hk, hroot k (List.mem_cons_of_mem n hk) hany⟩
    have hown : m.source.alias?.any (f.isSame owner) := by
      rw [ha]
      exact Forest.isSame_iff.2 howner
    rcases List.mem_cons.1 hm with rfl | hm
    · have hnone : ns.filter (·.source.alias?.any (f.isSame owner)) = [] := by
        refine List.filter_eq_nil_iff.2 fun k hk hany => ?_
        exact hdisjoint _ (hroot m hm hown) _ (hbehind k hk hany) rfl
      rw [List.filter_cons, if_pos hown, hnone]
    · have hother : ¬ n.source.alias?.any (f.isSame owner) := by
        intro hany
        exact hdisjoint _ (hroot n List.mem_cons_self hany) _ (hbehind m hm hown) rfl
      rw [List.filter_cons, if_neg hother, ih hrest hm]

/-- **When a star fits at a level where the occurrences differ:** it is that of the source at hand,
or the other source has as many columns as the table that its occurrence is bound to, and where that
is bound to none, as the source at hand. -/
theorem SelectItem.fits_star_iff {f : Forest} {db : Schema} {q n m : Query} {owner a : Alias}
    (hseveral : q.hasSeveral f = true) (hroots : (q.levelAliases.map f.root).Nodup)
    (hn : n ∈ q.nodes) (hm : m ∈ q.nodes) (ha : m.source.alias? = some a)
    (howner : f.root owner = f.root a) :
    SelectItem.Fits f db q n (.star (some owner)) ↔ n = m ∨
      m.source.width f db =
        match f.tableName? owner with
        | some name => db.columnCount name
        | none => n.source.width f db := by
  rw [Query.levelAliases_eq] at hroots
  have hfilter := filter_isSame_eq hroots hm ha howner
  have hstar : q.starNodes f owner = [m] := by
    rw [Query.starNodes, hseveral]
    exact hfilter
  have hsymm : n.source.alias?.any (f.isSame · owner) = n.source.alias?.any (f.isSame owner) := by
    congr 1
    funext b
    simp only [Forest.isSame, Bool.beq_comm]
  have hsame : n.source.alias?.any (f.isSame owner) = true ↔ n = m := by
    have hmem : n ∈ q.nodes.filter (·.source.alias?.any (f.isSame owner)) ↔ n = m := by
      rw [hfilter, List.mem_singleton]
    rw [← hmem, List.mem_filter]
    exact ⟨fun hany => ⟨hn, hany⟩, fun h => h.2⟩
  rw [Fits, hstar, List.map_singleton, total_singleton, hsymm]
  by_cases hnm : n = m
  · rw [if_pos (hsame.2 hnm), hnm]
    simp
  · have hnot : ¬ n.source.alias?.any (f.isSame owner) = true := fun h => hnm (hsame.1 h)
    rw [if_neg hnot]
    simp [hnm]

/-! ## The counts at one level -/

/-- The sources of a level are counted as the engine counts them. -/
def Query.SourcesAgree (f : Forest) (db : Schema) (p : Query) (u : Select) : Prop :=
  List.Forall₂ (fun n item => Source.width f db n.source = FromItem.width db item) p.nodes
    u.fromItems

section

variable {c : Context} {p : Query} {own : Alias} {sites : List (Site Alias)} {u : Select}

theorem total_filter_eq {P : Query → Bool} {Q : Option String × Except CompileError Nat → Bool}
    {w : Query → Except CompileError Nat} {ns : List Query}
    {cols : List (Option String × Except CompileError Nat)}
    (h : List.Forall₂ (fun n col => P n = Q col ∧ w n = col.2) ns cols) :
    (cols.filter Q).map (·.2) = (ns.filter P).map w := by
  induction h with
  | nil => rfl
  | @cons n col ns cols hcol _ ih =>
    obtain ⟨hP, hw⟩ := hcol
    rw [List.filter_cons, List.filter_cons, hP]
    cases Q col with
    | false => exact ih
    | true => simp [hw, ih]

/-- What a star stands for, when the names at a level tell its occurrences apart. -/
theorem Query.IsWritten.yield_star {top : Query} {f : Forest} {db : Schema}
    (hc : Context.ofQuery f db top = .ok c) (hw : p.IsWritten c own sites u)
    (hwidths : p.SourcesAgree f db u) {owner : Alias} {x? : Option String}
    (hx : (p.scope c).owner? (some owner) = .ok x?) :
    (SelectItem.star x?).yield (u.columns db) =
      total ((p.starNodes f owner).map (·.source.width f db)) := by
  obtain ⟨rfl, -, -⟩ := Context.ofQuery_eq_ok hc
  simp only [Scope.owner?, bind_eq_ok, pure_eq_ok] at hx
  obtain ⟨name, hname, rfl⟩ := hx
  have hshows : (p.scope c).showsNames = p.hasSeveral c.forest := rfl
  have hcolumns : List.Forall₂ (fun n col => Source.width c.forest db n.source = col.2) p.nodes
      (u.columns db) := by
    rw [Select.columns, List.forall₂_map_right_iff]
    exact hwidths
  by_cases hseveral : p.hasSeveral c.forest = true
  · have hnamed := hw.namedSources (hshows.trans hseveral)
    have hall : List.Forall₂ (fun n (col : Option String × Except CompileError Nat) =>
        (!p.hasSeveral c.forest || n.source.alias?.any (c.forest.isSame owner)) =
          col.1.any (Text.sameName name) ∧ Source.width c.forest db n.source = col.2) p.nodes
        (u.columns db) := by
      rw [Select.columns, List.forall₂_map_right_iff]
      refine (forall₂_and hnamed hwidths).imp ?_
      rintro n item ⟨⟨a, x, ha, hx, hitem⟩, hwidth⟩
      refine ⟨?_, hwidth⟩
      rw [hseveral, ha, hitem, Bool.not_true, Bool.false_or, Option.any_some, Option.any_some]
      by_cases hroot : c.forest.root owner = c.forest.root a
      · have hsame : Text.sameName name x = true := by
          rw [Context.name_eq_of_root_eq hroot hname hx]
          simp
        rw [Forest.isSame_iff.2 hroot, hsame]
      · have hdiffer : ¬ Text.sameName name x = true := by
          rw [Text.sameName_iff]
          exact Context.name_ne hc hroot hname hx
        have hother : ¬ c.forest.isSame owner a = true := by
          rw [Forest.isSame_iff]
          exact hroot
        rw [Bool.eq_false_iff.2 hdiffer, Bool.eq_false_iff.2 hother]
    rw [hshows, if_pos hseveral, SelectItem.yield, Query.starNodes, total_filter_eq hall]
  · have hstar : p.starNodes c.forest owner = p.nodes := by
      rw [Query.starNodes]
      simp [hseveral]
    rw [hshows, if_neg hseveral, SelectItem.yield, hstar, map_eq_of_forall₂ hcolumns]

/-- **The counts at one level agree, item by item, just for the items that fit**, when those of the
selections nested in it agree. -/
theorem Query.IsWritten.count_iff {top : Query} {f : Forest} {db : Schema}
    (hc : Context.ofQuery f db top = .ok c) (hw : p.IsWritten c own sites u)
    (hwidths : p.SourcesAgree f db u) :
    List.Forall₂ (fun (i : Query × SelectItem Alias) i' =>
      i.1.itemWidth f db i.2 = i'.yield (u.columns db) ↔ i.2.Fits f db p i.1)
        p.nodeItems u.items := by
  have hitems := mapM_eq_ok.1 hw.items
  rw [← p.map_snd_nodeItems, List.forall₂_map_left_iff] at hitems
  apply hitems.imp
  rintro ⟨n, i⟩ i' hi
  cases i with
  | expr e name? =>
    simp only [SelectItem.withOwners, bind_eq_ok, pure_eq_ok] at hi
    obtain ⟨e', -, rfl⟩ := hi
    exact iff_of_true rfl trivial
  | star owner? =>
    simp only [SelectItem.withOwners, bind_eq_ok, pure_eq_ok] at hi
    obtain ⟨x?, hx, rfl⟩ := hi
    cases owner? with
    | none =>
      obtain rfl : none = x? := by simpa [Scope.owner?] using hx
      have hcolumns : p.nodes.map (·.source.width f db) = (u.columns db).map (·.2) := by
        rw [Select.columns, List.map_map]
        exact map_eq_of_forall₂ hwidths
      rw [SelectItem.yield, SelectItem.Fits, hcolumns]
      exact eq_comm
    | some owner =>
      rw [hw.yield_star hc hwidths hx]
      exact eq_comm

end

/-! ## The counts at all levels -/

/-- The two counts agree for all items of a level. -/
def Query.CountsAgree (f : Forest) (db : Schema) (p : Query) (u : Select) : Prop :=
  List.Forall₂ (fun (i : Query × SelectItem Alias) i' =>
    i.1.itemWidth f db i.2 = i'.yield (u.columns db)) p.nodeItems u.items

/-- Where the counts agree, the request and the selection are equally wide. -/
theorem Query.CountsAgree.width_eq {f : Forest} {db : Schema} {p : Query} {u : Select}
    (h : p.CountsAgree f db u) : p.width f db = u.width db := by
  rw [Query.width_eq_total, Select.width_eq, map_eq_of_forall₂ h]

/-- Induction from nested levels: sources are counted right everywhere when the counts agree at
every level whose sources are. -/
theorem Level.sourcesAgree {c : Context} {f : Forest} {db : Schema} {q : Query} {t : Select}
    (ht : q.toSelect c = .ok t)
    (hstep : ∀ p u, Level q t p u → p.SourcesAgree f db u → p.CountsAgree f db u) :
    ∀ (p : Query) (u : Select), Level q t p u → p.SourcesAgree f db u := by
  refine Query.nestedInduction fun p ih u hlevel => ?_
  obtain ⟨⟨own, sites, hw⟩, -⟩ := Query.toSelect_isWritten (hlevel.toSelect ht)
  obtain ⟨hlength, hzip⟩ := List.forall₂_iff_zip.1 hw.sources
  refine List.forall₂_iff_zip.2 ⟨hlength, fun {n item} hmem => ?_⟩
  have hitem := hzip hmem
  have hn : n ∈ p.nodes := (List.of_mem_zip hmem).1
  cases hsource : n.source with
  | table name alias? =>
    rw [hsource] at hitem
    simp only [Source.toFromItem, bind_eq_ok, pure_eq_ok] at hitem
    obtain ⟨name?, -, rfl⟩ := hitem
    rfl
  | nested inner alias? =>
    rw [hsource] at hitem
    simp only [Source.toFromItem, bind_eq_ok, pure_eq_ok] at hitem
    obtain ⟨v, -, name?, -, rfl⟩ := hitem
    have hsources : (Source.nested inner alias?, FromItem.select v name?) ∈
        (p.nodes.map (·.source)).zip u.fromItems := by
      rw [List.zip_map_left, ← hsource]
      exact List.mem_map_of_mem hmem
    have hinner : Level q t inner v := .nested hlevel hsources
    have hagree := hstep inner v hinner (ih n hn inner alias? hsource v hinner)
    exact hagree.width_eq

/-! ## The layout of a prepared statement -/

/-- **The layout counts the columns that the statement yields just when everything selected fits.**
The range of every node is as wide as what is counted for the items that it selects. At a level
whose sources are counted right the count of an item is right just when the item fits, and all
counts at all levels are right just when all items do. -/
theorem Query.prepare_counts_iff (db : Schema) (q : Query) {f g : Forest} {st : Statement}
    {l? : Option RowLayout} (h : AliasM.Runs (q.prepare db) f (st, l?) g) :
    ∃ q' t, AliasM.Runs q.qualify f q' g ∧ q'.selectIn g db = .ok t ∧ st = t.fragment.statement ∧
      (∀ l, l? = some l → List.Forall₂
        (fun r n => total (n.clauses.selection.map (Query.itemWidth g db n)) = .ok (r.2 - r.1))
          l.ranges q'.nodes) ∧
      (∀ p u, Level q' t p u → p.SourcesAgree g db u →
        List.Forall₂ (fun (i : Query × SelectItem Alias) i' =>
          i.1.itemWidth g db i.2 = i'.yield (u.columns db) ↔ i.2.Fits g db p i.1)
            p.nodeItems u.items) ∧
      ((∀ p u, Level q' t p u → p.CountsAgree g db u) ↔
        ∀ p u, Level q' t p u → ∀ i ∈ p.nodeItems, i.2.Fits g db p i.1) := by
  simp only [prepare, AliasM.runs_bind, AliasM.runs_pure, AliasM.runs_read] at h
  obtain ⟨q', g₁, hqualify, st', g₂, hst, layout?, g₃, ⟨hlayout, hg₃⟩, heq, hg⟩ := h
  subst hg hg₃
  have hqualified := q.qualify_qualified hqualify
  simp only [selectStatement, hqualified.qualify_eq, AliasM.runs_bind, AliasM.runs_pure,
    AliasM.runs_read] at hst
  obtain ⟨q₂, g₂, ⟨hq₂, hg₂⟩, t, g₃, ⟨hselect, hg₃⟩, rfl, hg⟩ := hst
  subst hg₂ hg₃ hg
  obtain rfl := hq₂.symm
  obtain ⟨rfl, rfl⟩ := Prod.mk.inj heq
  obtain ⟨c, hc, ht⟩ := bind_eq_ok.1 hselect
  have hlevel : ∀ p u, Level q' t p u → p.SourcesAgree g db u →
      List.Forall₂ (fun (i : Query × SelectItem Alias) i' =>
        i.1.itemWidth g db i.2 = i'.yield (u.columns db) ↔ i.2.Fits g db p i.1)
          p.nodeItems u.items := by
    intro p u hp hsources
    obtain ⟨⟨own, sites, hw⟩, -⟩ := Query.toSelect_isWritten (hp.toSelect ht)
    exact hw.count_iff hc hsources
  refine ⟨q', t, hqualify, hselect, rfl, ?_, hlevel, ?_, ?_⟩
  · intro l hl
    rw [hl] at hlayout
    obtain ⟨w, hfrom⟩ := Query.rowLayout?_eq_some hlayout
    refine (q'.layoutFrom_tiles hfrom).1.widths.imp fun r n hr => ?_
    rw [← hr, Query.ownWidth, itemsWidth_eq_total]
    rfl
  · intro hagree p u hp i hi
    have hsources := Level.sourcesAgree ht (fun p u hp _ => hagree p u hp) p u hp
    obtain ⟨i', -, hcount, hiff⟩ := exists_of_forall₂ (forall₂_and (hagree p u hp)
      (hlevel p u hp hsources)) hi
    exact hiff.1 hcount
  · intro hfits
    have hstep : ∀ p u, Level q' t p u → p.SourcesAgree g db u → p.CountsAgree g db u := by
      intro p u hp hsources
      have hboth := (List.forall₂_and_left p.nodeItems u.items).2
        ⟨hfits p u hp, hlevel p u hp hsources⟩
      apply hboth.imp
      rintro i i' ⟨hfit, hiff⟩
      exact hiff.2 hfit
    intro p u hp
    exact hstep p u hp (Level.sourcesAgree ht hstep p u hp)

/-- The books, each with all columns of the nested request that it is joined with, which selects one
column and is known as `s`. -/
def booksWithNestedStar : Query :=
  let author := (Query.nested ((Query.table "author").select [.expr (.col "id") none]))
  let joined := { author with source := author.source.withAlias ⟨0⟩ }
  { (Query.table "book").select [.star (some ⟨0⟩)] with
    joins := [((Association.belongsTo "book" "author").withDestination joined).toJoin
      .required true] }

/-- The star of a nested request is counted as if it were that of the table beside it: three columns
where there is one. -/
theorem Query.prepare_counts_iff_nestedStar : ∃ st l? g q' t,
    AliasM.Runs (booksWithNestedStar.prepare bookCatalog.schema) ⟨[.free (some "s")]⟩ (st, l?) g ∧
      AliasM.Runs booksWithNestedStar.qualify ⟨[.free (some "s")]⟩ q' g ∧
      st = Fragment.statement (Select.fragment t) ∧
      ¬ ∀ p u, Level q' t p u → p.CountsAgree g bookCatalog.schema u := by
  have hruns : ∃ st l? g, AliasM.Runs (booksWithNestedStar.prepare bookCatalog.schema)
      ⟨[.free (some "s")]⟩ (st, l?) g := ⟨_, _, _, rfl⟩
  have hmisfit : ∃ q' g, AliasM.Runs booksWithNestedStar.qualify ⟨[.free (some "s")]⟩ q' g ∧
      ∃ i ∈ q'.nodeItems, ¬ i.2.Fits g bookCatalog.schema q' i.1 := by
    refine ⟨_, _, rfl, (_, .star (some ⟨0⟩)), List.mem_cons_self, fun hfits => ?_⟩
    have hone := Except.ok.inj (show Except.ok 1 = Except.ok 3 from hfits)
    omega
  obtain ⟨st, l?, g, hruns⟩ := hruns
  obtain ⟨q₀, g₀, hq₀, i, hi, hmisfit⟩ := hmisfit
  obtain ⟨q', t, hq', -, hst, -, -, hiff⟩ := Query.prepare_counts_iff _ _ hruns
  obtain ⟨rfl, rfl⟩ := hq₀.unique hq'
  refine ⟨st, l?, g₀, q₀, t, hruns, hq', hst, fun hagree => ?_⟩
  exact hmisfit (hiff.1 hagree q₀ t .top i hi)

end SqlTree
