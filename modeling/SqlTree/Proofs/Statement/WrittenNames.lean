import SqlTree.Proofs.Expr.References
import SqlTree.Proofs.Statement.ColumnNames
import SqlTree.Proofs.Statement.Written

/-!
# Names in the chunks of a statement

What `Query.NamesLevel` says of the tree of a level is carried to its chunks: the columns that a
clause refers to stand behind the name and the dot that they have to, or behind nothing, and a
source ends in the name by which columns refer to it.

* `Expr.IsWrittenBehind` and `SelectItem.IsWrittenBehind` say it of what stands in a clause.
* `Query.WritesNames` is a level clause by clause; `Query.NamesLevel.writesNames` is how it comes
  from the tree.
* `Query.selectStatement_namesLevel` is that every level of a statement is written so.
-/

namespace SqlTree

/-! ## Columns behind names -/

/-- A fragment refers to the columns of an expression, in their order and to no others, each behind
the name if there is one. -/
def Expr.IsWrittenBehind (x? : Option String) (e : Expr Alias) (f : Fragment) : Prop :=
  Fragment.Refers (e.mapOwners fun _ => x?).columns f

/-- A star stands behind the name, and so do the columns of an expression. -/
inductive SelectItem.IsWrittenBehind (x? : Option String) : SelectItem Alias → Fragment → Prop
  | star {owner? : Option Alias} :
      IsWrittenBehind x? (.star owner?) (Fragment.behindName x? (.token .star))
  | expr {e : Expr Alias} {name? : Option String} {f : Fragment} :
      e.IsWrittenBehind x? f → IsWrittenBehind x? (.expr e name?) (f ++ Fragment.asName name?)

/-- A table is written as itself, a nested request as a selection in parentheses. Behind either may
stand a name. -/
inductive Source.IsWritten : Source → Fragment → Prop
  | table {name : String} {alias? : Option Alias} (name? : Option String) :
      IsWritten (.table name alias?) (.ident name :: Fragment.asName name?)
  | nested {query : Query} {alias? : Option Alias} (w : WrittenSelect) (name? : Option String) :
      IsWritten (.nested query alias?)
        ((.token .lparen :: w.chunks ++ [.token .rparen]) ++ Fragment.asName name?)

/-- What stands in the clauses of a level, when `name` is the name of the source of its request and
`sites` are the joins with the names of their parents and their own.

With joins every source ends in its name. Every star and column stands behind what
`Query.shownName?` gives for the request that it is written in. A join is joined on the comparisons
of its link, whose columns stand behind the names of its own source and of that of its parent, and
on the terms of its filter behind them, with `AND` between neighbours. -/
structure Query.WritesNames (db : Schema) (q : Query) (name : String) (sites : List (Site String))
    (w : WrittenSelect) : Prop where
  sources : List.Forall₂ Source.IsWritten (q.nodes.map (·.source)) w.sources
  exposed : q.joins ≠ [] →
    w.sources.map (·.getLast?) = (q.namedNodes name sites).map fun p => some (.ident p.2)
  items : List.Forall₂ (fun (p : SelectItem Alias × Option String) f => p.1.IsWrittenBehind p.2 f)
    ((q.namedNodes name sites).flatMap fun p =>
      p.1.clauses.selection.map fun i => (i, q.shownName? p.2)) w.items
  filter : Option.Rel (fun l f => ∃ e, l.resolve db = .ok e ∧
    e.IsWrittenBehind (q.shownName? name) f) q.clauses.filter? w.filter?
  group : ∃ es, groupTerms db q.clauses.group? = .ok es ∧
    List.Forall₂ (Expr.IsWrittenBehind (q.shownName? name)) es w.group
  having : Option.Rel (Expr.IsWrittenBehind (q.shownName? name)) q.clauses.having? w.having?
  order : List.Forall₂ (fun (p : Expr Alias × Option String) f => p.1.IsWrittenBehind p.2 f)
    ((q.namedNodes name sites).flatMap fun p =>
      p.1.clauses.order.exprs.map fun e => (e, q.shownName? p.2)) w.order
  joins : List.Forall₂ (fun site j => ∃ pairs terms fs,
    site.join.link.key.resolve db = .ok pairs ∧
    filterTerms db site.query.clauses.filter? = .ok terms ∧
    List.Forall₂ (Expr.IsWrittenBehind (some site.right)) terms fs ∧
    j.on = List.intercalate [.token .and]
      (pairs.map (site.join.link.comparisonChunks (some site.left) (some site.right)) ++ fs))
    sites w.joins

/-! ## From trees to chunks -/

theorem Expr.isWrittenBehind (e : Expr Alias) (x? : Option String) :
    e.IsWrittenBehind x? (e.mapOwners fun _ => x?).fragment :=
  e.refers_fragment _

theorem SelectItem.isWrittenBehind (i : SelectItem Alias) (x? : Option String) :
    i.IsWrittenBehind x? (i.mapOwners fun _ => x?).fragment := by
  cases i with
  | star owner? =>
    rw [mapOwners, fragment, starFragment_eq]
    exact .star
  | expr e name? =>
    rw [mapOwners, fragment, Fragment.namedIf_eq]
    exact .expr (e.isWrittenBehind x?)

theorem Source.IsWrittenAs.isWritten {s : Source} {item : FromItem} (h : s.IsWrittenAs item) :
    s.IsWritten item.fragment := by
  cases h with
  | @table name alias? name? =>
    rw [FromItem.fragment, Fragment.namedIf_eq]
    exact .table name?
  | @nested query alias? t name? =>
    rw [FromItem.fragment, Fragment.namedIf_eq, t.fragment_eq_chunks]
    exact .nested t.written name?

/-- The operands of a conjunction refer to the columns of its terms. -/
theorem Expr.isWrittenBehind_operands (x? : Option String) (es : List (Expr Alias)) :
    List.Forall₂ (Expr.IsWrittenBehind x?) es (operands 2 (es.map (·.mapOwners fun _ => x?))) := by
  have h := refers_operands (fun _ => x?) 2 es
  rwa [mapOwnersList_eq_map, List.map_map, List.forall₂_map_left_iff] at h

/-- **What a level says of names stands in its chunks.** -/
theorem Query.NamesLevel.writesNames {db : Schema} {q : Query} {t : Select} {name : String}
    {sites : List (Site String)} (h : q.NamesLevel db t name sites) :
    q.WritesNames db name sites t.written where
  sources := by
    rw [t.sources_written, List.forall₂_map_right_iff]
    exact h.sources.imp fun _ _ hs => hs.isWritten
  exposed hq := by
    rw [t.sources_written, List.map_map]
    refine map_eq_of_forall₂ ((forall₂_of_map_eq (h.exposed hq)).imp fun item p hname => ?_)
    exact FromItem.getLast?_fragment hname
  items := by
    have hitems : ((q.namedNodes name sites).flatMap fun p =>
        p.1.clauses.selection.map fun i => (i, q.shownName? p.2)).map
          (fun p => p.1.mapOwners fun _ => p.2) = t.items := by
      rw [h.items, List.map_flatMap]
      simp only [List.map_map]
      rfl
    rw [Select.written, ← hitems, List.map_map]
    exact forall₂_map (fun p => p.1.isWrittenBehind p.2) _
  filter := by
    refine optionRel_map_right (optionRel_imp ?_ h.filter)
    rintro l e' ⟨e, he, rfl⟩
    exact ⟨e, he, e.isWrittenBehind _⟩
  group := by
    obtain ⟨es, hes, hgroup⟩ := h.group
    refine ⟨es, hes, ?_⟩
    rw [Select.written, hgroup, List.map_map]
    exact forall₂_map (fun e => e.isWrittenBehind _) es
  having := by
    rw [Select.written, h.having, Option.map_map]
    cases q.clauses.having? with
    | none => exact .none
    | some e => exact .some (e.isWrittenBehind _)
  order := by
    have horder : ((q.namedNodes name sites).flatMap fun p =>
        p.1.clauses.order.exprs.map fun e => (e, q.shownName? p.2)).map
          (fun p => p.1.mapOwners fun _ => p.2) = t.order.map (·.expr) := by
      rw [h.order, List.map_flatMap]
      simp only [List.map_map]
      rfl
    rw [Select.written, List.forall₂_map_right_iff]
    refine (forall₂_of_map_eq horder).imp fun p u hu => ?_
    rw [SortTerm.fragment, ← hu]
    exact Direction.refers_append (p.1.isWrittenBehind p.2)
  joins := by
    rw [Select.written, List.forall₂_map_right_iff]
    refine h.joins.imp fun site item hsite => ?_
    obtain ⟨pairs, terms, hpairs, hsome, hterms, hon⟩ := hsite
    refine ⟨pairs, terms, _, hpairs, hterms, Expr.isWrittenBehind_operands _ terms, ?_⟩
    refine JoinLink.fragment_on (g := id) hsome (hon.trans (congrArg (· ++ _) ?_))
    exact List.map_congr_left fun p _ =>
      (JoinLink.mapOwners_comparison (g := id) rfl rfl site.join.link p).symm

/-- **Every level of the statement of a request without occurrences is written under the names of
its sources, and these are shown only where there are several.** -/
theorem Query.selectStatement_namesLevel (db : Schema) (q : Query) (hq : q.IsPlain db)
    {f g : Forest} {st : Statement} (h : AliasM.Runs (q.selectStatement db) f st g) :
    ∃ t : Select, st = t.fragment.statement ∧ ∀ p u, Level q t p u →
      u.fragment <:+: t.fragment ∧ ∃ name sites w, u.fragment = w.chunks ∧
        p.NamesLevel db u name sites ∧ p.WritesNames db name sites w := by
  obtain ⟨t, rfl, hlevels⟩ := namesLevel_of_runs hq h
  refine ⟨t, rfl, fun p u hlevel => ⟨hlevel.fragment_infix, ?_⟩⟩
  obtain ⟨name, sites, hnames⟩ := hlevels p u hlevel
  exact ⟨name, sites, u.written, u.fragment_eq_chunks, hnames, hnames.writesNames⟩

set_option maxRecDepth 4000 in
theorem Query.selectStatement_namesLevel_books : ∃ st g t,
    AliasM.Runs (booksOfSameAuthor.selectStatement bookCatalog.schema) .empty st g ∧
      st = ⟨"SELECT * FROM (SELECT \x22book1\x22.*, \x22book2\x22.\x22title\x22 " ++
        "FROM \x22book\x22 AS \x22book1\x22 " ++
        "JOIN \x22author\x22 ON \x22author\x22.\x22id\x22 = \x22book1\x22.\x22authorId\x22 " ++
        "JOIN \x22book\x22 AS \x22book2\x22 " ++
        "ON \x22book2\x22.\x22authorId\x22 = \x22author\x22.\x22id\x22) WHERE \x22title\x22 = ?",
        [.text "Emma"]⟩ ∧
      st = Fragment.statement (Select.fragment t) ∧
      ∃ name sites w, Select.fragment t = WrittenSelect.chunks w ∧
        booksOfSameAuthor.WritesNames bookCatalog.schema name sites w := by
  have hruns : AliasM.Runs (booksOfSameAuthor.selectStatement bookCatalog.schema) .empty _ _ := rfl
  obtain ⟨t, ht, hlevels⟩ := Query.selectStatement_namesLevel bookCatalog.schema booksOfSameAuthor
    (booksOfSameAuthor_isPlain _) hruns
  obtain ⟨-, name, sites, w, hw, -, hwrites⟩ := hlevels _ _ .top
  exact ⟨_, _, t, hruns, rfl, ht, name, sites, w, hw, hwrites⟩

end SqlTree
