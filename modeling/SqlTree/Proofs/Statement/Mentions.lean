import SqlTree.Proofs.Expr.Written
import SqlTree.Proofs.Query.Levels

/-!
# The occurrences that a level mentions

A level of a statement writes stars and columns, each of which may belong to an occurrence of a
table. Which occurrences these are can be read off the request of the level, and what is written in
front of them is what the level calls them.

* `Query.Mentions` are the occurrences that a level mentions, `Select.owners` is what stands in
  front of its stars and columns. `Query.DeleteMentions` and `Delete.owners` are the same of a
  deletion.
* `Scope.Writes` says that texts are what a level writes in front of given occurrences.
  `Query.IsWritten.writes` and `Query.toDelete_writes` say so of the texts of a level and of a
  deletion, and what they mention.
* `Query.Mentions.becomes`: what a level mentions it still mentions when it is qualified.
* `Query.HasLevel.exists_level`: every level of a request is written as a selection.
-/

namespace SqlTree

/-! ## Definitions -/

/-- A level mentions an occurrence, or columns and stars without one: in a selected item, in the
link of a join, which compares columns of its parent with its own, in the filter of the request or
of a join, and in the other clauses of the request. Filters and groups count as what they are on the
given schema. -/
inductive Query.Mentions (db : Schema) (p : Query) : Option Alias → Prop
  | item {i : SelectItem Alias} {o : Option Alias} :
      i ∈ p.items → o ∈ i.owners → Query.Mentions db p o
  | parent {n : Query} {j : Join} {o : Option Alias} :
      n ∈ p.nodes → j ∈ n.joins → n.source.alias? = o → Query.Mentions db p o
  | joined {n : Query} {j : Join} {o : Option Alias} :
      n ∈ p.nodes → j ∈ n.joins → j.query.source.alias? = o → Query.Mentions db p o
  | filter {n : Query} {l : Lookup (Expr Alias)} {e : Expr Alias} {o : Option Alias} :
      n ∈ p.nodes → n.clauses.filter? = some l → l.resolve db = .ok e → o ∈ e.owners →
        Query.Mentions db p o
  | group {es : List (Expr Alias)} {e : Expr Alias} {o : Option Alias} :
      groupTerms db p.clauses.group? = .ok es → e ∈ es → o ∈ e.owners → Query.Mentions db p o
  | having {e : Expr Alias} {o : Option Alias} :
      p.clauses.having? = some e → o ∈ e.owners → Query.Mentions db p o
  | order {e : Expr Alias} {o : Option Alias} :
      e ∈ p.fullOrder.exprs → o ∈ e.owners → Query.Mentions db p o

/-- Clauses mention an occurrence, or columns and stars without one. -/
inductive Clauses.Mentions (db : Schema) (c : Clauses) : Option Alias → Prop
  | item {i : SelectItem Alias} {o : Option Alias} :
      i ∈ c.selection → o ∈ i.owners → Clauses.Mentions db c o
  | filter {l : Lookup (Expr Alias)} {e : Expr Alias} {o : Option Alias} :
      c.filter? = some l → l.resolve db = .ok e → o ∈ e.owners → Clauses.Mentions db c o
  | group {es : List (Expr Alias)} {e : Expr Alias} {o : Option Alias} :
      groupTerms db c.group? = .ok es → e ∈ es → o ∈ e.owners → Clauses.Mentions db c o
  | having {e : Expr Alias} {o : Option Alias} :
      c.having? = some e → o ∈ e.owners → Clauses.Mentions db c o
  | order {e : Expr Alias} {o : Option Alias} :
      e ∈ c.order.exprs → o ∈ e.owners → Clauses.Mentions db c o

/-- A deletion mentions an occurrence: in its filter, and in its order when it has a limit. -/
inductive Query.DeleteMentions (db : Schema) (q : Query) : Option Alias → Prop
  | filter {l : Lookup (Expr Alias)} {e : Expr Alias} {o : Option Alias} :
      q.clauses.filter? = some l → l.resolve db = .ok e → o ∈ e.owners → Query.DeleteMentions db q o
  | order {limit : Limit} {e : Expr Alias} {o : Option Alias} :
      q.clauses.limit? = some limit → e ∈ q.clauses.order.exprs → o ∈ e.owners →
        Query.DeleteMentions db q o

/-- What stands in front of the stars and columns of a level. -/
def Select.owners (t : Select) : List (Option String) :=
  t.items.flatMap (·.owners) ++ t.joins.flatMap (·.on.owners) ++
    t.filter?.toList.flatMap (·.owners) ++ t.group.flatMap (·.owners) ++
    t.having?.toList.flatMap (·.owners) ++ t.order.flatMap (·.expr.owners)

/-- What stands in front of the columns of a deletion. -/
def Delete.owners (d : Delete) : List (Option String) :=
  d.filter?.toList.flatMap (·.owners) ++ d.order.flatMap (·.expr.owners)

/-! ## Texts written for occurrences -/

/-- The texts `xs` are what a level writes in front of the occurrences that `P` holds of. -/
structure Scope.Writes (s : Scope) (P : Option Alias → Prop) (xs : List (Option String)) :
    Prop where
  complete : ∀ o, P o → ∃ x ∈ xs, s.owner? o = .ok x
  sound : ∀ x ∈ xs, ∃ o, P o ∧ s.owner? o = .ok x

namespace Scope

variable {s : Scope}

theorem Writes.congr {P Q : Option Alias → Prop} {xs : List (Option String)} (h : s.Writes P xs)
    (hPQ : ∀ o, P o ↔ Q o) : s.Writes Q xs := by
  obtain rfl : P = Q := funext fun o => propext (hPQ o)
  exact h

/-- What is written one behind the other is written for the occurrences of either. -/
theorem Writes.append {P Q : Option Alias → Prop} {xs ys : List (Option String)}
    (hx : s.Writes P xs) (hy : s.Writes Q ys) : s.Writes (fun o => P o ∨ Q o) (xs ++ ys) := by
  constructor
  · rintro o (ho | ho)
    · obtain ⟨x, hmem, hx⟩ := hx.complete o ho
      exact ⟨x, List.mem_append_left ys hmem, hx⟩
    · obtain ⟨y, hmem, hy⟩ := hy.complete o ho
      exact ⟨y, List.mem_append_right xs hmem, hy⟩
  · intro x hmem
    rcases List.mem_append.1 hmem with hmem | hmem
    · obtain ⟨o, ho, hx⟩ := hx.sound x hmem
      exact ⟨o, .inl ho, hx⟩
    · obtain ⟨o, ho, hy⟩ := hy.sound x hmem
      exact ⟨o, .inr ho, hy⟩

/-- What is written piece by piece is written for the occurrences of the pieces. -/
theorem Writes.flatMap {α β : Type} {P : α → Option Alias → Prop} {m : β → List (Option String)}
    {as : List α} {bs : List β} (h : List.Forall₂ (fun a b => s.Writes (P a) (m b)) as bs) :
    s.Writes (fun o => ∃ a ∈ as, P a o) (bs.flatMap m) := by
  induction h with
  | nil => exact ⟨by simp, by simp⟩
  | cons hab _ ih =>
    rw [List.flatMap_cons]
    refine (hab.append ih).congr fun o => ?_
    simp only [List.mem_cons, exists_eq_or_imp]

/-- An expression under names shows what is written in front of its occurrences. -/
theorem writes_expr {e : Expr Alias} {e' : Expr String} (h : s.expr e = .ok e') :
    s.Writes (· ∈ e.owners) e'.owners := by
  have hos := (e.withOwners_hinges s.owner?).written h
  rw [e.eq_mapOwners (fun _ _ => eq_written) h, Expr.owners_mapOwners]
  constructor
  · intro o ho
    obtain ⟨x, hx⟩ := hos o ho
    exact ⟨x, eq_written hx ▸ List.mem_map_of_mem ho, hx⟩
  · intro x hmem
    obtain ⟨o, ho, rfl⟩ := List.mem_map.1 hmem
    obtain ⟨x, hx⟩ := hos o ho
    exact ⟨o, ho, eq_written hx ▸ hx⟩

theorem writes_item {i : SelectItem Alias} {i' : SelectItem String}
    (h : i.withOwners s.owner? = .ok i') : s.Writes (· ∈ i.owners) i'.owners := by
  cases i with
  | star owner? =>
    simp only [SelectItem.withOwners, bind_eq_ok, pure_eq_ok] at h
    obtain ⟨x, hx, rfl⟩ := h
    exact ⟨by simpa [SelectItem.owners] using hx, by simpa [SelectItem.owners] using hx⟩
  | expr e name? =>
    simp only [SelectItem.withOwners, bind_eq_ok, pure_eq_ok] at h
    obtain ⟨e', he, rfl⟩ := h
    exact writes_expr he

theorem writes_filter {l? : Option (Lookup (Expr Alias))} {filter? : Option (Expr String)}
    (h : Option.Rel (fun l e' => s.filter l = .ok e') l? filter?) :
    s.Writes (fun o => ∃ l e, l? = some l ∧ l.resolve s.context.schema = .ok e ∧ o ∈ e.owners)
      (filter?.toList.flatMap (·.owners)) := by
  cases h with
  | none => exact ⟨by simp, by simp⟩
  | @some l e' hl =>
    simp only [filter, bind_eq_ok] at hl
    obtain ⟨e, he, hexpr⟩ := hl
    rw [Option.toList_some, List.flatMap_singleton]
    refine (writes_expr hexpr).congr fun o => ⟨fun ho => ⟨l, e, rfl, he, ho⟩, ?_⟩
    rintro ⟨_, e'', ⟨⟩, he'', ho⟩
    rwa [Except.ok.inj (he.symm.trans he'')]

theorem writes_group {group? : Option (Lookup (List (Expr Alias)))} {group : List (Expr String)}
    (h : s.group group? = .ok group) :
    s.Writes (fun o => ∃ es e, groupTerms s.context.schema group? = .ok es ∧ e ∈ es ∧ o ∈ e.owners)
      (group.flatMap (·.owners)) := by
  cases group? with
  | none =>
    rw [Scope.group, pure_eq_ok] at h
    subst h
    refine ⟨?_, by simp⟩
    rintro o ⟨_, e, ⟨⟩, he, -⟩
    cases he
  | some l =>
    simp only [Scope.group, bind_eq_ok] at h
    obtain ⟨es, hes, hgroup⟩ := h
    have hall := Writes.flatMap ((mapM_eq_ok.1 hgroup).imp fun _ _ => writes_expr)
    refine hall.congr fun o => ⟨?_, ?_⟩
    · rintro ⟨e, he, ho⟩
      exact ⟨es, e, hes, he, ho⟩
    · rintro ⟨es', e, hes', he, ho⟩
      obtain rfl := Except.ok.inj (hes.symm.trans hes')
      exact ⟨e, he, ho⟩

theorem writes_having {having? : Option (Expr Alias)} {having?' : Option (Expr String)}
    (h : Option.Rel (fun e e' => s.expr e = .ok e') having? having?') :
    s.Writes (fun o => ∃ e, having? = some e ∧ o ∈ e.owners)
      (having?'.toList.flatMap (·.owners)) := by
  cases h with
  | none => exact ⟨by simp, by simp⟩
  | some he =>
    rw [Option.toList_some, List.flatMap_singleton]
    refine (writes_expr he).congr fun o => ⟨fun ho => ⟨_, rfl, ho⟩, ?_⟩
    rintro ⟨e, ⟨⟩, ho⟩
    exact ho

theorem writes_order {o : SortOrder} {ts : List (SortTerm String)} (h : s.order o = .ok ts) :
    s.Writes (fun a => ∃ e ∈ o.exprs, a ∈ e.owners) (ts.flatMap (·.expr.owners)) := by
  have hterms : List.Forall₂ (fun (t : SortTerm Alias) (t' : SortTerm String) =>
      s.Writes (· ∈ t.expr.owners) t'.expr.owners) o.terms ts := by
    refine (mapM_eq_ok.1 h).imp fun t t' ht => ?_
    simp only [SortTerm.withOwners, bind_eq_ok, pure_eq_ok] at ht
    obtain ⟨e', he, rfl⟩ := ht
    exact writes_expr he
  refine (Writes.flatMap hterms).congr fun a => ?_
  rw [← o.map_expr_terms]
  simp only [List.mem_map, exists_exists_and_eq_and]

end Scope

/-- The condition of a link compares columns of the parent with columns of the joined source. -/
theorem JoinLink.mem_owners_condition {db : Schema} {link : JoinLink} {left right : Alias}
    {e : Expr Alias} (h : link.condition db left right = .ok e) (o : Option Alias) :
    o ∈ e.owners ↔ o = some left ∨ o = some right := by
  have hcomparison : ∀ p, (link.comparison left right p).owners = [some right, some left] := by
    intro p
    rw [comparison]
    split <;> rfl
  obtain ⟨pairs, -, hsome, hconjuncts⟩ := condition_eq_ok h
  cases pairs with
  | nil => exact absurd rfl hsome
  | cons p pairs =>
    rw [← e.owners_conjuncts, hconjuncts, List.flatMap_map]
    simp only [hcomparison, List.mem_flatMap, List.mem_cons, List.not_mem_nil, or_false,
      exists_eq_or_imp]
    tauto

theorem Scope.writes_on {s : Scope} {link : JoinLink} {left right : Alias}
    {l? : Option (Lookup (Expr Alias))} {on : Expr String} (h : s.on link left right l? = .ok on) :
    s.Writes (fun o => (o = some left ∨ o = some right) ∨
      ∃ l e, l? = some l ∧ l.resolve s.context.schema = .ok e ∧ o ∈ e.owners) on.owners := by
  simp only [Scope.on, bind_eq_ok] at h
  obtain ⟨condition, hcondition, h⟩ := h
  have howners := JoinLink.mem_owners_condition hcondition
  cases l? with
  | none =>
    refine (writes_expr h).congr fun o => ?_
    rw [howners]
    simp
  | some l =>
    simp only [bind_eq_ok] at h
    obtain ⟨e, he, h⟩ := h
    refine (writes_expr h).congr fun o => ?_
    rw [Expr.owners_and, List.mem_append, howners]
    refine or_congr_right ⟨fun ho => ⟨l, e, rfl, he, ho⟩, ?_⟩
    rintro ⟨_, e', ⟨⟩, he', ho⟩
    rwa [Except.ok.inj (he.symm.trans he')]

/-! ## Texts of a level -/

/-- The sites of a level are the joins of its requests, whose sources are what the sites say. -/
theorem JoinSites.exists_iff {left : Alias} {joins : List Join} {sites : List (Site Alias)}
    (h : JoinSites left joins sites) {P : Join → Alias → Prop}
    (hright : ∀ site ∈ sites, site.query.source.alias? = some site.right) :
    (∃ site ∈ sites, P site.join site.left) ↔
      (∃ j ∈ joins, P j left) ∨
        ∃ n ∈ joinsNodes joins, ∃ a, n.source.alias? = some a ∧ ∃ j ∈ n.joins, P j a := by
  induction h with
  | nil => simp [joinsNodes]
  | @cons left right j rest below behind _ _ ihBelow ihBehind =>
    rw [List.forall_mem_cons, List.forall_mem_append] at hright
    obtain ⟨hown, hbelow, hbehind⟩ := hright
    have hown : j.query.source.alias? = some right := hown
    have hnodes : joinNodes j = j.query :: joinsNodes j.query.joins := by
      rw [← Query.nodes_eq]
      cases j
      rfl
    simp only [List.mem_cons, List.mem_append, or_and_right, exists_or, exists_eq_left, joinsNodes,
      hnodes, ihBelow hbelow, ihBehind hbehind, hown, Option.some.injEq]
    simp only [exists_eq_left', or_assoc, or_left_comm]

namespace Query.IsWritten

variable {c : Context} {q : Query} {own : Alias} {sites : List (Site Alias)} {t : Select}

/-- Something holds of a join and its parent at some site just when it does at some request of the
level. -/
theorem exists_site_iff (h : q.IsWritten c own sites t) {P : Join → Option Alias → Prop} :
    (∃ site ∈ sites, P site.join (some site.left)) ↔
      ∃ n ∈ q.nodes, ∃ j ∈ n.joins, P j n.source.alias? := by
  have hright : ∀ site ∈ sites, site.query.source.alias? = some site.right := by
    intro site hsite
    obtain ⟨item, -, hitem⟩ := exists_of_forall₂ h.joins hsite
    exact hitem.occurrence
  have hnamed : ∀ n ∈ q.nodes, ∃ a, n.source.alias? = some a := by
    intro n hn
    obtain ⟨a, -, ha⟩ := exists_of_forall₂ h.occurrences hn
    exact ⟨a, ha⟩
  rw [h.placed.exists_iff (P := fun j a => P j (some a)) hright, Query.nodes_eq]
  rw [Query.nodes_eq, List.forall_mem_cons] at hnamed
  simp only [List.mem_cons, exists_eq_or_imp, h.occurrence]
  refine or_congr_right (exists_congr fun n => and_congr_right fun hn => ?_)
  obtain ⟨a, ha⟩ := hnamed.2 n hn
  simp only [ha, Option.some.injEq, exists_eq_left']

/-- The requests of a level are the request and those of the joins of a request of the level. -/
theorem mem_nodes_iff (h : q.IsWritten c own sites t) (p : Query) :
    p ∈ q.nodes ↔ p = q ∨ ∃ n ∈ q.nodes, ∃ j ∈ n.joins, j.query = p := by
  rw [← h.exists_site_iff (P := fun j _ => j.query = p), h.nodes_eq, List.mem_cons, List.mem_map]
  rfl

theorem writes_items (h : q.IsWritten c own sites t) :
    (q.scope c).Writes (fun o => ∃ i ∈ q.items, o ∈ i.owners) (t.items.flatMap (·.owners)) :=
  .flatMap ((mapM_eq_ok.1 h.items).imp fun _ _ => Scope.writes_item)

theorem writes_joins (h : q.IsWritten c own sites t) :
    (q.scope c).Writes (fun o => ∃ n ∈ q.nodes, ∃ j ∈ n.joins,
      (o = n.source.alias? ∨ o = j.query.source.alias?) ∨ ∃ l e,
        j.query.clauses.filter? = some l ∧ l.resolve c.schema = .ok e ∧ o ∈ e.owners)
      (t.joins.flatMap (·.on.owners)) := by
  have hsites := Scope.Writes.flatMap (h.joins.imp fun site item hsite =>
    (Scope.writes_on hsite.on).congr (Q := fun o => (o = some site.left ∨
      o = site.join.query.source.alias?) ∨ ∃ l e, site.join.query.clauses.filter? = some l ∧
        l.resolve c.schema = .ok e ∧ o ∈ e.owners) fun o => by
      have hright : site.join.query.source.alias? = some site.right := hsite.occurrence
      rw [hright]
      rfl)
  exact hsites.congr fun o => h.exists_site_iff (P := fun j a? =>
    (o = a? ∨ o = j.query.source.alias?) ∨ ∃ l e, j.query.clauses.filter? = some l ∧
      l.resolve c.schema = .ok e ∧ o ∈ e.owners)

/-- **What stands in front of the columns of a level is written for the occurrences that the level
mentions.** -/
theorem writes (h : q.IsWritten c own sites t) :
    (q.scope c).Writes (q.Mentions c.schema) t.owners := by
  have hparts := ((((h.writes_items.append h.writes_joins).append
    (Scope.writes_filter h.filter)).append (Scope.writes_group h.group)).append
    (Scope.writes_having h.having)).append (Scope.writes_order h.order)
  refine hparts.congr fun o => ⟨?_, ?_⟩
  · rintro (((((⟨i, hi, ho⟩ | ⟨n, hn, j, hj, (rfl | rfl) | ⟨l, e, hl, he, ho⟩⟩) |
      ⟨l, e, hl, he, ho⟩) | ⟨es, e, hes, he, ho⟩) | ⟨e, he, ho⟩) | ⟨e, he, ho⟩)
    · exact .item hi ho
    · exact .parent hn hj rfl
    · exact .joined hn hj rfl
    · exact .filter ((h.mem_nodes_iff _).2 (.inr ⟨n, hn, j, hj, rfl⟩)) hl he ho
    · exact .filter ((h.mem_nodes_iff q).2 (.inl rfl)) hl he ho
    · exact .group hes he ho
    · exact .having he ho
    · exact .order he ho
  · intro ho
    cases ho with
    | item hi ho => exact .inl (.inl (.inl (.inl (.inl ⟨_, hi, ho⟩))))
    | parent hn hj ho => exact .inl (.inl (.inl (.inl (.inr ⟨_, hn, _, hj, .inl (.inl ho.symm)⟩))))
    | joined hn hj ho => exact .inl (.inl (.inl (.inl (.inr ⟨_, hn, _, hj, .inl (.inr ho.symm)⟩))))
    | filter hp hl he ho =>
      rcases (h.mem_nodes_iff _).1 hp with rfl | ⟨n, hn, j, hj, rfl⟩
      · exact .inl (.inl (.inl (.inr ⟨_, _, hl, he, ho⟩)))
      · exact .inl (.inl (.inl (.inl (.inr ⟨n, hn, j, hj, .inr ⟨_, _, hl, he, ho⟩⟩))))
    | group hes he ho => exact .inl (.inl (.inr ⟨_, _, hes, he, ho⟩))
    | having he ho => exact .inl (.inr ⟨_, he, ho⟩)
    | order he ho => exact .inr ⟨_, he, ho⟩

end Query.IsWritten

/-! ## Texts of a deletion -/

theorem Scope.writes_deleteTail {s : Scope} {clauses : Clauses}
    {tail : List (SortTerm String) × Option Limit} (h : s.deleteTail clauses = .ok tail) :
    s.Writes
      (fun o => ∃ limit e, clauses.limit? = some limit ∧ e ∈ clauses.order.exprs ∧ o ∈ e.owners)
      (tail.1.flatMap (·.expr.owners)) := by
  rw [deleteTail] at h
  split at h
  · rename_i hlimit
    obtain rfl := pure_eq_ok.1 h
    exact ⟨by simp [hlimit], by simp⟩
  · rename_i limit hlimit
    split at h
    · simp only [bind_eq_ok, pure_eq_ok] at h
      obtain ⟨order, horder, rfl⟩ := h
      refine (writes_order horder).congr fun o => ?_
      simp [hlimit]
    · simp at h

/-- **What stands in front of the columns of a deletion is written for the occurrences that it
mentions.** -/
theorem Query.toDelete_writes {c : Context} {q : Query} {d : Delete} (h : q.toDelete c = .ok d) :
    (q.scope c).Writes (q.DeleteMentions c.schema) d.owners ∧ q.joins = [] ∧
      ∃ table, q.source.tableName? = some table := by
  rw [toDelete] at h
  split at h
  · simp at h
  · rename_i hnone
    split at h
    · simp at h
    · rename_i table alias? hsource
      simp only [bind_eq_ok, pure_eq_ok] at h
      obtain ⟨name?, -, filter?, hfilter, tail, htail, rfl⟩ := h
      have hjoins : q.joins = [] := by
        rw [deleteObstacle?] at hnone
        split at hnone
        · exact absurd rfl (hnone _)
        · split at hnone
          · exact absurd rfl (hnone _)
          · split at hnone
            · exact absurd rfl (hnone _)
            · rename_i hempty
              simpa using hempty
      refine ⟨?_, hjoins, table, by rw [hsource]; rfl⟩
      have hparts := (Scope.writes_filter (optionMapM_eq_ok.1 hfilter)).append
        (Scope.writes_deleteTail htail)
      refine hparts.congr fun o => ⟨?_, fun ho => ?_⟩
      · rintro (⟨l, e, hl, he, ho⟩ | ⟨limit, e, hlimit, he, ho⟩)
        · exact .filter hl he ho
        · exact .order hlimit he ho
      · cases ho with
        | filter hl he ho => exact .inl ⟨_, _, hl, he, ho⟩
        | order hlimit he ho => exact .inr ⟨_, _, hlimit, he, ho⟩

/-! ## Nested levels -/

/-- What a level of a statement is written from is a level of the request. -/
theorem Level.hasLevel {q p : Query} {t u : Select} (h : Level q t p u) : q.HasLevel p := by
  induction h with
  | top => exact .top
  | nested _ hmem ih =>
    obtain ⟨n, hn, hsource⟩ := List.mem_map.1 (List.of_mem_zip hmem).1
    exact .nested ih hn hsource

/-- **Every level of a request is written as a level of its statement.** -/
theorem Query.HasLevel.exists_level {c : Context} {q p : Query} {t : Select} (h : q.HasLevel p)
    (ht : q.toSelect c = .ok t) : ∃ u, Level q t p u := by
  induction h with
  | top => exact ⟨t, .top⟩
  | @nested p n inner alias? _ hn hsource ih =>
    obtain ⟨u, hu⟩ := ih
    obtain ⟨⟨own, sites, hw⟩, -⟩ := Query.toSelect_isWritten (hu.toSelect ht)
    have hsources : List.Forall₂ (fun s item => s.toFromItem c (p.scope c) = .ok item)
        (p.nodes.map (·.source)) u.fromItems := by
      rw [List.forall₂_map_left_iff]
      exact hw.sources
    obtain ⟨item, hmem, hitem⟩ := exists_mem_zip_of_forall₂ hsources (List.mem_map_of_mem hn)
    rw [hsource] at hmem hitem
    simp only [Source.toFromItem, bind_eq_ok, pure_eq_ok] at hitem
    obtain ⟨v, -, name?, -, rfl⟩ := hitem
    exact ⟨v, .nested hu hmem⟩

/-! ## Qualified levels -/

section

variable {same : Alias → Alias → Prop} {db : Schema} {n n' p p' : Query} {owner a : Alias}

theorem Expr.mem_owners_qualified (owner : Alias) {e : Expr Alias} (h : some a ∈ e.owners) :
    some a ∈ (e.qualified owner).owners := by
  rw [e.owners_qualified]
  exact List.mem_map.2 ⟨some a, h, rfl⟩

namespace Query.BecomesUpTo

theorem alias?_eq (h : n.BecomesUpTo same n') (ha : n.source.alias? = some a) :
    n'.source.alias? = some a := by
  rcases h.cases with rfl | ⟨owner, hmade⟩
  · exact ha
  · rw [hmade.source.alias?_eq, ha]
    rfl

theorem selection (h : n.BecomesUpTo same n') {i : SelectItem Alias} (hi : i ∈ n.clauses.selection)
    (ha : some a ∈ i.owners) : ∃ i' ∈ n'.clauses.selection, some a ∈ i'.owners := by
  rcases h.cases with rfl | ⟨owner, hmade⟩
  · exact ⟨i, hi, ha⟩
  · refine ⟨i.qualified owner, ?_, ?_⟩
    · rw [hmade.clauses]
      exact List.mem_map_of_mem hi
    · rw [i.owners_qualified]
      exact List.mem_map.2 ⟨some a, ha, rfl⟩

theorem filter (h : n.BecomesUpTo same n') {l : Lookup (Expr Alias)} {e : Expr Alias}
    (hl : n.clauses.filter? = some l) (he : l.resolve db = .ok e) (ha : some a ∈ e.owners) :
    ∃ l' e', n'.clauses.filter? = some l' ∧ l'.resolve db = .ok e' ∧ some a ∈ e'.owners := by
  rcases h.cases with rfl | ⟨owner, hmade⟩
  · exact ⟨l, e, hl, he, ha⟩
  · refine ⟨l.map (·.qualified owner), e.qualified owner, ?_, ?_,
      Expr.mem_owners_qualified owner ha⟩
    · rw [hmade.clauses, Clauses.qualified, hl, Option.map_some]
    · rw [Lookup.resolve_map, he]
      rfl

theorem group (h : n.BecomesUpTo same n') {es : List (Expr Alias)} {e : Expr Alias}
    (hes : groupTerms db n.clauses.group? = .ok es) (he : e ∈ es) (ha : some a ∈ e.owners) :
    ∃ es', groupTerms db n'.clauses.group? = .ok es' ∧ ∃ e' ∈ es', some a ∈ e'.owners := by
  rcases h.cases with rfl | ⟨owner, hmade⟩
  · exact ⟨es, hes, e, he, ha⟩
  · refine ⟨es.map (·.qualified owner), ?_, _, List.mem_map_of_mem he,
      Expr.mem_owners_qualified owner ha⟩
    rw [hmade.clauses, Clauses.qualified]
    cases hgroup : n.clauses.group? with
    | none =>
      rw [hgroup] at hes
      obtain rfl := Except.ok.inj hes
      cases he
    | some l =>
      rw [hgroup] at hes
      have hl : l.resolve db = .ok es := hes
      simp only [Option.map_some, groupTerms, Lookup.resolve_map, hl]
      rfl

theorem having (h : n.BecomesUpTo same n') {e : Expr Alias} (he : n.clauses.having? = some e)
    (ha : some a ∈ e.owners) : ∃ e', n'.clauses.having? = some e' ∧ some a ∈ e'.owners := by
  rcases h.cases with rfl | ⟨owner, hmade⟩
  · exact ⟨e, he, ha⟩
  · refine ⟨e.qualified owner, ?_, Expr.mem_owners_qualified owner ha⟩
    rw [hmade.clauses, Clauses.qualified, he, Option.map_some]

theorem order (h : n.BecomesUpTo same n') {e : Expr Alias} (he : e ∈ n.clauses.order.exprs)
    (ha : some a ∈ e.owners) : ∃ e' ∈ n'.clauses.order.exprs, some a ∈ e'.owners := by
  rcases h.cases with rfl | ⟨owner, hmade⟩
  · exact ⟨e, he, ha⟩
  · refine ⟨e.qualified owner, ?_, Expr.mem_owners_qualified owner ha⟩
    rw [hmade.clauses, Clauses.qualified, SortOrder.exprs_qualified]
    exact List.mem_map_of_mem he

end Query.BecomesUpTo

/-- **An occurrence that a level mentions stays mentioned when the level is qualified.** -/
theorem Query.Mentions.becomes (h : p.BecomesUpTo same p') (hp : p.Mentions db (some a)) :
    p'.Mentions db (some a) := by
  cases hp with
  | item hi ha =>
    rw [Query.items_eq, List.mem_flatMap] at hi
    obtain ⟨n, hn, hi⟩ := hi
    obtain ⟨n', hn', hnode⟩ := exists_of_forall₂ (Query.BecomesUpTo.keepsShape.nodes h) hn
    obtain ⟨i', hi', ha'⟩ := hnode.selection hi ha
    exact .item (Query.items_eq p' ▸ List.mem_flatMap.2 ⟨n', hn', hi'⟩) ha'
  | parent hn hj ha =>
    obtain ⟨n', hn', hnode⟩ := exists_of_forall₂ (Query.BecomesUpTo.keepsShape.nodes h) hn
    obtain ⟨j', hj', -⟩ := exists_of_forall₂ (Query.BecomesUpTo.keepsShape.joins hnode) hj
    exact .parent hn' hj' (hnode.alias?_eq ha)
  | joined hn hj ha =>
    obtain ⟨n', hn', hnode⟩ := exists_of_forall₂ (Query.BecomesUpTo.keepsShape.nodes h) hn
    obtain ⟨j', hj', hjoin⟩ := exists_of_forall₂ (Query.BecomesUpTo.keepsShape.joins hnode) hj
    exact .joined hn' hj' (hjoin.query.alias?_eq ha)
  | filter hn hl he ha =>
    obtain ⟨n', hn', hnode⟩ := exists_of_forall₂ (Query.BecomesUpTo.keepsShape.nodes h) hn
    obtain ⟨l', e', hl', he', ha'⟩ := hnode.filter hl he ha
    exact .filter hn' hl' he' ha'
  | group hes he ha =>
    obtain ⟨es', hes', e', he', ha'⟩ := h.group hes he ha
    exact .group hes' he' ha'
  | having he ha =>
    obtain ⟨e', he', ha'⟩ := h.having he ha
    exact .having he' ha'
  | order he ha =>
    rw [Query.fullOrder_exprs, List.mem_flatMap] at he
    obtain ⟨n, hn, he⟩ := he
    obtain ⟨n', hn', hnode⟩ := exists_of_forall₂ (Query.BecomesUpTo.keepsShape.nodes h) hn
    obtain ⟨e', he', ha'⟩ := hnode.order he ha
    exact .order (Query.fullOrder_exprs p' ▸ List.mem_flatMap.2 ⟨n', hn', he'⟩) ha'

theorem Query.DeleteMentions.becomes (h : p.BecomesUpTo same p')
    (hp : p.DeleteMentions db (some a)) : p'.DeleteMentions db (some a) := by
  cases hp with
  | filter hl he ha =>
    obtain ⟨l', e', hl', he', ha'⟩ := h.filter hl he ha
    exact .filter hl' he' ha'
  | order hlimit he ha =>
    obtain ⟨e', he', ha'⟩ := h.order he ha
    have hkept : p'.clauses.limit? = p.clauses.limit? := by
      rcases h.cases with rfl | ⟨owner, hmade⟩
      · rfl
      · rw [hmade.clauses]
        rfl
    exact .order (hkept.trans hlimit) he' ha'

/-- What a level mentions is the source of one of its requests, or mentioned in its clauses. -/
theorem Query.Mentions.of_node {o : Option Alias} (h : p.Mentions db o) :
    ∃ n ∈ p.nodes, n.source.alias? = o ∨ n.clauses.Mentions db o := by
  have htop : p ∈ p.nodes := p.nodes_eq ▸ List.mem_cons_self
  cases h with
  | item hi ho =>
    rw [Query.items_eq, List.mem_flatMap] at hi
    obtain ⟨n, hn, hi⟩ := hi
    exact ⟨n, hn, .inr (.item hi ho)⟩
  | parent hn _ ho => exact ⟨_, hn, .inl ho⟩
  | joined hn hj ho => exact ⟨_, Query.query_mem_nodes hn hj, .inl ho⟩
  | filter hn hl he ho => exact ⟨_, hn, .inr (.filter hl he ho)⟩
  | group hes he ho => exact ⟨p, htop, .inr (.group hes he ho)⟩
  | having he ho => exact ⟨p, htop, .inr (.having he ho)⟩
  | order he ho =>
    rw [Query.fullOrder_exprs, List.mem_flatMap] at he
    obtain ⟨n, hn, he⟩ := he
    exact ⟨n, hn, .inr (.order he ho)⟩

theorem Expr.mem_owners_of_qualified {e : Expr Alias} {o : Option Alias}
    (h : o ∈ (e.qualified owner).owners) : ∃ o' ∈ e.owners, o = some (o'.getD owner) := by
  rw [e.owners_qualified] at h
  obtain ⟨o', ho', rfl⟩ := List.mem_map.1 h
  exact ⟨o', ho', rfl⟩

/-- Qualified clauses mention what the clauses do, and the occurrence given to their columns for
those without one. -/
theorem Clauses.Mentions.of_qualified {c : Clauses} {o : Option Alias}
    (h : (c.qualified owner).Mentions db o) :
    ∃ o', c.Mentions db o' ∧ o = some (o'.getD owner) := by
  cases h with
  | item hi ho =>
    obtain ⟨i, hi', rfl⟩ := List.mem_map.1 hi
    rw [i.owners_qualified] at ho
    obtain ⟨o', ho', rfl⟩ := List.mem_map.1 ho
    exact ⟨o', .item hi' ho', rfl⟩
  | filter hl he ho =>
    obtain ⟨l, hl', rfl⟩ := Option.map_eq_some_iff.1 hl
    obtain ⟨e, he', rfl⟩ := map_eq_ok.1 he
    obtain ⟨o', ho', rfl⟩ := Expr.mem_owners_of_qualified ho
    exact ⟨o', .filter hl' he' ho', rfl⟩
  | group hes he ho =>
    rw [Clauses.qualified] at hes
    cases hl : c.group? with
    | none =>
      rw [hl] at hes
      obtain rfl := Except.ok.inj hes
      cases he
    | some l =>
      rw [hl] at hes
      obtain ⟨es, hes', rfl⟩ := map_eq_ok.1 hes
      obtain ⟨e, he', rfl⟩ := List.mem_map.1 he
      obtain ⟨o', ho', rfl⟩ := Expr.mem_owners_of_qualified ho
      exact ⟨o', .group (hl ▸ hes') he' ho', rfl⟩
  | having he ho =>
    obtain ⟨e, he', rfl⟩ := Option.map_eq_some_iff.1 he
    obtain ⟨o', ho', rfl⟩ := Expr.mem_owners_of_qualified ho
    exact ⟨o', .having he' ho', rfl⟩
  | order he ho =>
    rw [Clauses.qualified, SortOrder.exprs_qualified] at he
    obtain ⟨e, he', rfl⟩ := List.mem_map.1 he
    obtain ⟨o', ho', rfl⟩ := Expr.mem_owners_of_qualified ho
    exact ⟨o', .order he' ho', rfl⟩

/-- **When nothing was qualified before, all columns of a qualified level have an occurrence.** -/
theorem Query.Mentions.isSome {P : Query → Prop} (hP : ∀ n, P n → n.isQualified = false)
    {o : Option Alias} (h : p.BecomesAll P same p') (ho : p'.Mentions db o) : o.isSome := by
  have hshape : Query.KeepsShape (Query.BecomesAll P same) := Query.BecomesAll.keepsShape hP
  obtain ⟨n', hn', hmention⟩ := ho.of_node
  obtain ⟨n, -, hnode⟩ := exists_of_forall₂ (hshape.nodes h).flip hn'
  have hnode : n.BecomesAll P same n' := hnode
  obtain ⟨owner, hmade⟩ := hnode.made hP
  rcases hmention with rfl | hclauses
  · rw [hmade.source.alias?_eq]
    rfl
  · rw [hmade.clauses] at hclauses
    obtain ⟨o', -, rfl⟩ := hclauses.of_qualified
    rfl

end

end SqlTree
