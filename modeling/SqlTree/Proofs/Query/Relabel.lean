import SqlTree.Proofs.Expr.Owners
import SqlTree.Proofs.Query.Nodes
import SqlTree.Query.Derive
import SqlTree.Query.Qualify

/-!
# Other identities for a request

A request whose occurrences are known by other identities is the same request. `relabel` replaces
the identities everywhere in a tree and keeps all else, also what is not written. It commutes with
giving columns to a source (`Clauses.qualified_relabel`) and with flattening orders
(`SortOrder.terms_relabel`), and expressions are written the same way
(`Expr.withOwners_relabel`).
-/

namespace SqlTree

variable {ρ σ τ υ ε : Type}

/-! ## Expressions -/

namespace Expr

mutual

/-- The expression with other identities for its occurrences. -/
def relabel (m : ρ → σ) : Expr ρ → Expr σ
  | column name owner? => column name (owner?.map m)
  | value v => value v
  | verbatim text arguments => verbatim text arguments
  | binary op lhs rhs => binary op (lhs.relabel m) (rhs.relabel m)
  | conj terms => conj (relabelList m terms)
  | disj terms => disj (relabelList m terms)
  | neg e => neg (e.relabel m)
  | member e list negated => member (e.relabel m) (relabelList m list) negated
  | call name arguments => call name (relabelList m arguments)
  | countAll => countAll
  | countDistinct e => countDistinct (e.relabel m)

/-- The expressions with other identities for their occurrences. -/
def relabelList (m : ρ → σ) : List (Expr ρ) → List (Expr σ)
  | [] => []
  | e :: rest => e.relabel m :: relabelList m rest

end

theorem relabelList_eq_map (m : ρ → σ) (es : List (Expr ρ)) :
    relabelList m es = es.map (·.relabel m) := by
  induction es with
  | nil => rfl
  | cons e es ih => rw [relabelList, ih, List.map_cons]

section

variable (m : ρ → σ)

mutual

theorem qualified_relabel (owner : ρ) : ∀ e : Expr ρ,
    (e.qualified owner).relabel m = (e.relabel m).qualified (m owner)
  | column name none => rfl
  | column name (some own) => rfl
  | value v => rfl
  | verbatim text arguments => rfl
  | binary op lhs rhs => by
    rw [qualified, relabel, relabel, qualified, qualified_relabel owner lhs,
      qualified_relabel owner rhs]
  | conj terms => by
    rw [qualified, relabel, relabel, qualified, qualifiedList_relabelList owner terms]
  | disj terms => by
    rw [qualified, relabel, relabel, qualified, qualifiedList_relabelList owner terms]
  | neg e => by rw [qualified, relabel, relabel, qualified, qualified_relabel owner e]
  | member e list negated => by
    rw [qualified, relabel, relabel, qualified, qualified_relabel owner e,
      qualifiedList_relabelList owner list]
  | call name arguments => by
    rw [qualified, relabel, relabel, qualified, qualifiedList_relabelList owner arguments]
  | countAll => rfl
  | countDistinct e => by rw [qualified, relabel, relabel, qualified, qualified_relabel owner e]

theorem qualifiedList_relabelList (owner : ρ) : ∀ es : List (Expr ρ),
    relabelList m (qualifiedList owner es) = qualifiedList (m owner) (relabelList m es)
  | [] => rfl
  | e :: rest => by
    rw [qualifiedList, relabelList, relabelList, qualifiedList, qualified_relabel owner e,
      qualifiedList_relabelList owner rest]

end

mutual

/-- Identities that stay leave the expression as it is. -/
theorem relabel_eq_self {m : ρ → ρ} : ∀ e : Expr ρ, (∀ c ∈ e.columns, c.2.map m = c.2) →
    e.relabel m = e
  | column name owner?, h => by rw [relabel, h (name, owner?) List.mem_cons_self]
  | value v, _ => rfl
  | verbatim text arguments, _ => rfl
  | binary op lhs rhs, h => by
    rw [columns, List.forall_mem_append] at h
    rw [relabel, relabel_eq_self lhs h.1, relabel_eq_self rhs h.2]
  | conj terms, h => by rw [relabel, relabelList_eq_self terms h]
  | disj terms, h => by rw [relabel, relabelList_eq_self terms h]
  | neg e, h => by rw [relabel, relabel_eq_self e h]
  | member e list negated, h => by
    rw [columns, List.forall_mem_append] at h
    rw [relabel, relabel_eq_self e h.1, relabelList_eq_self list h.2]
  | call name arguments, h => by rw [relabel, relabelList_eq_self arguments h]
  | countAll, _ => rfl
  | countDistinct e, h => by rw [relabel, relabel_eq_self e h]

theorem relabelList_eq_self {m : ρ → ρ} : ∀ es : List (Expr ρ),
    (∀ c ∈ listColumns es, c.2.map m = c.2) → relabelList m es = es
  | [], _ => rfl
  | e :: rest, h => by
    rw [listColumns, List.forall_mem_append] at h
    rw [relabelList, relabel_eq_self e h.1, relabelList_eq_self rest h.2]

end

section

variable {m} {replace : Option σ → Except ε (Option τ)}

mutual

/-- Replacing what occurrences have become is replacing them. -/
theorem withOwners_relabel_eq : ∀ e : Expr ρ,
    (e.relabel m).withOwners replace = e.withOwners fun o => replace (o.map m)
  | column name owner? => by rw [relabel, withOwners, withOwners]
  | value v => rfl
  | verbatim text arguments => rfl
  | binary op lhs rhs => by
    rw [relabel, withOwners, withOwners, withOwners_relabel_eq lhs, withOwners_relabel_eq rhs]
  | conj terms => by
    rw [relabel, withOwners, withOwners, withOwnersList_relabelList_eq terms]
  | disj terms => by
    rw [relabel, withOwners, withOwners, withOwnersList_relabelList_eq terms]
  | neg e => by rw [relabel, withOwners, withOwners, withOwners_relabel_eq e]
  | member e [] negated => rfl
  | member e (item :: items) negated => by
    rw [relabel, relabelList, withOwners, withOwners, withOwners_relabel_eq e,
      withOwners_relabel_eq item, withOwnersList_relabelList_eq items]
  | call name arguments => by
    rw [relabel, withOwners, withOwners, withOwnersList_relabelList_eq arguments]
  | countAll => rfl
  | countDistinct e => by rw [relabel, withOwners, withOwners, withOwners_relabel_eq e]

theorem withOwnersList_relabelList_eq : ∀ es : List (Expr ρ),
    withOwnersList replace (relabelList m es) = withOwnersList (fun o => replace (o.map m)) es
  | [] => rfl
  | e :: rest => by
    rw [relabelList, withOwnersList, withOwnersList, withOwners_relabel_eq e,
      withOwnersList_relabelList_eq rest]

end

end

section

variable {m} {n : Option τ → Option υ} {replace : Option ρ → Except ε (Option τ)}
  {replace' : Option σ → Except ε (Option υ)}

mutual

/-- Where occurrences are replaced alike, the results are alike. -/
theorem withOwners_relabel
    (h : ∀ o x, replace o = .ok x → replace' (o.map m) = .ok (n x)) :
    ∀ (e : Expr ρ) {e' : Expr τ}, e.withOwners replace = .ok e' →
      (e.relabel m).withOwners replace' = .ok (e'.mapOwners n)
  | column name owner?, e', he => by
    simp only [withOwners, bind_eq_ok, pure_eq_ok] at he
    obtain ⟨x, hx, rfl⟩ := he
    rw [relabel, withOwners, h _ _ hx]
    rfl
  | value v, e', he => by
    rw [withOwners, pure_eq_ok] at he
    rw [← he]
    rfl
  | verbatim text arguments, e', he => by
    rw [withOwners, pure_eq_ok] at he
    rw [← he]
    rfl
  | binary op lhs rhs, e', he => by
    simp only [withOwners, bind_eq_ok, pure_eq_ok] at he
    obtain ⟨lhs', hl, rhs', hr, rfl⟩ := he
    rw [relabel, withOwners, withOwners_relabel h lhs hl, withOwners_relabel h rhs hr]
    rfl
  | conj terms, e', he => by
    simp only [withOwners, bind_eq_ok, pure_eq_ok] at he
    obtain ⟨terms', ht, rfl⟩ := he
    rw [relabel, withOwners, withOwnersList_relabelList h terms ht]
    rfl
  | disj terms, e', he => by
    simp only [withOwners, bind_eq_ok, pure_eq_ok] at he
    obtain ⟨terms', ht, rfl⟩ := he
    rw [relabel, withOwners, withOwnersList_relabelList h terms ht]
    rfl
  | neg e, e', he => by
    simp only [withOwners, bind_eq_ok, pure_eq_ok] at he
    obtain ⟨e'', he'', rfl⟩ := he
    rw [relabel, withOwners, withOwners_relabel h e he'']
    rfl
  | member e [] negated, e', he => by
    rw [withOwners, pure_eq_ok] at he
    rw [← he]
    rfl
  | member e (item :: items) negated, e', he => by
    simp only [withOwners, bind_eq_ok, pure_eq_ok] at he
    obtain ⟨e'', he'', item', hitem, items', hitems, rfl⟩ := he
    rw [relabel, relabelList, withOwners, withOwners_relabel h e he'',
      withOwners_relabel h item hitem, withOwnersList_relabelList h items hitems]
    rfl
  | call name arguments, e', he => by
    simp only [withOwners, bind_eq_ok, pure_eq_ok] at he
    obtain ⟨arguments', ha, rfl⟩ := he
    rw [relabel, withOwners, withOwnersList_relabelList h arguments ha]
    rfl
  | countAll, e', he => by
    rw [withOwners, pure_eq_ok] at he
    rw [← he]
    rfl
  | countDistinct e, e', he => by
    simp only [withOwners, bind_eq_ok, pure_eq_ok] at he
    obtain ⟨e'', he'', rfl⟩ := he
    rw [relabel, withOwners, withOwners_relabel h e he'']
    rfl

theorem withOwnersList_relabelList
    (h : ∀ o x, replace o = .ok x → replace' (o.map m) = .ok (n x)) :
    ∀ (es : List (Expr ρ)) {es' : List (Expr τ)}, withOwnersList replace es = .ok es' →
      withOwnersList replace' (relabelList m es) = .ok (mapOwnersList n es')
  | [], es', he => by
    rw [withOwnersList, pure_eq_ok] at he
    rw [← he]
    rfl
  | e :: rest, es', he => by
    simp only [withOwnersList, bind_eq_ok, pure_eq_ok] at he
    obtain ⟨e', he', rest', hrest, rfl⟩ := he
    rw [relabelList, withOwnersList, withOwners_relabel h e he',
      withOwnersList_relabelList h rest hrest]
    rfl

end

end

theorem conjuncts_relabel (e : Expr ρ) :
    (e.relabel m).conjuncts = e.conjuncts.map (·.relabel m) := by
  cases e with
  | conj terms => rw [relabel, conjuncts, conjuncts, relabelList_eq_map]
  | _ => rfl

theorem and_relabel (a b : Expr ρ) : (a.and b).relabel m = (a.relabel m).and (b.relabel m) := by
  rw [and, relabel, relabelList_eq_map, and, conjuncts_relabel, conjuncts_relabel, List.map_append]

theorem foldl_and_relabel (es : List (Expr ρ)) (e : Expr ρ) :
    (es.foldl and e).relabel m = (es.map (·.relabel m)).foldl and (e.relabel m) := by
  induction es generalizing e with
  | nil => rfl
  | cons e' es ih => rw [List.foldl_cons, ih, and_relabel, List.map_cons, List.foldl_cons]

end

end Expr

/-! ## Items, orders and clauses -/

/-- The item with other identities for its occurrences. -/
def SelectItem.relabel (m : ρ → σ) : SelectItem ρ → SelectItem σ
  | star owner? => star (owner?.map m)
  | expr e name? => expr (e.relabel m) name?

/-- The term with other identities for its occurrences. -/
def SortTerm.relabel (m : ρ → σ) (t : SortTerm ρ) : SortTerm σ := ⟨t.expr.relabel m, t.direction⟩

section

variable {m : ρ → σ} {n : Option τ → Option υ} {replace : Option ρ → Except ε (Option τ)}
  {replace' : Option σ → Except ε (Option υ)}

theorem SelectItem.withOwners_relabel
    (h : ∀ o x, replace o = .ok x → replace' (o.map m) = .ok (n x)) {i : SelectItem ρ}
    {i' : SelectItem τ} (hi : i.withOwners replace = .ok i') :
    (i.relabel m).withOwners replace' = .ok (i'.mapOwners n) := by
  cases i with
  | star owner? =>
    simp only [withOwners, bind_eq_ok, pure_eq_ok] at hi
    obtain ⟨x, hx, rfl⟩ := hi
    rw [relabel, withOwners, h _ _ hx]
    rfl
  | expr e name? =>
    simp only [withOwners, bind_eq_ok, pure_eq_ok] at hi
    obtain ⟨e', he, rfl⟩ := hi
    rw [relabel, withOwners, e.withOwners_relabel h he]
    rfl

theorem SortTerm.withOwners_relabel
    (h : ∀ o x, replace o = .ok x → replace' (o.map m) = .ok (n x)) {t : SortTerm ρ}
    {t' : SortTerm τ} (ht : t.withOwners replace = .ok t') :
    (t.relabel m).withOwners replace' = .ok (t'.mapOwners n) := by
  simp only [withOwners, bind_eq_ok, pure_eq_ok] at ht
  obtain ⟨e', he, rfl⟩ := ht
  rw [relabel, withOwners, t.expr.withOwners_relabel h he]
  rfl

end

namespace SortOrder

mutual

/-- The order with other identities for its occurrences. -/
def relabel (m : Alias → Alias) : SortOrder → SortOrder
  | ⟨elements, reversed⟩ => ⟨relabelElements m elements, reversed⟩

/-- The elements with other identities for their occurrences. -/
def relabelElements (m : Alias → Alias) : List SortElement → List SortElement
  | [] => []
  | e :: rest => relabelElement m e :: relabelElements m rest

/-- The element with other identities for its occurrences. -/
def relabelElement (m : Alias → Alias) : SortElement → SortElement
  | .term t => .term (t.relabel m)
  | .nested o => .nested (o.relabel m)

end

section

variable (m : Alias → Alias)

mutual

theorem qualified_relabel (owner : Alias) : ∀ o : SortOrder,
    (o.qualified owner).relabel m = (o.relabel m).qualified (m owner)
  | ⟨elements, reversed⟩ => by
    rw [qualified, relabel, relabel, qualified, qualifiedElements_relabel owner elements]

theorem qualifiedElements_relabel (owner : Alias) : ∀ elements : List SortElement,
    relabelElements m (qualifiedElements owner elements) =
      qualifiedElements (m owner) (relabelElements m elements)
  | [] => rfl
  | e :: rest => by
    rw [qualifiedElements, relabelElements, relabelElements, qualifiedElements,
      qualifiedElement_relabel owner e, qualifiedElements_relabel owner rest]

theorem qualifiedElement_relabel (owner : Alias) : ∀ e : SortElement,
    relabelElement m (qualifiedElement owner e) = qualifiedElement (m owner) (relabelElement m e)
  | .term t => by
    rw [qualifiedElement, relabelElement, relabelElement, qualifiedElement, SortTerm.qualified,
      SortTerm.relabel, SortTerm.relabel, SortTerm.qualified, Expr.qualified_relabel]
  | .nested o => by
    rw [qualifiedElement, relabelElement, relabelElement, qualifiedElement,
      qualified_relabel owner o]

end

theorem SortTerm.reverseIf_relabel (reversed : Bool) (t : SortTerm Alias) :
    (t.reverseIf reversed).relabel m = (t.relabel m).reverseIf reversed := by
  cases reversed <;> rfl

mutual

theorem termsUnder_relabel (outer : Bool) : ∀ o : SortOrder,
    (o.relabel m).termsUnder outer = (o.termsUnder outer).map (·.relabel m)
  | ⟨elements, reversed⟩ => by
    rw [relabel, termsUnder, termsUnder, elementsTerms_relabel (outer ^^ reversed) elements]

theorem elementsTerms_relabel (reversed : Bool) : ∀ elements : List SortElement,
    elementsTerms reversed (relabelElements m elements) =
      (elementsTerms reversed elements).map (·.relabel m)
  | [] => rfl
  | e :: rest => by
    rw [relabelElements, elementsTerms, elementsTerms, List.map_append,
      elementTerms_relabel reversed e, elementsTerms_relabel reversed rest]

theorem elementTerms_relabel (reversed : Bool) : ∀ e : SortElement,
    elementTerms reversed (relabelElement m e) = (elementTerms reversed e).map (·.relabel m)
  | .term t => by
    rw [relabelElement, elementTerms, elementTerms, List.map_singleton,
      SortTerm.reverseIf_relabel]
  | .nested o => by
    rw [relabelElement, elementTerms, elementTerms, termsUnder_relabel reversed o]

end

theorem terms_relabel (o : SortOrder) : (o.relabel m).terms = o.terms.map (·.relabel m) :=
  termsUnder_relabel m false o

theorem relabelElements_eq_map (elements : List SortElement) :
    relabelElements m elements = elements.map (relabelElement m) := by
  induction elements with
  | nil => rfl
  | cons e rest ih => rw [relabelElements, ih, List.map_cons]

theorem pushOrder_relabel (o other : SortOrder) :
    (o.pushOrder other).relabel m = (o.relabel m).pushOrder (other.relabel m) := by
  obtain ⟨elements, reversed⟩ := o
  obtain ⟨elements', reversed'⟩ := other
  rw [pushOrder, pushOrder, relabel, relabel, relabelElements_eq_map m elements',
    List.isEmpty_map]
  split
  · rfl
  · rw [relabel, relabelElements_eq_map, List.map_append, relabelElements_eq_map,
      List.map_singleton, relabelElement, relabel, relabelElements_eq_map]

mutual

/-- Identities that stay leave the order as it is. -/
theorem relabel_eq_self {m : Alias → Alias} : ∀ o : SortOrder,
    (∀ e ∈ o.exprs, e.relabel m = e) → o.relabel m = o
  | ⟨elements, reversed⟩, h => by rw [relabel, relabelElements_eq_self elements h]

theorem relabelElements_eq_self {m : Alias → Alias} : ∀ elements : List SortElement,
    (∀ e ∈ elementsExprs elements, e.relabel m = e) → relabelElements m elements = elements
  | [], _ => rfl
  | e :: rest, h => by
    rw [elementsExprs, List.forall_mem_append] at h
    rw [relabelElements, relabelElement_eq_self e h.1, relabelElements_eq_self rest h.2]

theorem relabelElement_eq_self {m : Alias → Alias} : ∀ e : SortElement,
    (∀ e' ∈ elementExprs e, e'.relabel m = e') → relabelElement m e = e
  | .term t, h => by rw [relabelElement, SortTerm.relabel, h t.expr List.mem_cons_self]
  | .nested o, h => by rw [relabelElement, relabel_eq_self o h]

end

end

end SortOrder

/-- The clauses with other identities for their occurrences. -/
def Clauses.relabel (m : Alias → Alias) (c : Clauses) : Clauses where
  selection := c.selection.map (·.relabel m)
  distinct := c.distinct
  filter? := c.filter?.map (·.map (·.relabel m))
  group? := c.group?.map (·.map (·.map (·.relabel m)))
  having? := c.having?.map (·.relabel m)
  order := c.order.relabel m
  limit? := c.limit?

theorem SelectItem.qualified_relabel (m : ρ → σ) (owner : ρ) (i : SelectItem ρ) :
    (i.qualified owner).relabel m = (i.relabel m).qualified (m owner) := by
  cases i with
  | star owner? => cases owner? <;> rfl
  | expr e name? => rw [qualified, relabel, relabel, qualified, e.qualified_relabel]

theorem Lookup.map_eq_self {α : Type} {k : α → α} {x : Lookup α}
    (h : ∀ db a, x.resolve db = .ok a → k a = a) : x.map k = x := by
  refine congrArg Lookup.mk (funext fun db => ?_)
  cases hx : x.resolve db with
  | error e => rfl
  | ok a => exact congrArg Except.ok (h db a hx)

theorem Clauses.qualified_relabel (m : Alias → Alias) (owner : Alias) (c : Clauses) :
    (c.qualified owner).relabel m = (c.relabel m).qualified (m owner) := by
  rw [qualified, relabel, relabel, qualified]
  simp only [List.map_map, Option.map_map, SortOrder.qualified_relabel, Function.comp_def,
    Lookup.map_map, SelectItem.qualified_relabel, Expr.qualified_relabel]

/-! ## The tree -/

mutual

/-- The request with other identities for its occurrences. -/
def Query.relabel (m : Alias → Alias) : Query → Query
  | ⟨source, clauses, joins, isQualified⟩ =>
    ⟨source.relabel m, clauses.relabel m, relabelJoins m joins, isQualified⟩

/-- The source with other identities for its occurrences. -/
def Source.relabel (m : Alias → Alias) : Source → Source
  | .table name alias? => .table name (alias?.map m)
  | .nested query alias? => .nested (query.relabel m) (alias?.map m)

/-- The joins with other identities for their occurrences. -/
def relabelJoins (m : Alias → Alias) : List Join → List Join
  | [] => []
  | j :: rest => j.relabel m :: relabelJoins m rest

/-- The join with other identities for its occurrences. -/
def Join.relabel (m : Alias → Alias) : Join → Join
  | ⟨key, kind, link, mergedLinks, query⟩ => ⟨key, kind, link, mergedLinks, query.relabel m⟩

end

section

variable (m : Alias → Alias)

theorem Source.alias?_relabel (s : Source) : (s.relabel m).alias? = s.alias?.map m := by
  cases s <;> rfl

mutual

theorem Query.levelAliases_relabel : ∀ q : Query,
    (q.relabel m).levelAliases = q.levelAliases.map m
  | ⟨source, clauses, joins, _⟩ => by
    rw [Query.relabel, Query.levelAliases, Query.levelAliases, Source.alias?_relabel,
      joinsLevelAliases_relabel joins, List.map_append, Option.toList_map]

theorem joinsLevelAliases_relabel : ∀ joins : List Join,
    joinsLevelAliases (relabelJoins m joins) = (joinsLevelAliases joins).map m
  | [] => rfl
  | j :: rest => by
    rw [relabelJoins, joinsLevelAliases, joinsLevelAliases, List.map_append,
      joinLevelAliases_relabel j, joinsLevelAliases_relabel rest]

theorem joinLevelAliases_relabel : ∀ j : Join,
    joinLevelAliases (j.relabel m) = (joinLevelAliases j).map m
  | ⟨_, _, _, _, query⟩ => by
    rw [Join.relabel, joinLevelAliases, joinLevelAliases, Query.levelAliases_relabel query]

end

mutual

theorem Query.statementAliases_relabel : ∀ q : Query,
    (q.relabel m).statementAliases = q.statementAliases.map m
  | ⟨source, clauses, joins, _⟩ => by
    rw [Query.relabel, Query.statementAliases, Query.statementAliases, List.map_append,
      Source.statementAliases_relabel source, joinsStatementAliases_relabel joins]

theorem Source.statementAliases_relabel : ∀ s : Source,
    (s.relabel m).statementAliases = s.statementAliases.map m
  | .table name alias? => by
    rw [Source.relabel, Source.statementAliases, Source.statementAliases, Option.toList_map]
  | .nested query alias? => by
    rw [Source.relabel, Source.statementAliases, Source.statementAliases, List.map_append,
      Option.toList_map, Query.statementAliases_relabel query]

theorem joinsStatementAliases_relabel : ∀ joins : List Join,
    joinsStatementAliases (relabelJoins m joins) = (joinsStatementAliases joins).map m
  | [] => rfl
  | j :: rest => by
    rw [relabelJoins, joinsStatementAliases, joinsStatementAliases, List.map_append,
      joinStatementAliases_relabel j, joinsStatementAliases_relabel rest]

theorem joinStatementAliases_relabel : ∀ j : Join,
    joinStatementAliases (j.relabel m) = (joinStatementAliases j).map m
  | ⟨_, _, _, _, query⟩ => by
    rw [Join.relabel, joinStatementAliases, joinStatementAliases,
      Query.statementAliases_relabel query]

end

mutual

theorem Query.unordered_relabel : ∀ q : Query, (q.relabel m).unordered = q.unordered.relabel m
  | ⟨_, _, joins, _⟩ => by
    rw [Query.relabel, Query.unordered, Query.unordered, Query.relabel,
      unorderedJoins_relabel joins]
    rfl

theorem unorderedJoins_relabel : ∀ joins : List Join,
    Query.unorderedJoins (relabelJoins m joins) = relabelJoins m (Query.unorderedJoins joins)
  | [] => rfl
  | j :: rest => by
    rw [relabelJoins, Query.unorderedJoins, Query.unorderedJoins, relabelJoins,
      unorderedJoin_relabel j, unorderedJoins_relabel rest]

theorem unorderedJoin_relabel : ∀ j : Join,
    Query.unorderedJoin (j.relabel m) = (Query.unorderedJoin j).relabel m
  | ⟨_, _, _, _, query⟩ => by
    rw [Join.relabel, Query.unorderedJoin, Query.unorderedJoin, Join.relabel,
      Query.unordered_relabel query]

end

mutual

theorem Query.items_relabel : ∀ q : Query, (q.relabel m).items = q.items.map (·.relabel m)
  | ⟨_, clauses, joins, _⟩ => by
    rw [Query.relabel, Query.items, Query.items, List.map_append, joinsItems_relabel joins]
    rfl

theorem joinsItems_relabel : ∀ joins : List Join,
    joinsItems (relabelJoins m joins) = (joinsItems joins).map (·.relabel m)
  | [] => rfl
  | j :: rest => by
    rw [relabelJoins, joinsItems, joinsItems, List.map_append, joinItems_relabel j,
      joinsItems_relabel rest]

theorem joinItems_relabel : ∀ j : Join, joinItems (j.relabel m) = (joinItems j).map (·.relabel m)
  | ⟨_, _, _, _, query⟩ => by
    rw [Join.relabel, joinItems, joinItems, Query.items_relabel query]

end

mutual

theorem Query.fullOrder_relabel : ∀ q : Query,
    (q.relabel m).fullOrder = q.fullOrder.relabel m
  | ⟨_, clauses, joins, _⟩ => by
    rw [Query.relabel, Query.fullOrder, Query.fullOrder, ← pushOrders_relabel joins]
    rfl

theorem pushOrders_relabel : ∀ (joins : List Join) {o : SortOrder},
    pushOrders (o.relabel m) (relabelJoins m joins) = (pushOrders o joins).relabel m
  | [], o => rfl
  | j :: rest, o => by
    rw [relabelJoins, pushOrders, pushOrders, joinOrder_relabel j, ← SortOrder.pushOrder_relabel,
      pushOrders_relabel rest]

theorem joinOrder_relabel : ∀ j : Join, joinOrder (j.relabel m) = (joinOrder j).relabel m
  | ⟨_, _, _, _, query⟩ => by
    rw [Join.relabel, joinOrder, joinOrder, Query.fullOrder_relabel query]

end

end

end SqlTree
