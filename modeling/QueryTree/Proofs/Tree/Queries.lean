import QueryTree.Proofs.Tree.Built

/-!
The query objects in a thing, however deep they are. What is read off a thing holds none that the
thing does not hold, and what a query is built of is all that it holds, itself apart.
-/

namespace QueryTree

mutual

/-- A column holds what its owner holds. -/
def Expr.queries : Expr → List Query
  | .value _ => []
  | .param _ => []
  | .star => []
  | .column ⟨owner, _, _, _⟩ => owner.queries
  | .unary _ operand => operand.queries
  | .binary _ left right => left.queries ++ right.queries
  | .between subject low high => subject.queries ++ low.queries ++ high.queries
  | .call _ args => exprsQueries args
  | .list items => exprsQueries items
  | .labeled e _ => e.queries
  | .subquery ⟨_, query⟩ => query.queries

def exprsQueries : List Expr → List Query
  | [] => []
  | e :: rest => e.queries ++ exprsQueries rest

def Relation.queries : Relation → List Query
  | .table _ => []
  | .alias_ _ => []
  | .projected scope source => scope.queries ++ source.queries
  | .derived ⟨_, query, given⟩ => query.queries ++ given.queries

/-- A derived table holds the query that it was made of beside the one that is written. -/
def Scope.queries : Scope → List Query
  | .derived ⟨_, query, given⟩ => query.queries ++ given.queries
  | .unfolded ⟨_, query⟩ => query.queries

def Source.queries : Source → List Query
  | .relation r => r.queries
  | .join _ left right on => left.queries ++ right.queries ++ exprsQueries on
  | .union _ left right => left.queries ++ right.queries

def sourcesQueries : List Source → List Query
  | [] => []
  | source :: rest => source.queries ++ sourcesQueries rest

def Query.queries : Query → List Query
  | ⟨select, sub, sources, filter, group, having, order, limit, id⟩ =>
    ⟨select, sub, sources, filter, group, having, order, limit, id⟩ ::
      (exprsQueries select ++ sourcesQueries sources ++ exprsQueries filter ++
        exprsQueries group ++ exprsQueries having ++ exprsQueries order ++ exprsQueries limit)

end

def Column.queries (c : Column) : List Query :=
  c.owner.queries

def Entity.queries : Entity → List Query
  | .relation r => r.queries
  | .scope s => s.queries
  | .column c => c.queries
  | .expr e => e.queries
  | .source s => s.queries
  | .query q => q.queries

section
variable {P : Query → Prop}

theorem forall_exprsQueries_iff {es : List Expr} :
    (∀ x ∈ exprsQueries es, P x) ↔ ∀ e ∈ es, ∀ x ∈ e.queries, P x := by
  induction es with
  | nil => simp [exprsQueries]
  | cons e rest ih => rw [exprsQueries, List.forall_mem_append, List.forall_mem_cons, ih]

theorem forall_sourcesQueries_iff {sources : List Source} :
    (∀ x ∈ sourcesQueries sources, P x) ↔ ∀ source ∈ sources, ∀ x ∈ source.queries, P x := by
  induction sources with
  | nil => simp [sourcesQueries]
  | cons source rest ih => rw [sourcesQueries, List.forall_mem_append, List.forall_mem_cons, ih]

/-- All clauses of a query hold query objects of one kind only. -/
abbrev Query.Holding (P : Query → Prop) (q : Query) : Prop :=
  q.Over (fun e => ∀ x ∈ e.queries, P x) fun source => ∀ x ∈ source.queries, P x

theorem Query.forall_queries_iff {q : Query} :
    (∀ x ∈ q.queries, P x) ↔ P q ∧ q.Holding P := by
  obtain ⟨select, sub, sources, filter, group, having, order, limit, id⟩ := q
  simp only [Query.queries, List.forall_mem_cons, List.forall_mem_append, forall_exprsQueries_iff,
    forall_sourcesQueries_iff]
  constructor
  · rintro ⟨hq, ⟨⟨⟨⟨⟨hselect, hsources⟩, hfilter⟩, hgroup⟩, hhaving⟩, horder⟩, hlimit⟩
    refine ⟨hq, hselect, hsources, ?_⟩
    simpa [trailingLists] using ⟨hfilter, hgroup, hhaving, horder, hlimit⟩
  · rintro ⟨hq, hselect, hsources, htrailing⟩
    simp only [trailingLists, List.forall_mem_cons] at htrailing
    obtain ⟨hfilter, hgroup, hhaving, horder, hlimit, -⟩ := htrailing
    exact ⟨hq, ⟨⟨⟨⟨⟨hselect, hsources⟩, hfilter⟩, hgroup⟩, hhaving⟩, horder⟩, hlimit⟩

theorem Query.holding_self (q : Query) : q.Holding (· ∈ q.queries) :=
  (Query.forall_queries_iff.mp fun _ hx => hx).2

theorem Query.mem_queries (q : Query) : q ∈ q.queries := by
  cases q
  exact List.mem_cons_self

end

/-! What is read off. -/

theorem Expr.queries_column (c : Column) : (Expr.column c).queries = c.queries := by
  cases c
  rfl

theorem Relation.queries_of_mem_columns {r : Relation} {c : Column} (h : c ∈ r.columns) :
    c.queries = r.queries := by
  rw [eq_plain_of_mem_columns h]
  rfl

theorem Source.queries_relations : (source : Source) →
    ∀ r ∈ source.relations, r.queries ⊆ source.queries
  | .relation r => by simp [Source.relations, Source.queries]
  | .join kind left right on => by
    rw [Source.relations, List.forall_mem_append, Source.queries, List.append_assoc]
    constructor
    · intro r hr
      exact List.subset_append_of_subset_left _ (left.queries_relations r hr)
    · intro r hr
      refine List.subset_append_of_subset_right _ ?_
      exact List.subset_append_of_subset_left _ (right.queries_relations r hr)
  | .union op left right => by simp [Source.relations]

theorem sourcesQueries_relations (sources : List Source) :
    ∀ r ∈ sourcesRelations sources, r.queries ⊆ sourcesQueries sources := by
  induction sources with
  | nil => simp [sourcesRelations]
  | cons source rest ih =>
    rw [sourcesRelations, List.forall_mem_append, sourcesQueries]
    constructor
    · intro r hr
      exact List.subset_append_of_subset_left _ (source.queries_relations r hr)
    · intro r hr
      exact List.subset_append_of_subset_right _ (ih r hr)

theorem sourcesQueries_columns (sources : List Source) :
    ∀ c ∈ sourcesColumns sources, c.queries ⊆ sourcesQueries sources := by
  intro c hc
  rw [sourcesColumns_eq_flatMap] at hc
  obtain ⟨r, hr, hc⟩ := List.mem_flatMap.mp hc
  rw [Relation.queries_of_mem_columns hc]
  exact sourcesQueries_relations sources r hr

mutual

theorem sourcesQueries_unionProjection : (sources : List Source) →
    ∀ items ∈ unionProjection sources, ∀ e ∈ items, e.queries ⊆ sourcesQueries sources
  | [], items, h, _, _ => nomatch h
  | .relation r :: rest, items, h, e, he => by
    have hrest := sourcesQueries_unionProjection rest items h e he
    exact List.subset_append_of_subset_right _ hrest
  | .join _ _ _ _ :: rest, items, h, e, he => by
    have hrest := sourcesQueries_unionProjection rest items h e he
    exact List.subset_append_of_subset_right _ hrest
  | .union op left right :: rest, items, h, e, he => by
    obtain rfl : left.projection = items := Option.some.inj h
    have hleft := left.queries_projection e he
    rw [sourcesQueries, Source.queries, List.append_assoc]
    exact List.subset_append_of_subset_left _ hleft

/-- What a query puts out holds no query object that the query does not hold. -/
theorem Query.queries_projection : (q : Query) → ∀ e ∈ q.projection, e.queries ⊆ q.queries
  | ⟨select, sub, sources, filter, group, having, order, limit, id⟩, e, he => by
    have hsources : sourcesQueries sources ⊆
        Query.queries ⟨select, sub, sources, filter, group, having, order, limit, id⟩ := by
      simp only [Query.queries]
      grind
    rw [Query.projection] at he
    split at he
    · split at he
      next items hitems =>
        exact List.Subset.trans (sourcesQueries_unionProjection sources items hitems e he) hsources
      next =>
        obtain ⟨c, hc, rfl⟩ := List.mem_map.mp he
        rw [Expr.queries_column]
        exact List.Subset.trans (sourcesQueries_columns sources c hc) hsources
    · exact (Query.holding_self _).select e he

end

theorem Expr.queries_parts (e : Expr) : ∀ y ∈ e.parts, y.queries ⊆ e.queries := by
  have hitems : ∀ es : List Expr, ∀ y ∈ es.map Entity.expr, y.queries ⊆ exprsQueries es := by
    intro es
    exact List.forall_mem_map.mpr (forall_exprsQueries_iff.mp fun _ hx => hx)
  cases e with
  | value | param | star => simp [Expr.parts]
  | column c => simp [Expr.parts, Entity.queries, Expr.queries_column]
  | call name args => exact hitems args
  | list items => exact hitems items
  | subquery u =>
    obtain ⟨name, query⟩ := u
    simp [Expr.parts, Entity.queries, Expr.queries, Scope.queries]
  | _ => simp [Expr.parts, Entity.queries, Expr.queries]

theorem Relation.queries_parts (r : Relation) : ∀ y ∈ r.parts, y.queries ⊆ r.queries := by
  cases r with
  | table | alias_ => simp [Relation.parts]
  | projected scope source => simp [Relation.parts, Entity.queries, Relation.queries]
  | derived d =>
    obtain ⟨name, query, given⟩ := d
    simp [Relation.parts, Entity.queries, Relation.queries, Scope.queries]

theorem Scope.queries_query (s : Scope) : s.query.queries ⊆ s.queries := by
  cases s with
  | derived d =>
    obtain ⟨name, query, given⟩ := d
    exact List.subset_append_left _ _
  | unfolded u =>
    obtain ⟨name, query⟩ := u
    exact List.Subset.refl _

theorem Source.queries_parts (s : Source) : ∀ y ∈ s.parts, y.queries ⊆ s.queries := by
  cases s with
  | relation r => simp [Source.parts, Entity.queries, Source.queries]
  | union op left right => simp [Source.parts, Entity.queries, Source.queries]
  | join kind left right on =>
    have hon : ∀ e ∈ on, e.queries ⊆ exprsQueries on := forall_exprsQueries_iff.mp fun _ hx => hx
    simp only [Source.parts, List.forall_mem_cons, List.forall_mem_map, Source.queries]
    refine ⟨?_, ?_, fun e he => ?_⟩
    · simp [Entity.queries]
    · simp [Entity.queries]
    · exact List.subset_append_of_subset_right _ (hon e he)

/-- What can be read off a thing holds no query object that the thing does not hold. -/
theorem Entity.queries_parts (x : Entity) : ∀ y ∈ x.parts, y.queries ⊆ x.queries := by
  cases x with
  | relation r =>
    rw [Entity.parts, List.forall_mem_append]
    refine ⟨List.forall_mem_map.mpr fun c hc => ?_, r.queries_parts⟩
    change c.queries ⊆ r.queries
    rw [Relation.queries_of_mem_columns hc]
    exact List.Subset.refl _
  | scope s => exact List.forall_mem_singleton.mpr s.queries_query
  | column c => exact List.forall_mem_singleton.mpr (List.Subset.refl _)
  | expr e => exact e.queries_parts
  | source s => exact s.queries_parts
  | query q =>
    obtain ⟨hselect, hsources, htrailing⟩ := q.holding_self
    rw [Entity.parts, List.forall_mem_append, List.forall_mem_map, List.forall_mem_map,
      List.forall_mem_append, List.forall_mem_append]
    refine ⟨⟨⟨q.queries_projection, hselect⟩, fun e he => ?_⟩, hsources⟩
    obtain ⟨es, hes, he⟩ := List.mem_flatten.mp he
    exact htrailing es hes e he

/-! What is built. -/

namespace Query.Holding

variable {P : Query → Prop} {q : Query}

theorem imp {P' : Query → Prop} (h : q.Holding P) (hP : ∀ x, P x → P' x) : q.Holding P' :=
  Over.imp h (fun _ he x hx => hP x (he x hx)) fun _ hs x hx => hP x (hs x hx)

theorem build (h : q.Holding P) {s : BuildStep} (hs : ∀ part ∈ s.parts, ∀ x ∈ part.queries, P x) :
    (q.build s).Holding P := by
  cases s with
  | exprs slot replace items =>
    refine h.extend ?_ slot (List.forall_mem_map.mp hs) replace
    intro left right hleft hright
    exact List.forall_mem_append.mpr ⟨hleft, hright⟩
  | sources replace items => exact h.extendSources (List.forall_mem_map.mp hs) replace

theorem subSelect (h : ∀ x ∈ q.queries, P x) : q.subSelect.Holding P := by
  have hprojection : ∀ e ∈ q.projection, ∀ x ∈ e.queries, P x :=
    fun e he x hx => h x (q.queries_projection e he hx)
  refine Over.subSelect ?_ (fun _ _ he => he) (forall_queries_iff.mp h).2 hprojection
  rintro ⟨owner, field, label, correlated⟩ label' hc
  exact hc

end Query.Holding

end QueryTree
