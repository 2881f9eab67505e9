import QueryTree.Proofs.Naming.Copies
import QueryTree.Proofs.Naming.Writing

/-!
Runs of operations, one after the other: tables, queries and what is made of them, lookups, names
that are asked for, and statements. The world is what they leave behind, the registry and the query
objects that there have been. Expressions, columns, relations and sources come and go; an operation
takes any that hold none but these objects.
-/

namespace QueryTree

inductive Op where
  | declareTable (name : String) (fields : List String)
  | newQuery
  | build (q : Query) (s : BuildStep)
  | union (op : SetOp) (left right : Query)
  | derive (q : Query) (name : String)
  | unfold (q : Query) (name : Option String)
  | unfoldDerived (d : Derived)
  | copy (q : Query)
  | copySource (source : Source)
  | internalName (q : Query)
  | outputColumn (q : Query) (name : String)
  | relation (q : Query) (name : String)
  | project (scope : Scope) (name : String)
  | statement (q : Query) (bindings : Bindings) (options : Options)

/-- What an operation gives back, the query objects that come about and the registry behind it. -/
structure Outcome where
  objects : List QueryObject
  results : List Entity
  registry : Registry

/-- A lookup gives back what it finds, if it finds something. -/
def Outcome.ofAttempt {α : Type} (entity : α → Entity) :
    Except QueryError α × Registry → Outcome
  | (.ok a, last) => ⟨[], [entity a], last⟩
  | (.error _, last) => ⟨[], [], last⟩

namespace Op

def run (registry : Registry) : Op → Outcome
  | .declareTable name fields =>
    let made := QueryTree.declareTable name fields registry
    ⟨[], [.relation (.table made.1)], made.2⟩
  | .newQuery =>
    let made := Query.empty.anew registry
    ⟨Query.empty.objects registry, [.query made.1], made.2⟩
  | .build q s =>
    let made := (q.build s).anew registry
    ⟨(q.build s).objects registry, [.query made.1], made.2⟩
  | .union op left right =>
    match Query.union op left right registry with
    | (.ok q, last) =>
      ⟨(Query.empty.extendSources [.union op left right] false).objects registry, [.query q], last⟩
    | (.error _, last) => ⟨[], [], last⟩
  | .derive q name =>
    let made := q.derive name registry
    ⟨q.subSelect.objects registry ++ q.copies (q.subSelect.anew registry).2,
      [.scope (.derived made.1)], made.2⟩
  | .unfold q name =>
    let made := q.unfold name registry
    let before := if name.isSome then registry else (q.internalName registry).2
    ⟨q.copies before, [.scope (.unfolded made.1)], made.2⟩
  | .unfoldDerived d =>
    let made := d.unfold registry
    ⟨d.given.copies registry, [.scope (.unfolded made.1)], made.2⟩
  | .copy q =>
    let made := q.copy registry
    ⟨q.copies registry, [.query made.1], made.2⟩
  | .copySource source =>
    let made := source.copy registry
    ⟨source.copies registry, [.source made.1], made.2⟩
  | .internalName q => ⟨[], [], (q.internalName registry).2⟩
  | .outputColumn q name => .ofAttempt .column (q.outputColumn name registry)
  | .relation q name => .ofAttempt .relation (q.relation name registry)
  | .project scope name => .ofAttempt .relation (scope.project name registry)
  | .statement q bindings options => ⟨[], [], (q.statement bindings options registry).2⟩

/-- The things that an operation is given. -/
def args : Op → List Entity
  | .declareTable .. | .newQuery => []
  | .build q s => .query q :: s.parts
  | .union _ left right => [.query left, .query right]
  | .unfoldDerived d => [.scope (.derived d)]
  | .copySource source => [.source source]
  | .project scope _ => [.scope scope]
  | .derive q _ | .unfold q _ | .copy q | .internalName q | .outputColumn q _ | .relation q _
  | .statement q _ _ => [.query q]

/-- The query objects in what an operation is given. -/
def held (op : Op) : List Query :=
  op.args.flatMap Entity.queries

/-- The query objects that an operation may ask for their names. -/
def asks : Op → List Query
  | .unfold q none | .internalName q | .outputColumn q _ | .relation q _ => [q]
  | .project scope _ => [scope.query]
  | .statement q _ _ => q.queries
  | _ => []

end Op

/-- What is left behind by the operations of a run. -/
structure World where
  registry : Registry
  objects : List QueryObject

namespace World

def start : World := ⟨{}, []⟩

/-- The query is one of the objects. -/
def Knows (w : World) (q : Query) : Prop :=
  ∃ o ∈ w.objects, o.query = q

/-- All queries in the thing are among the objects. -/
def Has (w : World) (x : Entity) : Prop :=
  ∀ q ∈ x.queries, w.Knows q

def Allows (w : World) (op : Op) : Prop :=
  ∀ x ∈ op.args, w.Has x

def after (w : World) (op : Op) : World :=
  ⟨(op.run w.registry).registry, w.objects ++ (op.run w.registry).objects⟩

/-- The later world comes about by a run of operations. -/
inductive Leads (w : World) : World → Prop
  | refl : Leads w w
  | step {later : World} {op : Op} : Leads w later → later.Allows op → Leads w (later.after op)

def name? (w : World) (q : Query) : Option String :=
  w.registry.name? q.id

end World

/-- An object comes from another one by copying, each time from an object with the name. -/
inductive Copied (objects : List QueryObject) (n : String) : QueryObject → QueryObject → Prop
  | refl {o : QueryObject} : o ∈ objects → Copied objects n o o
  | step {o original first : QueryObject} : o ∈ objects →
      o.origin = .copied original.query (some n) → Copied objects n original first →
      Copied objects n o first

open Registry (Grown Adds)

/-- What an operation does, given some queries with all that is in them: first names are asked for,
then objects come about. These are new, or copies of what was given. What is given back holds
them and what was given. -/
structure Outcome.Follows (asks held : List Query) (before : Registry) (outcome : Outcome) :
    Prop where
  registry : ∃ between, Grown (fun id => ∃ q ∈ asks, q.id = id) before between ∧
    Adds between outcome.registry outcome.objects
  origins : ∀ o ∈ outcome.objects, o.origin = .built ∨ o.IsCopyIn held
  results : ∀ P : Query → Prop, (∀ q ∈ held, P q) → (∀ o ∈ outcome.objects, P o.query) →
    ∀ x ∈ outcome.results, ∀ q ∈ x.queries, P q

theorem Registry.grown_internalName {q : Query} {registry : Registry}
    (h : q.id < registry.issued) :
    Grown (fun id => ∃ x ∈ [q], x.id = id) registry (q.internalName registry).2 := by
  refine (grown_nameOf h).mono ?_
  rintro _ rfl
  exact .inl ⟨q, List.mem_singleton_self q, rfl⟩

theorem Query.origin_objects (q : Query) (registry : Registry) :
    ∀ o ∈ q.objects registry, o.origin = .built ∨ o.IsCopyIn (sourcesQueries q.sources) := by
  rw [Query.objects, List.forall_mem_append, List.forall_mem_singleton]
  exact ⟨fun o ho => .inr (isCopyIn_sourcesCopies q.sources registry o ho), .inl rfl⟩

namespace Outcome.Follows

variable {asks held : List Query} {registry last : Registry}

/-- Nothing comes about. -/
theorem of_grown {results : List Entity}
    (h : Grown (fun id => ∃ q ∈ asks, q.id = id) registry last)
    (hresults : ∀ x ∈ results, x.queries ⊆ held) :
    Follows asks held registry ⟨[], results, last⟩ where
  registry := ⟨last, h, .nil last⟩
  origins := by simp
  results := fun _ hheld _ x hx q hq => hheld q (hresults x hx hq)

theorem of_adds {objects : List QueryObject} {results : List Entity}
    (h : Adds registry last objects)
    (horigins : ∀ o ∈ objects, o.origin = .built ∨ o.IsCopyIn held)
    (hresults : ∀ P : Query → Prop, (∀ q ∈ held, P q) → (∀ o ∈ objects, P o.query) →
      ∀ x ∈ results, ∀ q ∈ x.queries, P q) :
    Follows asks held registry ⟨objects, results, last⟩ :=
  ⟨⟨registry, .refl registry, h⟩, horigins, hresults⟩

/-- The clauses of a query that is built go into a new object. -/
theorem anew {q : Query} (hq : q.Holding (· ∈ held)) :
    Follows asks held registry
      ⟨q.objects registry, [.query (q.anew registry).1], (q.anew registry).2⟩ := by
  refine of_adds (q.adds_objects registry) ?_ ?_
  · intro o ho
    refine (q.origin_objects registry o ho).imp_right fun hcopy => hcopy.mono ?_
    exact forall_sourcesQueries_iff.mpr hq.sources
  · intro P hheld hobjects
    rw [List.forall_mem_singleton]
    exact Query.queries_anew (Query.Holding.imp hq hheld) hobjects

/-- Both queries of a derived table are objects of its own. -/
theorem derive (q : Query) (name : String) :
    Follows asks q.queries registry
      ⟨q.subSelect.objects registry ++ q.copies (q.subSelect.anew registry).2,
        [.scope (.derived (q.derive name registry).1)], (q.derive name registry).2⟩ := by
  have hsub : q.subSelect.Holding (· ∈ q.queries) := Query.Holding.subSelect fun _ hx => hx
  refine of_adds ((q.subSelect.adds_objects registry).append (q.adds_copies _)) ?_ ?_
  · rw [List.forall_mem_append]
    constructor
    · intro o ho
      refine (q.subSelect.origin_objects registry o ho).imp_right fun hcopy => hcopy.mono ?_
      exact forall_sourcesQueries_iff.mpr hsub.sources
    · exact fun o ho => .inr (q.isCopyIn_copies _ o ho)
  · intro P hheld hobjects
    rw [List.forall_mem_append] at hobjects
    rw [List.forall_mem_singleton]
    have hquery := Query.queries_anew (Query.Holding.imp hsub hheld) hobjects.1
    have hgiven := q.queries_copy _ hheld hobjects.2
    exact List.forall_mem_append.mpr ⟨hquery, hgiven⟩

/-- A copy is made after names may have been asked for. -/
theorem copy {q : Query} {between : Registry} {result : Entity} (hq : q.queries ⊆ held)
    (h : Grown (fun id => ∃ x ∈ asks, x.id = id) registry between)
    (hresult : result.queries = (q.copy between).1.queries) :
    Follows asks held registry ⟨q.copies between, [result], (q.copy between).2⟩ where
  registry := ⟨between, h, q.adds_copies between⟩
  origins := fun o ho => .inr ((q.isCopyIn_copies between o ho).mono hq)
  results := by
    intro P hheld hobjects
    rw [List.forall_mem_singleton, hresult]
    exact q.queries_copy between (fun x hx => hheld x (hq hx)) hobjects

/-- A lookup either finds something or asks for a name. -/
theorem ofAttempt {α : Type} {entity : α → Entity} {q : Query}
    {run : Except QueryError α × Registry}
    (hid : q.id < registry.issued)
    (h : (∃ a, run = (.ok a, registry) ∧ (entity a).queries ⊆ held) ∨
      ∃ e, run = (.error e, (q.internalName registry).2)) :
    Follows [q] held registry (.ofAttempt entity run) := by
  rcases h with ⟨a, rfl, ha⟩ | ⟨e, rfl⟩
  · exact of_grown (.refl registry) (List.forall_mem_singleton.mpr ha)
  · exact of_grown (Registry.grown_internalName hid) (by simp)

end Outcome.Follows

/-- The relation or the column that a lookup finds is one that the query holds. -/
theorem Query.outputColumn_cases (q : Query) (name : String) (registry : Registry) :
    (∃ c, q.outputColumn name registry = (.ok c, registry) ∧ c.queries ⊆ q.queries) ∨
      ∃ e, q.outputColumn name registry = (.error e, (q.internalName registry).2) := by
  have hrun := q.outputColumn_run name registry
  split at hrun
  next c hfound =>
    refine .inl ⟨c, hrun, ?_⟩
    rw [← Expr.queries_column]
    exact q.queries_projection _ (Query.mem_of_outputColumn hrun)
  next => exact .inr ⟨_, hrun⟩

theorem Query.relation_cases (q : Query) (name : String) (registry : Registry) :
    (∃ r, q.relation name registry = (.ok r, registry) ∧ r.queries ⊆ q.queries) ∨
      ∃ e, q.relation name registry = (.error e, (q.internalName registry).2) := by
  have hrun := q.relation_run name registry
  split at hrun
  next r hfound =>
    refine .inl ⟨r, hrun, fun x hx => ?_⟩
    have hsources := forall_sourcesQueries_iff.mpr q.holding_self.sources
    exact hsources x (sourcesQueries_relations q.sources r (Query.mem_of_relation hrun) hx)
  next => exact .inr ⟨_, hrun⟩

/-- The subquery is asked for its name, although the error does not say it. -/
theorem Scope.project_cases (s : Scope) (name : String) (registry : Registry) :
    (∃ r, s.project name registry = (.ok r, registry) ∧ r.queries ⊆ s.queries) ∨
      ∃ e, s.project name registry = (.error e, (s.query.internalName registry).2) := by
  rw [Scope.project_run]
  rcases s.query.relation_cases name registry with ⟨r, hrun, hr⟩ | ⟨e, hrun⟩
  · rw [hrun]
    have hsource : r.queries ⊆ s.queries := fun x hx => s.queries_query (hr hx)
    exact .inl ⟨_, rfl, List.append_subset.mpr ⟨List.Subset.refl _, hsource⟩⟩
  · rw [hrun]
    exact .inr ⟨_, rfl⟩

theorem Op.follows {registry : Registry} (op : Op) (h : ∀ q ∈ op.asks, q.id < registry.issued) :
    (op.run registry).Follows op.asks op.held registry := by
  have hself : ∀ q : Query, [Entity.query q].flatMap Entity.queries = q.queries :=
    fun q => List.append_nil _
  cases op with
  | declareTable name fields =>
    exact .of_grown (Registry.grown_fresh _ registry) (by simp [Entity.queries, Relation.queries])
  | newQuery => exact .anew Query.Over.empty
  | build q s =>
    refine .anew (Query.Holding.build (q.holding_self.imp ?_) fun part hpart x hx => ?_)
    · exact fun x hx => List.mem_append_left _ hx
    · exact List.mem_append_right _ (List.mem_flatMap_of_mem hpart hx)
  | union op left right =>
    rw [run, Query.union_run]
    by_cases harity : left.arity = right.arity
    · rw [if_pos harity]
      refine .anew (Query.Over.empty.extendSources ?_ false)
      simp [held, args, Entity.queries, Source.queries]
    · rw [if_neg harity]
      exact .of_grown (.refl registry) (by simp)
  | derive q name =>
    rw [held, args, hself]
    exact .derive q name
  | unfold q name =>
    rw [held, args, hself]
    cases name with
    | none =>
      have hid := h q (List.mem_singleton_self q)
      exact .copy (List.Subset.refl _) (Registry.grown_internalName hid) rfl
    | some name => exact .copy (List.Subset.refl _) (.refl registry) rfl
  | unfoldDerived d =>
    obtain ⟨name, query, given⟩ := d
    refine .copy ?_ (.refl registry) rfl
    simp [held, args, Entity.queries, Scope.queries]
  | copy q =>
    rw [held, args, hself]
    exact .copy (List.Subset.refl _) (.refl registry) rfl
  | copySource source =>
    have hheld : (copySource source).held = source.queries := List.append_nil _
    rw [hheld]
    refine .of_adds (source.adds_copies registry) ?_ fun P hheld hobjects => ?_
    · exact fun o ho => .inr (source.isCopyIn_copies registry o ho)
    · exact List.forall_mem_singleton.mpr (source.queries_copy registry hheld hobjects)
  | internalName q =>
    have hid := h q (List.mem_singleton_self q)
    exact .of_grown (Registry.grown_internalName hid) (by simp)
  | outputColumn q name =>
    rw [held, args, hself]
    exact .ofAttempt (h q (List.mem_singleton_self q)) (q.outputColumn_cases name registry)
  | relation q name =>
    rw [held, args, hself]
    exact .ofAttempt (h q (List.mem_singleton_self q)) (q.relation_cases name registry)
  | project scope name =>
    have hheld : (project scope name).held = scope.queries := List.append_nil _
    rw [hheld]
    have hid := h scope.query (List.mem_singleton_self _)
    exact .ofAttempt hid (scope.project_cases name registry)
  | statement q bindings options => exact .of_grown (Render.grown_statement h) (by simp)

theorem Op.asks_subset (op : Op) : op.asks ⊆ op.held := by
  have hself : ∀ q : Query, [q] ⊆ [Entity.query q].flatMap Entity.queries := by
    intro q
    simpa [Entity.queries] using q.mem_queries
  cases op with
  | unfold q name =>
    cases name with
    | none => exact hself q
    | some name => exact List.nil_subset _
  | internalName q | outputColumn q name | relation q name => exact hself q
  | project scope name =>
    simpa [asks, held, args, Entity.queries] using scope.queries_query scope.query.mem_queries
  | statement q bindings options => simp [asks, held, args, Entity.queries]
  | _ => exact List.nil_subset _

end QueryTree
