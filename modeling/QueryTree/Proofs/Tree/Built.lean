import QueryTree.Proofs.Tree.Known

/-!
What can be built: tables and what is made of them, columns that have been looked up, expressions
and sources of such columns, queries from step to step, and whatever is read off one of these.
However it has been built, every column in it is one that its owner has.
-/

namespace QueryTree

mutual

theorem Source.Known.copy : {source : Source} → source.Known → (registry : Registry) →
    (source.copy registry).1.Known
  | .relation _, h, _ => h
  | .join .., ⟨hleft, hright, hon⟩, registry => ⟨hleft.copy registry, hright.copy _, hon⟩
  | .union .., ⟨hleft, hright⟩, registry => ⟨hleft.copy registry, hright.copy _⟩

theorem sourcesKnown.copy : {sources : List Source} → sourcesKnown sources →
    (registry : Registry) → sourcesKnown (copySources sources registry).1
  | [], _, _ => trivial
  | _ :: _, ⟨hsource, hrest⟩, registry => ⟨hsource.copy registry, hrest.copy _⟩

theorem Query.Known.copy : {q : Query} → q.Known → (registry : Registry) →
    (q.copy registry).1.Known
  | ⟨_, _, _, _, _, _, _, _, _⟩, ⟨hselect, hsources, hrest⟩, registry =>
    ⟨hselect, hsources.copy registry, hrest⟩

end

namespace Query.Known

variable {q : Query}

theorem anew (h : q.Known) (registry : Registry) : (q.anew registry).1.Known := by
  cases q
  exact ⟨h.1, h.2.1.copy registry, h.2.2⟩

theorem empty : Query.empty.Known :=
  known_iff.mpr Query.Over.empty

theorem subSelect (h : q.Known) : q.subSelect.Known := by
  refine known_iff.mpr ((known_iff.mp h).subSelect ?_ ?_ (exprsKnown_iff.mp h.projection))
  · rintro ⟨owner, field, label, correlated⟩ label' hc
    exact hc
  · intro e label he
    exact he

theorem derive (h : q.Known) (name : String) (registry : Registry) :
    (q.derive name registry).1.Known :=
  ⟨h.subSelect.anew registry, h.copy _⟩

theorem unfold (h : q.Known) (name : Option String) (registry : Registry) :
    (q.unfold name registry).1.Known := by
  cases name with
  | some name => exact h.copy registry
  | none => exact h.copy _

theorem extend (h : q.Known) (slot : Slot) {items : List Expr} (hitems : ∀ e ∈ items, e.Known)
    (replace : Bool) : (q.extend slot items replace).Known :=
  known_iff.mpr ((known_iff.mp h).extend (fun _ _ => And.intro) slot hitems replace)

theorem extendSources (h : q.Known) {sources : List Source}
    (hsources : ∀ source ∈ sources, source.Known) (replace : Bool) :
    (q.extendSources sources replace).Known :=
  known_iff.mpr ((known_iff.mp h).extendSources hsources replace)

/-- Both operands of a union come from known queries. -/
theorem union {op : SetOp} {left right : Query} (hleft : left.Known) (hright : right.Known)
    {registry last : Registry} (h : Query.union op left right registry = (.ok q, last)) :
    q.Known := by
  obtain ⟨-, hq⟩ := Query.union_ok_iff.mp h
  cases hq
  refine Query.Known.anew (empty.extendSources ?_ false) registry
  simpa [Source.Known] using And.intro hleft hright

end Query.Known

/-- The things that queries are built of. -/
inductive Entity where
  | relation (r : Relation)
  | scope (s : Scope)
  | column (c : Column)
  | expr (e : Expr)
  | source (s : Source)
  | query (q : Query)

def Expr.parts : Expr → List Entity
  | .value _ => []
  | .param _ => []
  | .star => []
  | .column c => [.column c]
  | .unary _ operand => [.expr operand]
  | .binary _ left right => [.expr left, .expr right]
  | .between subject low high => [.expr subject, .expr low, .expr high]
  | .call _ args => args.map .expr
  | .list items => items.map .expr
  | .labeled e _ => [.expr e]
  | .subquery u => [.scope (.unfolded u)]

/-- What a relation is made of, its columns apart. -/
def Relation.parts : Relation → List Entity
  | .table _ => []
  | .alias_ _ => []
  | .projected scope source => [.scope scope, .relation source]
  | .derived d => [.scope (.derived d)]

def Source.parts : Source → List Entity
  | .relation r => [.relation r]
  | .join _ left right on => .source left :: .source right :: on.map .expr
  | .union _ left right => [.query left, .query right]

/-- What can be read off a thing. -/
def Entity.parts : Entity → List Entity
  | .relation r => r.columns.map .column ++ r.parts
  | .scope s => [.query s.query]
  | .column c => [.relation c.owner]
  | .expr e => e.parts
  | .source s => s.parts
  | .query q =>
    (q.projection ++ q.selectList ++ q.trailingLists.flatten).map .expr ++ q.sources.map .source

def BuildStep.parts : BuildStep → List Entity
  | .exprs _ _ items => items.map .expr
  | .sources _ items => items.map .source

/-- What can be built. -/
inductive Built : Entity → Prop
  | table (t : Table) : Built (.relation (.table t))
  | tableAlias (a : TableAlias) : Built (.relation (.alias_ a))
  | derived {d : Derived} : Built (.scope (.derived d)) → Built (.relation (.derived d))
  | projected {s : Scope} {name : String} {registry last : Registry} {r : Relation} :
      Built (.scope s) → s.project name registry = (.ok r, last) → Built (.relation r)
  | derive {q : Query} (name : String) (registry : Registry) :
      Built (.query q) → Built (.scope (.derived (q.derive name registry).1))
  | unfold {q : Query} (name : Option String) (registry : Registry) :
      Built (.query q) → Built (.scope (.unfolded (q.unfold name registry).1))
  | unfoldDerived {d : Derived} (registry : Registry) :
      Built (.scope (.derived d)) → Built (.scope (.unfolded (d.unfold registry).1))
  | lookedUp {r : Relation} {field : String} {c : Column} :
      Built (.relation r) → r.column field = .ok c → Built (.column c)
  | output {q : Query} {name : String} {registry last : Registry} {c : Column} :
      Built (.query q) → q.outputColumn name registry = (.ok c, last) → Built (.column c)
  | aliased {c : Column} (label : String) : Built (.column c) → Built (.column (c.aliased label))
  | correlated {c : Column} : Built (.column c) → Built (.column c.asCorrelated)
  | value (v : Value) : Built (.expr (.value v))
  | param (key : String) : Built (.expr (.param key))
  | star : Built (.expr .star)
  | column {c : Column} : Built (.column c) → Built (.expr (.column c))
  | unary (op : UnaryOp) {e : Expr} : Built (.expr e) → Built (.expr (.unary op e))
  | binary (op : BinaryOp) {left right : Expr} :
      Built (.expr left) → Built (.expr right) → Built (.expr (.binary op left right))
  | between {subject low high : Expr} : Built (.expr subject) → Built (.expr low) →
      Built (.expr high) → Built (.expr (.between subject low high))
  | call (name : String) {args : List Expr} :
      (∀ e ∈ args, Built (.expr e)) → Built (.expr (.call name args))
  | list {items : List Expr} : (∀ e ∈ items, Built (.expr e)) → Built (.expr (.list items))
  | labeled {e : Expr} (label : String) : Built (.expr e) → Built (.expr (.labeled e label))
  | named {e : Expr} (label : String) : Built (.expr e) → Built (.expr (e.named label))
  | subquery {u : Unfolded} : Built (.scope (.unfolded u)) → Built (.expr (.subquery u))
  | relation {r : Relation} : Built (.relation r) → Built (.source (.relation r))
  | join (kind : JoinKind) {left right : Source} {on : List Expr} : Built (.source left) →
      Built (.source right) → (∀ e ∈ on, Built (.expr e)) →
      Built (.source (.join kind left right on))
  | union (op : SetOp) {left right : Query} :
      Built (.query left) → Built (.query right) → Built (.source (.union op left right))
  | empty (registry : Registry) : Built (.query (Query.empty.anew registry).1)
  | step {q : Query} {s : BuildStep} (registry : Registry) : Built (.query q) →
      (∀ part ∈ s.parts, Built part) → Built (.query ((q.build s).anew registry).1)
  | combined {op : SetOp} {left right q : Query} {registry last : Registry} :
      Built (.query left) → Built (.query right) →
      Query.union op left right registry = (.ok q, last) → Built (.query q)
  | copiedSource {s : Source} (registry : Registry) :
      Built (.source s) → Built (.source (s.copy registry).1)
  | copied {q : Query} (registry : Registry) :
      Built (.query q) → Built (.query (q.copy registry).1)
  | part {x y : Entity} : Built x → y ∈ x.parts → Built y

namespace Entity

@[simp] def Known : Entity → Prop
  | .relation r => r.Known
  | .scope s => s.Known
  | .column c => c.Known
  | .expr e => e.Known
  | .source s => s.Known
  | .query q => q.Known

theorem known_map_expr {es : List Expr} :
    (∀ x ∈ es.map .expr, Known x) ↔ ∀ e ∈ es, e.Known := by
  rw [List.forall_mem_map]
  rfl

theorem known_map_source {sources : List Source} :
    (∀ x ∈ sources.map .source, Known x) ↔ ∀ s ∈ sources, s.Known := by
  rw [List.forall_mem_map]
  rfl

end Entity

theorem Expr.Known.parts {e : Expr} (h : e.Known) : ∀ x ∈ e.parts, x.Known := by
  cases e with
  | call name args => exact Entity.known_map_expr.mpr (exprsKnown_iff.mp h)
  | list items => exact Entity.known_map_expr.mpr (exprsKnown_iff.mp h)
  | value | param | star => simp [Expr.parts]
  | _ => simpa [Expr.parts, Expr.Known, Scope.Known] using h

theorem Relation.Known.parts {r : Relation} (h : r.Known) : ∀ x ∈ r.parts, x.Known := by
  cases r with
  | table | alias_ => simp [Relation.parts]
  | projected | derived => simpa [Relation.parts, Relation.Known, Scope.Known] using h

theorem Source.Known.parts {s : Source} (h : s.Known) : ∀ x ∈ s.parts, x.Known := by
  cases s with
  | relation | join | union => simpa [Source.parts, Source.Known, exprsKnown_iff] using h

theorem Query.Known.parts {q : Query} (h : q.Known) : ∀ x ∈ (Entity.query q).parts, x.Known := by
  obtain ⟨hselect, hsources, htrailing⟩ := Query.known_iff.mp h
  have hprojection := exprsKnown_iff.mp h.projection
  rw [Entity.parts, List.forall_mem_append]
  refine ⟨Entity.known_map_expr.mpr ?_, Entity.known_map_source.mpr hsources⟩
  rw [List.forall_mem_append, List.forall_mem_append]
  refine ⟨⟨hprojection, hselect⟩, fun e he => ?_⟩
  obtain ⟨es, hes, he⟩ := List.mem_flatten.mp he
  exact htrailing es hes e he

theorem Entity.Known.parts {x : Entity} (h : x.Known) : ∀ y ∈ x.parts, y.Known := by
  cases x with
  | relation r =>
    rw [Entity.parts, List.forall_mem_append]
    exact ⟨List.forall_mem_map.mpr fun c hc => Relation.Known.of_mem_columns h hc,
      Relation.Known.parts h⟩
  | scope s => exact List.forall_mem_singleton.mpr (Scope.Known.query h)
  | column c => exact List.forall_mem_singleton.mpr (Column.Known.owner h)
  | expr e => exact Expr.Known.parts h
  | source s => exact Source.Known.parts h
  | query q => exact Query.Known.parts h

theorem Expr.Known.named {e : Expr} (h : e.Known) (label : String) : (e.named label).Known := by
  cases e with
  | column c =>
    cases c
    exact h
  | _ => exact h

theorem Query.Known.build {q : Query} (h : q.Known) {s : BuildStep}
    (hs : ∀ part ∈ s.parts, part.Known) : (q.build s).Known := by
  cases s with
  | exprs slot replace items => exact h.extend slot (Entity.known_map_expr.mp hs) replace
  | sources replace items => exact h.extendSources (Entity.known_map_source.mp hs) replace

/-- All columns of what can be built are known. -/
theorem Built.known {x : Entity} (h : Built x) : x.Known := by
  induction h with
  | table => trivial
  | tableAlias => trivial
  | derived _ ih => exact ih
  | projected _ hproject ih =>
    obtain ⟨source, hsource, rfl⟩ := Scope.exists_of_project hproject
    exact ⟨ih, (Scope.Known.query ih).relations source hsource⟩
  | derive name registry _ ih => exact Query.Known.derive ih name registry
  | unfold name registry _ ih => exact Query.Known.unfold ih name registry
  | unfoldDerived registry _ ih => exact Query.Known.unfold (Derived.Known.given ih) _ registry
  | lookedUp _ hcolumn ih => exact Relation.Known.column ih hcolumn
  | output _ hcolumn ih =>
    exact exprsKnown_iff.mp (Query.Known.projection ih) _ (Query.mem_of_outputColumn hcolumn)
  | @aliased c label _ ih =>
    cases c
    exact ih
  | @correlated c _ ih =>
    cases c
    exact ih
  | value => trivial
  | param => trivial
  | star => trivial
  | column _ ih => exact ih
  | unary _ _ ih => exact ih
  | binary _ _ _ ihleft ihright => exact ⟨ihleft, ihright⟩
  | between _ _ _ ihsubject ihlow ihhigh => exact ⟨ihsubject, ihlow, ihhigh⟩
  | call name _ ih => exact exprsKnown_iff.mpr ih
  | list _ ih => exact exprsKnown_iff.mpr ih
  | labeled label _ ih => exact ih
  | named label _ ih => exact Expr.Known.named ih label
  | subquery _ ih => exact ih
  | relation _ ih => exact ih
  | join kind _ _ _ ihleft ihright ihon => exact ⟨ihleft, ihright, exprsKnown_iff.mpr ihon⟩
  | union op _ _ ihleft ihright => exact ⟨ihleft, ihright⟩
  | empty registry => exact Query.Known.empty.anew registry
  | step registry _ _ ih ihparts => exact (Query.Known.build ih ihparts).anew registry
  | combined _ _ hunion ihleft ihright => exact Query.Known.union ihleft ihright hunion
  | copiedSource registry _ ih => exact Source.Known.copy ih registry
  | copied registry _ ih => exact Query.Known.copy ih registry
  | part _ hy ih => exact ih.parts _ hy

end QueryTree
