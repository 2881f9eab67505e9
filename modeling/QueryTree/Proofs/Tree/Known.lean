import QueryTree.Proofs.Tree.Clauses
import QueryTree.Proofs.Tree.Copy

/-!
Trees in which every column is one that its owner has. What is read off such a tree is of that kind
again, and so is what is built of it.
-/

namespace QueryTree

namespace Relation

/-- The relation has a column for the field. -/
def Has (r : Relation) (field : String) : Prop :=
  r.column field = .ok (.plain r field)

/-- What a relation finds for a field is that field of its own. -/
theorem eq_plain_of_column : (r : Relation) → {field : String} → {c : Column} →
    r.column field = .ok c → c = .plain r field
  | .table t, field, c, h => by
    unfold column at h
    split at h <;> cases h
    rfl
  | .alias_ a, field, c, h => by
    unfold column at h
    split at h <;> cases h
    rfl
  | .projected scope source, field, c, h => by
    unfold column at h
    cases hsource : source.column field with
    | error e =>
      rw [hsource] at h
      cases h
    | ok inner =>
      rw [hsource] at h
      cases h
      rw [source.eq_plain_of_column hsource]
      rfl
  | .derived d, field, c, h => by
    unfold column at h
    split at h <;> cases h
    rfl

theorem has_of_column {r : Relation} {field : String} {c : Column} (h : r.column field = .ok c) :
    r.Has field := by
  rw [Has, h, r.eq_plain_of_column h]

/-- A relation inside a subquery has the same fields from outside. -/
theorem has_projected_iff {scope : Scope} {source : Relation} {field : String} :
    (projected scope source).Has field ↔ source.Has field := by
  constructor
  · intro h
    rw [Has, column] at h
    cases hsource : source.column field with
    | error e =>
      rw [hsource] at h
      cases h
    | ok inner => exact has_of_column hsource
  · intro h
    rw [Has, column, h]
    rfl

/-- A relation has the fields of the columns that it lists. -/
theorem has_of_mem_columns : (r : Relation) → {c : Column} → c ∈ r.columns → r.Has c.field
  | .table t, c, h => by
    rw [columns] at h
    obtain ⟨field, hfield, rfl⟩ := List.mem_map.mp h
    simp [Has, column, Table.hasField, hfield, Column.plain]
  | .alias_ a, c, h => by
    rw [columns] at h
    obtain ⟨field, hfield, rfl⟩ := List.mem_map.mp h
    simp [Has, column, Table.hasField, hfield, Column.plain]
  | .projected scope source, c, h => by
    rw [columns] at h
    obtain ⟨inner, hinner, rfl⟩ := List.mem_map.mp h
    have hfield := source.has_of_mem_columns hinner
    exact has_projected_iff.mpr hfield
  | .derived ⟨name, query, given⟩, c, h => by
    rw [columns] at h
    obtain ⟨output, houtput, rfl⟩ := List.mem_map.mp h
    have hname : output ∈ query.outputNames := houtput
    simp [Has, column, hname, Column.plain]

end Relation

mutual

def Expr.Known : Expr → Prop
  | .value _ => True
  | .param _ => True
  | .star => True
  | .column c => c.Known
  | .unary _ operand => operand.Known
  | .binary _ left right => left.Known ∧ right.Known
  | .between subject low high => subject.Known ∧ low.Known ∧ high.Known
  | .call _ args => exprsKnown args
  | .list items => exprsKnown items
  | .labeled e _ => e.Known
  | .subquery u => u.Known

def exprsKnown : List Expr → Prop
  | [] => True
  | e :: rest => e.Known ∧ exprsKnown rest

/-- The owner has the column, and all columns inside the owner are known too. -/
def Column.Known : Column → Prop
  | ⟨owner, field, _, _⟩ => owner.Known ∧ owner.Has field

def Relation.Known : Relation → Prop
  | .table _ => True
  | .alias_ _ => True
  | .projected scope source => scope.Known ∧ source.Known
  | .derived d => d.Known

def Scope.Known : Scope → Prop
  | .derived d => d.Known
  | .unfolded u => u.Known

def Derived.Known : Derived → Prop
  | ⟨_, query, given⟩ => query.Known ∧ given.Known

def Unfolded.Known : Unfolded → Prop
  | ⟨_, query⟩ => query.Known

def Source.Known : Source → Prop
  | .relation r => r.Known
  | .join _ left right on => left.Known ∧ right.Known ∧ exprsKnown on
  | .union _ left right => left.Known ∧ right.Known

def sourcesKnown : List Source → Prop
  | [] => True
  | source :: rest => source.Known ∧ sourcesKnown rest

def Query.Known : Query → Prop
  | ⟨select, _, sources, filter, group, having, order, limit, _⟩ =>
    exprsKnown select ∧ sourcesKnown sources ∧ exprsKnown filter ∧ exprsKnown group ∧
      exprsKnown having ∧ exprsKnown order ∧ exprsKnown limit

end

theorem exprsKnown_iff {es : List Expr} : exprsKnown es ↔ ∀ e ∈ es, e.Known := by
  induction es with
  | nil => simp [exprsKnown]
  | cons e rest ih => simp [exprsKnown, ih]

theorem sourcesKnown_iff {sources : List Source} :
    sourcesKnown sources ↔ ∀ source ∈ sources, source.Known := by
  induction sources with
  | nil => simp [sourcesKnown]
  | cons source rest ih => simp [sourcesKnown, ih]

theorem Query.known_iff {q : Query} : q.Known ↔ q.Over Expr.Known Source.Known := by
  obtain ⟨select, sub, sources, filter, group, having, order, limit, id⟩ := q
  constructor
  · rintro ⟨hselect, hsources, hfilter, hgroup, hhaving, horder, hlimit⟩
    refine ⟨exprsKnown_iff.mp hselect, sourcesKnown_iff.mp hsources, ?_⟩
    simpa [Query.trailingLists, ← exprsKnown_iff] using
      ⟨hfilter, hgroup, hhaving, horder, hlimit⟩
  · rintro ⟨hselect, hsources, htrailing⟩
    refine ⟨exprsKnown_iff.mpr hselect, sourcesKnown_iff.mpr hsources, ?_⟩
    simpa [Query.trailingLists, ← exprsKnown_iff] using htrailing

/-! What is read off a known tree. -/

theorem Column.Known.owner {c : Column} (h : c.Known) : c.owner.Known := by
  cases c
  exact h.1

theorem Relation.Known.plain {r : Relation} (h : r.Known) {field : String} (hfield : r.Has field) :
    (Column.plain r field).Known :=
  ⟨h, hfield⟩

theorem Relation.Known.column {r : Relation} (h : r.Known) {field : String} {c : Column}
    (hc : r.column field = .ok c) : c.Known := by
  rw [r.eq_plain_of_column hc]
  exact h.plain (has_of_column hc)

theorem Relation.eq_plain_of_mem_columns {r : Relation} {c : Column} (h : c ∈ r.columns) :
    c = .plain r c.field := by
  cases r with
  | derived d =>
    obtain ⟨name, query, given⟩ := d
    rw [Relation.columns] at h
    obtain ⟨output, -, rfl⟩ := List.mem_map.mp h
    rfl
  | _ =>
    rw [Relation.columns] at h
    obtain ⟨field, -, rfl⟩ := List.mem_map.mp h
    rfl

theorem Relation.Known.of_mem_columns {r : Relation} (h : r.Known) {c : Column}
    (hc : c ∈ r.columns) : c.Known := by
  rw [eq_plain_of_mem_columns hc]
  exact h.plain (r.has_of_mem_columns hc)

theorem Derived.Known.query {d : Derived} (h : d.Known) : d.query.Known := by
  cases d
  exact h.1

theorem Derived.Known.given {d : Derived} (h : d.Known) : d.given.Known := by
  cases d
  exact h.2

theorem Scope.Known.query {s : Scope} (h : s.Known) : s.query.Known := by
  cases s with
  | derived d => exact Derived.Known.query h
  | unfolded u =>
    cases u
    exact h

theorem Source.Known.relations : {source : Source} → source.Known →
    ∀ r ∈ source.relations, r.Known
  | .relation r, h => by simpa [Source.relations, Source.Known] using h
  | .join kind left right on, ⟨hleft, hright, _⟩ => by
    rw [Source.relations, List.forall_mem_append]
    exact ⟨hleft.relations, hright.relations⟩
  | .union op left right, _ => by simp [Source.relations]

theorem sourcesKnown.relations {sources : List Source} (h : sourcesKnown sources) :
    ∀ r ∈ sourcesRelations sources, r.Known := by
  induction sources with
  | nil => simp [sourcesRelations]
  | cons source rest ih =>
    rw [sourcesRelations, List.forall_mem_append]
    exact ⟨h.1.relations, ih h.2⟩

theorem Query.Known.relations {q : Query} (h : q.Known) :
    ∀ r ∈ sourcesRelations q.sources, r.Known :=
  (sourcesKnown_iff.mpr (Query.known_iff.mp h).sources).relations

theorem sourcesKnown.columns {sources : List Source} (h : sourcesKnown sources) :
    ∀ c ∈ sourcesColumns sources, c.Known := by
  intro c hc
  rw [sourcesColumns_eq_flatMap] at hc
  obtain ⟨r, hr, hc⟩ := List.mem_flatMap.mp hc
  exact (h.relations r hr).of_mem_columns hc

mutual

theorem sourcesKnown.unionProjection : {sources : List Source} → sourcesKnown sources →
    ∀ items, unionProjection sources = some items → exprsKnown items
  | [], _, items, h => by
    rw [QueryTree.unionProjection] at h
    cases h
  | .relation _ :: _, ⟨_, hrest⟩, items, h => by
    rw [QueryTree.unionProjection] at h
    exact hrest.unionProjection items h
  | .join .. :: _, ⟨_, hrest⟩, items, h => by
    rw [QueryTree.unionProjection] at h
    exact hrest.unionProjection items h
  | .union _ _ _ :: _, ⟨hunion, _⟩, items, h => by
    rw [QueryTree.unionProjection] at h
    cases h
    exact hunion.1.projection

theorem Query.Known.projection : {q : Query} → q.Known → exprsKnown q.projection
  | ⟨select, _, sources, _, _, _, _, _, _⟩, ⟨hselect, hsources, _⟩ => by
    rw [Query.projection]
    split
    · split
      next items hitems => exact hsources.unionProjection items hitems
      next => exact exprsKnown_iff.mpr (List.forall_mem_map.mpr hsources.columns)
    · exact hselect

end

/-- A lookup that finds nothing asks the query for its name. -/
theorem Query.outputColumn_run (q : Query) (name : String) (registry : Registry) :
    q.outputColumn name registry =
      match (q.projection.filterMap Expr.column?).find? (·.projectionName == name) with
      | some c => (.ok c, registry)
      | none => (.error (.unknownAttribute (q.internalName registry).1 name),
          (q.internalName registry).2) := by
  rw [Query.outputColumn]
  cases (q.projection.filterMap Expr.column?).find? (·.projectionName == name) <;> rfl

theorem Query.relation_run (q : Query) (name : String) (registry : Registry) :
    q.relation name registry = match (sourcesRelations q.sources).find? (·.name == name) with
      | some r => (.ok r, registry)
      | none => (.error (.unknownAttribute (q.internalName registry).1 name),
          (q.internalName registry).2) := by
  rw [Query.relation]
  cases (sourcesRelations q.sources).find? (·.name == name) <;> rfl

/-- The relation that a query finds under a name is one that its sources reach. -/
theorem Query.mem_of_relation {q : Query} {name : String} {registry last : Registry} {r : Relation}
    (h : q.relation name registry = (.ok r, last)) : r ∈ sourcesRelations q.sources := by
  rw [Query.relation_run] at h
  split at h <;> cases h
  next hfound => exact List.mem_of_find?_eq_some hfound

/-- The output column that a query finds under a name is one of its outputs. -/
theorem Query.mem_of_outputColumn {q : Query} {name : String} {registry last : Registry}
    {c : Column} (h : q.outputColumn name registry = (.ok c, last)) :
    .column c ∈ q.projection := by
  rw [Query.outputColumn_run] at h
  split at h <;> cases h
  next hfound =>
    obtain ⟨e, he, hcolumn⟩ := List.mem_filterMap.mp (List.mem_of_find?_eq_some hfound)
    cases e with
    | column other =>
      cases hcolumn
      exact he
    | _ => cases hcolumn

theorem Scope.project_run (scope : Scope) (name : String) (registry : Registry) :
    scope.project name registry = match scope.query.relation name registry with
      | (.ok source, after) => (.ok (.projected scope source), after)
      | (.error _, after) => (.error (.unknownAttribute scope.name name), after) := by
  unfold Scope.project
  simp only [tryCatch, tryCatchThe, MonadExceptOf.tryCatch, ExceptT.tryCatch, ExceptT.mk, bind,
    ExceptT.bind, StateT.bind, ExceptT.bindCont]
  cases scope.query.relation name registry with
  | mk result after => cases result <;> rfl

/-- A relation inside a subquery is one that the subquery's sources reach. -/
theorem Scope.exists_of_project {scope : Scope} {name : String} {registry last : Registry}
    {r : Relation} (h : scope.project name registry = (.ok r, last)) :
    ∃ source ∈ sourcesRelations scope.query.sources, r = .projected scope source := by
  rw [project_run] at h
  cases hfound : scope.query.relation name registry with
  | mk result after =>
    rw [hfound] at h
    cases result with
    | error e => cases h
    | ok source =>
      cases h
      exact ⟨source, Query.mem_of_relation hfound, rfl⟩

end QueryTree
