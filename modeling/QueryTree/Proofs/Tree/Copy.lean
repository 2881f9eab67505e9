import QueryTree.Proofs.Union.Basic
import QueryTree.Validation

/-! A copy differs from the original in numbers only. It puts out the same columns, reaches the same
relations and passes the same checks. -/

namespace QueryTree

section
variable (registry : Registry)

@[simp] theorem Source.copy_relation (r : Relation) :
    (Source.relation r).copy registry = (.relation r, registry) :=
  rfl

@[simp] theorem Source.copy_join (kind : JoinKind) (left right : Source) (on : List Expr) :
    ((Source.join kind left right on).copy registry).1 =
      .join kind (left.copy registry).1 (right.copy (left.copy registry).2).1 on :=
  rfl

@[simp] theorem Source.copy_union (op : SetOp) (left right : Query) :
    ((Source.union op left right).copy registry).1 =
      .union op (left.copy registry).1 (right.copy (left.copy registry).2).1 :=
  rfl

@[simp] theorem copySources_nil : (copySources [] registry).1 = [] :=
  rfl

@[simp] theorem copySources_cons (source : Source) (rest : List Source) :
    (copySources (source :: rest) registry).1 =
      (source.copy registry).1 :: (copySources rest (source.copy registry).2).1 :=
  rfl

@[simp] theorem Query.copy_mk (select : List Expr) (sub : Bool) (sources : List Source)
    (filter group having order limit : List Expr) (id : Nat) :
    (Query.copy ⟨select, sub, sources, filter, group, having, order, limit, id⟩ registry).1 =
      ⟨select, sub, (copySources sources registry).1, filter, group, having, order, limit,
        (Registry.copyOf id (copySources sources registry).2).1⟩ :=
  rfl

end

/-- A source exposes the columns of the relations that it reaches. -/
theorem Source.columns_eq_flatMap : (source : Source) →
    source.columns = source.relations.flatMap Relation.columns
  | .relation r => by simp [Source.columns, Source.relations]
  | .join kind left right on => by
    simp [Source.columns, Source.relations, left.columns_eq_flatMap, right.columns_eq_flatMap]
  | .union op left right => by simp [Source.columns, Source.relations]

theorem sourcesColumns_eq_flatMap (sources : List Source) :
    sourcesColumns sources = (sourcesRelations sources).flatMap Relation.columns := by
  induction sources with
  | nil => rfl
  | cons source rest ih =>
    simp [sourcesColumns, sourcesRelations, source.columns_eq_flatMap, ih]

theorem Source.relations_copy : (source : Source) → (registry : Registry) →
    (source.copy registry).1.relations = source.relations
  | .relation _, _ => rfl
  | .join kind left right on, registry => by
    have hl := left.relations_copy registry
    have hr := right.relations_copy (left.copy registry).2
    simp [Source.relations, hl, hr]
  | .union _ _ _, _ => rfl

theorem sourcesRelations_copy (sources : List Source) (registry : Registry) :
    sourcesRelations (copySources sources registry).1 = sourcesRelations sources := by
  induction sources generalizing registry with
  | nil => rfl
  | cons source rest ih => simp [sourcesRelations, source.relations_copy, ih]

theorem sourcesColumns_copy (sources : List Source) (registry : Registry) :
    sourcesColumns (copySources sources registry).1 = sourcesColumns sources := by
  rw [sourcesColumns_eq_flatMap, sourcesRelations_copy, ← sourcesColumns_eq_flatMap]

theorem Source.onPredicates_copy : (source : Source) → (registry : Registry) →
    (source.copy registry).1.onPredicates = source.onPredicates
  | .relation _, _ => rfl
  | .join kind left right on, registry => by
    have hl := left.onPredicates_copy registry
    have hr := right.onPredicates_copy (left.copy registry).2
    simp [Source.onPredicates, hl, hr]
  | .union _ _ _, _ => rfl

theorem sourcesOnPredicates_copy (sources : List Source) (registry : Registry) :
    sourcesOnPredicates (copySources sources registry).1 = sourcesOnPredicates sources := by
  induction sources generalizing registry with
  | nil => rfl
  | cons source rest ih => simp [sourcesOnPredicates, source.onPredicates_copy, ih]

mutual

theorem unionProjection_copy : (sources : List Source) → (registry : Registry) →
    unionProjection (copySources sources registry).1 = unionProjection sources
  | [], _ => rfl
  | .relation r :: rest, registry => by
    have hs := unionProjection_copy rest registry
    simp [unionProjection, hs]
  | .join kind left right on :: rest, registry => by
    have hs := unionProjection_copy rest ((Source.join kind left right on).copy registry).2
    simp [unionProjection, hs]
  | .union op left right :: rest, registry => by
    have hl := left.projection_copy registry
    simp [unionProjection, hl]

theorem Query.projection_copy : (q : Query) → (registry : Registry) →
    (q.copy registry).1.projection = q.projection
  | ⟨select, sub, sources, filter, group, having, order, limit, id⟩, registry => by
    have hunion := unionProjection_copy sources registry
    simp [Query.projection, hunion, sourcesColumns_copy]

end

mutual

/-- The source with the queries of its unions under no number of their own. Relations are shared by
all copies and stay. -/
def Source.unnumbered : Source → Source
  | .relation r => .relation r
  | .join kind left right on => .join kind left.unnumbered right.unnumbered on
  | .union op left right => .union op left.unnumbered right.unnumbered

def sourcesUnnumbered : List Source → List Source
  | [] => []
  | source :: rest => source.unnumbered :: sourcesUnnumbered rest

def Query.unnumbered : Query → Query
  | ⟨select, sub, sources, filter, group, having, order, limit, _⟩ =>
    ⟨select, sub, sourcesUnnumbered sources, filter, group, having, order, limit, 0⟩

end

theorem sourcesUnnumbered_eq_map (sources : List Source) :
    sourcesUnnumbered sources = sources.map Source.unnumbered := by
  induction sources with
  | nil => rfl
  | cons source rest ih => rw [sourcesUnnumbered, List.map_cons, ih]

mutual

theorem Source.unnumbered_copy : (source : Source) → (registry : Registry) →
    (source.copy registry).1.unnumbered = source.unnumbered
  | .relation _, _ => rfl
  | .join kind left right on, registry => by
    have hl := left.unnumbered_copy registry
    have hr := right.unnumbered_copy (left.copy registry).2
    simp [Source.unnumbered, hl, hr]
  | .union op left right, registry => by
    have hl := left.unnumbered_copy registry
    have hr := right.unnumbered_copy (left.copy registry).2
    simp [Source.unnumbered, hl, hr]

theorem sourcesUnnumbered_copy : (sources : List Source) → (registry : Registry) →
    sourcesUnnumbered (copySources sources registry).1 = sourcesUnnumbered sources
  | [], _ => rfl
  | source :: rest, registry => by
    have h := source.unnumbered_copy registry
    have hs := sourcesUnnumbered_copy rest (source.copy registry).2
    simp [sourcesUnnumbered, h, hs]

theorem Query.unnumbered_copy : (q : Query) → (registry : Registry) →
    (q.copy registry).1.unnumbered = q.unnumbered
  | ⟨select, sub, sources, filter, group, having, order, limit, id⟩, registry => by
    have hs := sourcesUnnumbered_copy sources registry
    simp [Query.unnumbered, hs]

end

namespace Query

/-- The query over copies of its sources, under some number. -/
def overCopies (q : Query) (registry : Registry) (id : Nat) : Query :=
  { q with sources := (copySources q.sources registry).1, id := id }

variable (q : Query) (registry : Registry) (id : Nat)

theorem copy_eq_overCopies : (q.copy registry).1 =
    q.overCopies registry (Registry.copyOf q.id (copySources q.sources registry).2).1 := by
  cases q
  rfl

theorem anew_eq_overCopies : (q.anew registry).1 =
    q.overCopies registry (Registry.fresh (copySources q.sources registry).2).1 :=
  rfl

theorem projection_overCopies : (q.overCopies registry id).projection = q.projection := by
  obtain ⟨select, sub, sources, filter, group, having, order, limit, old⟩ := q
  simp [overCopies, Query.projection, unionProjection_copy, sourcesColumns_copy]

theorem isUnionFed_overCopies : (q.overCopies registry id).isUnionFed = q.isUnionFed :=
  any_isUnion_copySources q.sources registry

theorem isBareUnion_overCopies : (q.overCopies registry id).isBareUnion = q.isBareUnion := by
  simp only [isBareUnion, isUnionFed_overCopies]
  simp only [overCopies, trailingLists, length_copySources]

theorem reachableNames_overCopies :
    (q.overCopies registry id).reachableNames = q.reachableNames := by
  simp only [reachableNames, overCopies, sourcesRelations_copy]

theorem unionOutputs_overCopies :
    (q.overCopies registry id).unionOutputs = q.unionOutputs := by
  obtain ⟨select, sub, sources, filter, group, having, order, limit, old⟩ := q
  simp only [unionOutputs, overCopies]
  induction sources generalizing registry with
  | nil => rfl
  | cons source rest ih =>
    cases source with
    | relation r => exact ih registry
    | join kind left right on => exact ih _
    | union op left right => simp [projection_copy]

theorem validate_overCopies : (q.overCopies registry id).validate = q.validate := by
  have howners : ∀ place es,
      (q.overCopies registry id).checkOwners place es = q.checkOwners place es := by
    intro place es
    simp only [checkOwners, reaches, unionOutputs_overCopies, reachableNames_overCopies]
  have htables : (q.overCopies registry id).checkTables = q.checkTables := by
    simp only [checkTables, howners, reachableNames_overCopies]
    rfl
  have hcolumns : (q.overCopies registry id).checkColumns = q.checkColumns := by
    simp only [checkColumns, exposureReferences, isUnionFed_overCopies]
    simp only [overCopies, sourcesOnPredicates_copy, sourcesColumnNames, sourcesColumns_copy]
  rw [validate, validate, htables, hcolumns]

end Query

end QueryTree
