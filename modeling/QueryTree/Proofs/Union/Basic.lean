import QueryTree.Render.Sql

/-! Queries that are nothing but a union, and queries with a union among their sources. -/

namespace QueryTree

/-- A bare union has one source, and every other clause of it is empty. -/
theorem Query.isBareUnion_iff (q : Query) :
    q.isBareUnion = true ↔ ∃ op left right, q.sources = [.union op left right] ∧
      q.selectList = [] ∧ q.whereList = [] ∧ q.groupList = [] ∧ q.havingList = [] ∧
        q.orderList = [] ∧ q.limitList = [] := by
  simp only [isBareUnion, isUnionFed, trailingLists, Bool.and_eq_true, decide_eq_true_eq,
    List.all_cons, List.all_nil, List.isEmpty_iff, and_true]
  constructor
  · rintro ⟨⟨⟨hlength, hfed⟩, hselect⟩, hrest⟩
    obtain ⟨source, hsource⟩ := List.length_eq_one_iff.mp hlength
    cases source with
    | union op left right => exact ⟨op, left, right, hsource, hselect, hrest⟩
    | relation r => simp [hsource, Source.isUnion] at hfed
    | join kind left right on => simp [hsource, Source.isUnion] at hfed
  · rintro ⟨op, left, right, hsource, hselect, hrest⟩
    simp [hsource, hselect, hrest, Source.isUnion]

theorem Source.isUnion_copy (source : Source) (registry : Registry) :
    (source.copy registry).1.isUnion = source.isUnion := by
  cases source <;> rfl

theorem any_isUnion_copySources (sources : List Source) (registry : Registry) :
    (copySources sources registry).1.any Source.isUnion = sources.any Source.isUnion := by
  induction sources generalizing registry with
  | nil => rfl
  | cons source rest ih =>
    have hcons : (copySources (source :: rest) registry).1 =
      (source.copy registry).1 :: (copySources rest (source.copy registry).2).1 := rfl
    rw [hcons, List.any_cons, List.any_cons, ih, source.isUnion_copy]

theorem length_copySources (sources : List Source) (registry : Registry) :
    (copySources sources registry).1.length = sources.length := by
  induction sources generalizing registry with
  | nil => rfl
  | cons source rest ih => exact congrArg (· + 1) (ih _)

theorem Query.isBareUnion_copy (q : Query) (registry : Registry) :
    (q.copy registry).1.isBareUnion = q.isBareUnion := by
  obtain ⟨select, sub, sources, filter, group, having, order, limit, id⟩ := q
  have hsources : (Query.copy ⟨select, sub, sources, filter, group, having, order, limit, id⟩
    registry).1.sources = (copySources sources registry).1 := rfl
  simp only [Query.isBareUnion, Query.isUnionFed, hsources, length_copySources,
    any_isUnion_copySources]
  rfl

/-- A union of equally wide sides is a new query, fed by copies of them. Nothing comes about
otherwise. -/
theorem Query.union_run (op : SetOp) (left right : Query) (registry : Registry) :
    Query.union op left right registry =
      if left.arity = right.arity then
        (.ok ((empty.extendSources [.union op left right] false).anew registry).1,
          ((empty.extendSources [.union op left right] false).anew registry).2)
      else (.error (.unequalArity left.arity right.arity), registry) := by
  rw [Query.union, combined]
  split <;> rfl

theorem Query.union_ok_iff {op : SetOp} {left right q : Query} {registry last : Registry} :
    Query.union op left right registry = (.ok q, last) ↔ left.arity = right.arity ∧
      (empty.extendSources [.union op left right] false).anew registry = (q, last) := by
  rw [union_run]
  constructor
  · intro h
    split at h
    next harity =>
      cases h
      exact ⟨harity, rfl⟩
    next => cases h
  · rintro ⟨harity, hq⟩
    rw [if_pos harity, hq]

end QueryTree
