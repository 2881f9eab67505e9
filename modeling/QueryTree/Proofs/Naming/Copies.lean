import QueryTree.Proofs.Naming.Registry
import QueryTree.Proofs.Tree.Queries

/-!
The query objects that come about when a query is copied or built, and their numbers. Every one of
them has a number of its own, but for the copy of a query that has a name: it keeps the number and
with it the name.
-/

namespace QueryTree

/-- Where a query object comes from. For a copy it is the original, with the name that this had when
it was copied. -/
inductive Origin where
  | built
  | copied (original : Query) (name? : Option String)

structure QueryObject where
  query : Query
  origin : Origin

/-- Whether an object came about with a number of its own. -/
def QueryObject.isFirst (o : QueryObject) : Bool :=
  match o.origin with
  | .copied _ (some _) => false
  | _ => true

mutual

/-- The copies that copying a source makes. -/
def Source.copies : Source → Registry → List QueryObject
  | .relation _, _ => []
  | .join _ left right _, registry =>
    left.copies registry ++ right.copies (left.copy registry).2
  | .union _ left right, registry =>
    left.copies registry ++ right.copies (left.copy registry).2

def sourcesCopies : List Source → Registry → List QueryObject
  | [], _ => []
  | source :: rest, registry =>
    source.copies registry ++ sourcesCopies rest (source.copy registry).2

/-- The copies that copying a query makes, that of the query last. -/
def Query.copies : Query → Registry → List QueryObject
  | ⟨select, sub, sources, filter, group, having, order, limit, id⟩, registry =>
    let q : Query := ⟨select, sub, sources, filter, group, having, order, limit, id⟩
    sourcesCopies sources registry ++ [⟨(q.copy registry).1, .copied q (registry.name? id)⟩]

end

/-- The objects that come about when the clauses of a query are put into a new object. -/
def Query.objects (q : Query) (registry : Registry) : List QueryObject :=
  sourcesCopies q.sources registry ++ [⟨(q.anew registry).1, .built⟩]

/-- Objects come about while the registry hands out numbers and no names. -/
structure Registry.Adds (before after : Registry) (added : List QueryObject) : Prop where
  named : after.named = before.named
  issued : before.issued ≤ after.issued
  first : ∀ o ∈ added, o.isFirst = true →
    before.issued ≤ o.query.id ∧ o.query.id < after.issued
  distinct : ((added.filter QueryObject.isFirst).map (·.query.id)).Nodup
  kept : ∀ o ∈ added, ∀ original n, o.origin = .copied original (some n) →
    o.query.id = original.id ∧ before.name? original.id = some n

namespace Registry

variable {before between after : Registry}

theorem name?_congr (h : after.named = before.named) (id : Nat) :
    after.name? id = before.name? id := by
  rw [name?, name?, h]

namespace Adds

theorem nil (registry : Registry) : Adds registry registry [] :=
  ⟨rfl, Nat.le_refl _, by simp, by simp, by simp⟩

theorem append {added more : List QueryObject} (h : Adds before between added)
    (hmore : Adds between after more) : Adds before after (added ++ more) where
  named := hmore.named.trans h.named
  issued := Nat.le_trans h.issued hmore.issued
  first := by
    rw [List.forall_mem_append]
    constructor
    · intro o ho hfirst
      obtain ⟨hlow, hhigh⟩ := h.first o ho hfirst
      exact ⟨hlow, Nat.lt_of_lt_of_le hhigh hmore.issued⟩
    · intro o ho hfirst
      obtain ⟨hlow, hhigh⟩ := hmore.first o ho hfirst
      exact ⟨Nat.le_trans h.issued hlow, hhigh⟩
  distinct := by
    rw [List.filter_append, List.map_append, List.nodup_append]
    refine ⟨h.distinct, hmore.distinct, fun id hid other hother => ?_⟩
    obtain ⟨o, ho, rfl⟩ := List.mem_map.mp hid
    obtain ⟨p, hp, rfl⟩ := List.mem_map.mp hother
    rw [List.mem_filter] at ho hp
    have hlow := (h.first o ho.1 ho.2).2
    have hhigh := (hmore.first p hp.1 hp.2).1
    exact Nat.ne_of_lt (Nat.lt_of_lt_of_le hlow hhigh)
  kept := by
    rw [List.forall_mem_append]
    refine ⟨h.kept, fun o ho original n horigin => ?_⟩
    rw [← name?_congr h.named]
    exact hmore.kept o ho original n horigin

/-- An object with a new number. -/
theorem fresh {o : QueryObject} (hid : o.query.id = before.issued)
    (hfirst : o.isFirst = true) : Adds before (Registry.fresh before).2 [o] where
  named := rfl
  issued := Nat.le_succ _
  first := by
    rw [List.forall_mem_singleton]
    intro _
    rw [hid]
    exact ⟨Nat.le_refl _, Nat.lt_succ_self _⟩
  distinct := by
    simp [List.filter_cons_of_pos hfirst]
  kept := by
    rw [List.forall_mem_singleton]
    intro original n horigin
    simp [QueryObject.isFirst, horigin] at hfirst

/-- The copy of a query, under the number that it gets. -/
theorem copyOf {q copy : Query} (hcopy : copy.id = (Registry.copyOf q.id before).1) :
    Adds before (Registry.copyOf q.id before).2 [⟨copy, .copied q (before.name? q.id)⟩] := by
  rcases copyOf_cases q.id before with ⟨⟨n, hname⟩, hrun⟩ | ⟨hname, hrun⟩
  · rw [hrun] at hcopy ⊢
    rw [hname]
    refine ⟨rfl, Nat.le_refl _, ?_, ?_, ?_⟩
    · simp [QueryObject.isFirst]
    · simp [QueryObject.isFirst]
    · rw [List.forall_mem_singleton]
      rintro original n' ⟨⟩
      exact ⟨hcopy, hname⟩
  · rw [hrun] at hcopy ⊢
    rw [hname]
    exact fresh hcopy rfl

end Adds

end Registry

open Registry (Adds)

mutual

theorem Source.adds_copies : (source : Source) → (registry : Registry) →
    Adds registry (source.copy registry).2 (source.copies registry)
  | .relation _, registry => .nil registry
  | .join _ left right _, registry =>
    (left.adds_copies registry).append (right.adds_copies _)
  | .union _ left right, registry =>
    (left.adds_copies registry).append (right.adds_copies _)

theorem adds_sourcesCopies : (sources : List Source) → (registry : Registry) →
    Adds registry (copySources sources registry).2 (sourcesCopies sources registry)
  | [], registry => .nil registry
  | source :: rest, registry =>
    (source.adds_copies registry).append (adds_sourcesCopies rest _)

theorem Query.adds_copies : (q : Query) → (registry : Registry) →
    Adds registry (q.copy registry).2 (q.copies registry)
  | ⟨select, sub, sources, filter, group, having, order, limit, id⟩, registry => by
    have hsources := adds_sourcesCopies sources registry
    let q : Query := ⟨select, sub, sources, filter, group, having, order, limit, id⟩
    have hcopy : Adds (copySources sources registry).2
        (Registry.copyOf q.id (copySources sources registry).2).2
        [⟨(q.copy registry).1, .copied q ((copySources sources registry).2.name? q.id)⟩] :=
      .copyOf rfl
    rw [Query.copies, ← Registry.name?_congr hsources.named]
    exact hsources.append hcopy

end

theorem Query.adds_objects (q : Query) (registry : Registry) :
    Adds registry (q.anew registry).2 (q.objects registry) :=
  (adds_sourcesCopies q.sources registry).append (.fresh rfl rfl)

/-- The object is a copy of one of the queries. -/
def QueryObject.IsCopyIn (o : QueryObject) (queries : List Query) : Prop :=
  ∃ original n?, o.origin = .copied original n? ∧ original ∈ queries

theorem QueryObject.IsCopyIn.mono {o : QueryObject} {queries more : List Query}
    (h : o.IsCopyIn queries) (hmore : queries ⊆ more) : o.IsCopyIn more := by
  obtain ⟨original, n?, horigin, hmem⟩ := h
  exact ⟨original, n?, horigin, hmore hmem⟩

mutual

theorem Source.isCopyIn_copies : (source : Source) → (registry : Registry) →
    ∀ o ∈ source.copies registry, o.IsCopyIn source.queries
  | .relation _, _ => by simp [Source.copies]
  | .join _ left right on, registry => by
    have hleft := left.isCopyIn_copies registry
    have hright := right.isCopyIn_copies (left.copy registry).2
    rw [Source.copies, List.forall_mem_append, Source.queries, List.append_assoc]
    constructor
    · intro o ho
      exact (hleft o ho).mono (List.subset_append_left _ _)
    · intro o ho
      refine (hright o ho).mono ?_
      exact List.subset_append_of_subset_right _ (List.subset_append_left _ _)
  | .union _ left right, registry => by
    have hleft := left.isCopyIn_copies registry
    have hright := right.isCopyIn_copies (left.copy registry).2
    rw [Source.copies, List.forall_mem_append, Source.queries]
    constructor
    · intro o ho
      exact (hleft o ho).mono (List.subset_append_left _ _)
    · intro o ho
      exact (hright o ho).mono (List.subset_append_right _ _)

theorem isCopyIn_sourcesCopies : (sources : List Source) → (registry : Registry) →
    ∀ o ∈ sourcesCopies sources registry, o.IsCopyIn (sourcesQueries sources)
  | [], _ => by simp [sourcesCopies]
  | source :: rest, registry => by
    have hsource := source.isCopyIn_copies registry
    have hrest := isCopyIn_sourcesCopies rest (source.copy registry).2
    rw [sourcesCopies, List.forall_mem_append, sourcesQueries]
    constructor
    · intro o ho
      exact (hsource o ho).mono (List.subset_append_left _ _)
    · intro o ho
      exact (hrest o ho).mono (List.subset_append_right _ _)

/-- Copying a query copies the query and queries in it, and nothing else. -/
theorem Query.isCopyIn_copies : (q : Query) → (registry : Registry) →
    ∀ o ∈ q.copies registry, o.IsCopyIn q.queries
  | ⟨select, sub, sources, filter, group, having, order, limit, id⟩, registry => by
    have hsources := isCopyIn_sourcesCopies sources registry
    rw [Query.copies, List.forall_mem_append, List.forall_mem_singleton]
    constructor
    · intro o ho
      refine (hsources o ho).mono fun x hx => ?_
      simp [Query.queries, hx]
    · exact ⟨_, _, rfl, Query.mem_queries _⟩

end

section
variable {P : Query → Prop}

/-- A query over copies of its sources holds what it held and what the copies hold. -/
theorem Query.Holding.overCopies {q : Query} {registry : Registry} {id : Nat} (h : q.Holding P)
    (hsources : ∀ x ∈ sourcesQueries (copySources q.sources registry).1, P x) :
    (q.overCopies registry id).Holding P :=
  ⟨h.select, forall_sourcesQueries_iff.mp hsources, h.trailing⟩

mutual

theorem Source.queries_copy : (source : Source) → (registry : Registry) →
    (∀ x ∈ source.queries, P x) → (∀ o ∈ source.copies registry, P o.query) →
    ∀ x ∈ (source.copy registry).1.queries, P x
  | .relation _, _, h, _ => h
  | .join _ left right on, registry, h, hcopies => by
    rw [Source.queries, List.forall_mem_append, List.forall_mem_append] at h
    rw [Source.copies, List.forall_mem_append] at hcopies
    obtain ⟨⟨hleft, hright⟩, hon⟩ := h
    rw [Source.copy_join, Source.queries, List.forall_mem_append, List.forall_mem_append]
    exact ⟨⟨left.queries_copy registry hleft hcopies.1, right.queries_copy _ hright hcopies.2⟩, hon⟩
  | .union _ left right, registry, h, hcopies => by
    rw [Source.queries, List.forall_mem_append] at h
    rw [Source.copies, List.forall_mem_append] at hcopies
    rw [Source.copy_union, Source.queries, List.forall_mem_append]
    exact ⟨left.queries_copy registry h.1 hcopies.1, right.queries_copy _ h.2 hcopies.2⟩

theorem sourcesQueries_copy : (sources : List Source) → (registry : Registry) →
    (∀ x ∈ sourcesQueries sources, P x) → (∀ o ∈ sourcesCopies sources registry, P o.query) →
    ∀ x ∈ sourcesQueries (copySources sources registry).1, P x
  | [], _, _, _ => by simp [sourcesQueries]
  | source :: rest, registry, h, hcopies => by
    rw [sourcesQueries, List.forall_mem_append] at h
    rw [sourcesCopies, List.forall_mem_append] at hcopies
    rw [copySources_cons, sourcesQueries, List.forall_mem_append]
    exact ⟨source.queries_copy registry h.1 hcopies.1, sourcesQueries_copy rest _ h.2 hcopies.2⟩

/-- All query objects in a copy are copies that have been made, or they are shared. -/
theorem Query.queries_copy : (q : Query) → (registry : Registry) →
    (∀ x ∈ q.queries, P x) → (∀ o ∈ q.copies registry, P o.query) →
    ∀ x ∈ (q.copy registry).1.queries, P x
  | ⟨select, sub, sources, filter, group, having, order, limit, id⟩, registry, h, hcopies => by
    rw [Query.copies, List.forall_mem_append, List.forall_mem_singleton] at hcopies
    obtain ⟨-, hholding⟩ := Query.forall_queries_iff.mp h
    have hsources := sourcesQueries_copy sources registry
      (forall_sourcesQueries_iff.mpr hholding.sources) hcopies.1
    rw [Query.forall_queries_iff]
    exact ⟨hcopies.2, Query.Holding.overCopies hholding hsources⟩

end

theorem Query.queries_anew {q : Query} {registry : Registry} (h : q.Holding P)
    (hobjects : ∀ o ∈ q.objects registry, P o.query) : ∀ x ∈ (q.anew registry).1.queries, P x := by
  rw [Query.objects, List.forall_mem_append, List.forall_mem_singleton] at hobjects
  have hsources := sourcesQueries_copy q.sources registry
    (forall_sourcesQueries_iff.mpr h.sources) hobjects.1
  exact Query.forall_queries_iff.mpr ⟨hobjects.2, Query.Holding.overCopies h hsources⟩

end

end QueryTree
