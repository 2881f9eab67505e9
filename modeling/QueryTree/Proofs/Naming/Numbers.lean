import QueryTree.Proofs.Render.Picking
import QueryTree.Proofs.Tree.Queries

/-!
The query objects that the levels of a text belong to. Every level is that of an object in the tree,
also where it is written under another number.
-/

namespace QueryTree.Render

/-- The number of the query object that a level belongs to. -/
@[simp] def Fragment.ids : Fragment → List Nat
  | .number _ id => [id]
  | _ => []

@[simp] theorem passingNames_ids : PassingNames Fragment.ids :=
  ⟨⟨fun _ => rfl, rfl⟩, fun _ => rfl⟩

@[simp] theorem passing_ids : Passing Fragment.ids :=
  passingNames_ids.toPassing

section
variable {P : Nat → Prop}

mutual

theorem ids_expr (scopes : Scopes) : (e : Expr) → (∀ x ∈ e.queries, P x.id) →
    Every Fragment.ids P (exprFragments scopes e)
  | .value v, _ => by simp [exprFragments]
  | .param key, _ => by simp [exprFragments]
  | .star, _ => by simp [exprFragments]
  | .column ⟨owner, field, label, correlated⟩, h => by
    rw [Expr.queries] at h
    exact ids_column scopes _ owner h
  | .unary op operand, h => by
    have hoperand := ids_expr scopes operand h
    cases hop : op.isPostfix <;> simpa [exprFragments, hop] using hoperand
  | .binary op left right, h => by
    rw [Expr.queries, List.forall_mem_append] at h
    have hl := ids_expr scopes left h.1
    have hr := ids_expr scopes right h.2
    simpa [exprFragments] using ⟨hl, hr⟩
  | .between subject low high, h => by
    rw [Expr.queries, List.forall_mem_append, List.forall_mem_append] at h
    have hs := ids_expr scopes subject h.1.1
    have hl := ids_expr scopes low h.1.2
    have hh := ids_expr scopes high h.2
    simpa [exprFragments] using ⟨hs, hl, hh⟩
  | .call name args, h => by
    have hargs := every_listed passing_ids (ids_exprs scopes args h)
    simpa [exprFragments] using hargs
  | .list items, h => by
    have hitems := every_listed passing_ids (ids_exprs scopes items h)
    simpa [exprFragments] using hitems
  | .labeled e _, h => by
    rw [exprFragments]
    exact ids_expr scopes e h
  | .subquery ⟨name, q⟩, h => by
    have hq := ids_query scopes (some name) .own none (by simp) q h
    simpa [exprFragments] using hq

theorem ids_exprs (scopes : Scopes) : (es : List Expr) → (∀ x ∈ exprsQueries es, P x.id) →
    ∀ p ∈ exprsFragments scopes es, Every Fragment.ids P p
  | [], _ => by simp [exprsFragments]
  | e :: rest, h => by
    rw [exprsQueries, List.forall_mem_append] at h
    rw [exprsFragments]
    exact List.forall_mem_cons.mpr ⟨ids_expr scopes e h.1, ids_exprs scopes rest h.2⟩

theorem ids_column (scopes : Scopes) (c : Column) : (owner : Relation) →
    (∀ x ∈ owner.queries, P x.id) → Every Fragment.ids P (columnFragments scopes c owner)
  | .projected (.unfolded ⟨name, q⟩) source, h => by
    rw [Relation.queries, Scope.queries, List.forall_mem_append] at h
    have hsource := fun scopes => ids_column scopes (Column.plain source c.field) source h.2
    have hq := ids_query scopes (some name) .made (some (Column.plain source c.field,
      fun scopes => columnFragments scopes (Column.plain source c.field) source))
      (by simpa using hsource) q h.1
    simpa [columnFragments] using hq
  | .projected (.derived d) source, _ => by simp [columnFragments]
  | .table t, _ => by simp [columnFragments]
  | .alias_ a, _ => by simp [columnFragments]
  | .derived d, _ => by simp [columnFragments]

theorem ids_query (scopes : Scopes) (alias_ : Option String) (identity : Identity)
    (only : Option (Narrowing Fragment))
    (honly : ∀ c ∈ only, ∀ scopes, Every Fragment.ids P (c.2 scopes)) :
    (q : Query) → (∀ x ∈ q.queries, P x.id) →
    Every Fragment.ids P (queryFragments scopes alias_ identity only q)
  | ⟨select, sub, sources, filter, group, having, order, limit, id⟩, h => by
    simp only [Query.queries, List.forall_mem_cons, List.forall_mem_append] at h
    obtain ⟨hid, ⟨⟨⟨⟨⟨hselect, hsources⟩, hfilter⟩, hgroup⟩, hhaving⟩, horder⟩, hlimit⟩ := h
    have hitems : ∀ inside, ∀ p ∈ narrowedItems only inside
        (itemFragments inside select (exprsFragments inside select)), Every Fragment.ids P p := by
      intro inside
      cases only with
      | none => exact every_items passingNames_ids inside select (ids_exprs inside select hselect)
      | some c => simpa [narrowedItems] using honly c rfl inside
    rw [queryFragments, every_cons]
    refine ⟨by simp, ?_⟩
    split
    · exact ids_bareUnion _ identity sources hsources
    · rw [every_cons, every_append]
      refine ⟨by simpa using hid, ?_, by simp⟩
      exact every_level passing_ids (hitems _) (ids_sources _ identity sources hsources)
        (ids_exprs _ filter hfilter) (ids_exprs _ group hgroup) (ids_exprs _ having hhaving)
        (ids_exprs _ order horder) (ids_exprs _ limit hlimit)

theorem ids_bareUnion (scopes : Scopes) (identity : Identity) : (sources : List Source) →
    (∀ x ∈ sourcesQueries sources, P x.id) →
    Every Fragment.ids P (bareUnionFragments scopes identity sources)
  | .union op left right :: rest, h => by
    simp only [sourcesQueries, Source.queries, List.forall_mem_append] at h
    have hl := ids_query scopes none identity.ofOperands none (by simp) left h.1.1
    have hr := ids_query scopes none identity.ofOperands none (by simp) right h.1.2
    simpa [bareUnionFragments] using ⟨hl, hr⟩
  | .relation r :: rest, _ => by simp [bareUnionFragments]
  | .join kind left right on :: rest, _ => by simp [bareUnionFragments]
  | [], _ => by simp [bareUnionFragments]

theorem ids_sources (scopes : Scopes) (identity : Identity) : (sources : List Source) →
    (∀ x ∈ sourcesQueries sources, P x.id) →
    ∀ p ∈ sourcesFragments scopes identity sources, Every Fragment.ids P p
  | [], _ => by simp [sourcesFragments]
  | source :: rest, h => by
    rw [sourcesQueries, List.forall_mem_append] at h
    rw [sourcesFragments]
    exact List.forall_mem_cons.mpr
      ⟨ids_source scopes identity source h.1, ids_sources scopes identity rest h.2⟩

theorem ids_source (scopes : Scopes) (identity : Identity) : (source : Source) →
    (∀ x ∈ source.queries, P x.id) → Every Fragment.ids P (sourceFragments scopes identity source)
  | .relation (.table t), _ => by simp [sourceFragments]
  | .relation (.alias_ a), _ => by simp [sourceFragments]
  | .relation (.projected scope _), _ => by simp [sourceFragments]
  | .relation (.derived ⟨name, q, _⟩), h => by
    rw [Source.queries, Relation.queries, List.forall_mem_append] at h
    have hq := ids_query scopes (some name) .own none (by simp) q h.1
    simpa [sourceFragments] using hq
  | .join kind left right on, h => by
    rw [Source.queries, List.forall_mem_append, List.forall_mem_append] at h
    have hl := ids_source scopes identity left h.1.1
    have hr := ids_source scopes identity right h.1.2
    have hon := every_on passing_ids (ids_exprs scopes on h.2)
    cases hj : right.isJoin <;> simpa [sourceFragments, hj] using ⟨hl, hr, hon⟩
  | .union op left right, h => by
    rw [Source.queries, List.forall_mem_append] at h
    have hl := ids_query scopes none identity.ofOperands none (by simp) left h.1
    have hr := ids_query scopes none identity.ofOperands none (by simp) right h.2
    simpa [sourceFragments] using ⟨hl, hr⟩

end

end

end QueryTree.Render

namespace QueryTree

theorem Query.ids_fragments (q : Query) :
    Render.Every Render.Fragment.ids (fun id => ∃ x ∈ q.queries, x.id = id) q.fragments :=
  Render.ids_query [] none .own none (by simp) q fun x hx => ⟨x, hx, rfl⟩

end QueryTree
