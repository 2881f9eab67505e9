import QueryTree.Builder
import QueryTree.Tree.Projection

/-! What all expressions and all sources of a query have, they have in whatever is built of it. -/

namespace QueryTree

variable {P : Expr → Prop} {S : Source → Prop}

/-- Predicates joined by AND have a property if each of them has it and AND keeps it. -/
theorem Expr.foldl_and (hand : ∀ left right, P left → P right → P (.binary .and left right))
    {first : Expr} {rest : List Expr} (hfirst : P first) (hrest : ∀ e ∈ rest, P e) :
    P (rest.foldl (.binary .and) first) := by
  induction rest generalizing first with
  | nil => exact hfirst
  | cons second rest ih =>
    obtain ⟨hsecond, hrest⟩ := List.forall_mem_cons.mp hrest
    exact ih (hand first second hfirst hsecond) hrest

theorem Expr.forall_conjunction
    (hand : ∀ left right, P left → P right → P (.binary .and left right)) {es : List Expr}
    (h : ∀ e ∈ es, P e) : ∀ e ∈ Expr.conjunction? es, P e := by
  cases es with
  | nil => simp [Expr.conjunction?]
  | cons first rest =>
    obtain ⟨hfirst, hrest⟩ := List.forall_mem_cons.mp h
    simpa [Expr.conjunction?] using Expr.foldl_and hand hfirst hrest

theorem Clause.forall_extendedExprs
    (hand : ∀ left right, P left → P right → P (.binary .and left right)) {clause : Clause Expr}
    {items : List Expr} (hclause : ∀ e ∈ clause.items, P e) (hitems : ∀ e ∈ items, P e)
    (replace : Bool) : ∀ e ∈ (clause.extendedExprs items replace).items, P e := by
  unfold Clause.extendedExprs
  split
  · have hbase : ∀ e ∈ (if replace then none else clause.predicate?).toList, P e := by
      cases replace with
      | true => simp
      | false =>
        intro e he
        exact hclause e (List.mem_of_head? (Option.mem_toList.mp he))
    intro e he
    have hall := List.forall_mem_append.mpr ⟨hbase, hitems⟩
    exact Expr.forall_conjunction hand hall e (Option.mem_toList.mp he)
  · cases replace with
    | true => simpa [Clause.extended] using hitems
    | false => exact List.forall_mem_append.mpr ⟨hclause, hitems⟩

/-- The expressions of all clauses have one property, and the sources have another one. -/
structure Query.Over (P : Expr → Prop) (S : Source → Prop) (q : Query) : Prop where
  select : ∀ e ∈ q.selectList, P e
  sources : ∀ source ∈ q.sources, S source
  trailing : ∀ es ∈ q.trailingLists, ∀ e ∈ es, P e

namespace Query.Over

variable {q : Query}

theorem empty : Query.empty.Over P S :=
  ⟨by simp [Query.empty], by simp [Query.empty], by simp [Query.empty, trailingLists]⟩

theorem imp {P' : Expr → Prop} {S' : Source → Prop} (h : q.Over P S) (hexpr : ∀ e, P e → P' e)
    (hsource : ∀ source, S source → S' source) : q.Over P' S' :=
  ⟨fun e he => hexpr e (h.select e he), fun source hs => hsource source (h.sources source hs),
    fun es hes e he => hexpr e (h.trailing es hes e he)⟩

theorem clause (h : q.Over P S) (slot : Slot) : ∀ e ∈ (q.clause slot).items, P e := by
  cases slot with
  | select => exact h.select
  | _ => exact h.trailing _ (by simp [trailingLists, Query.clause])

theorem withItems (h : q.Over P S) (slot : Slot) {items : List Expr} (hitems : ∀ e ∈ items, P e) :
    (q.withItems slot items).Over P S := by
  obtain ⟨hselect, hsources, htrailing⟩ := h
  simp only [trailingLists, List.forall_mem_cons] at htrailing
  obtain ⟨hfilter, hgroup, hhaving, horder, hlimit, -⟩ := htrailing
  cases slot with
  | select => exact ⟨hitems, hsources, by simp_all [Query.withItems, trailingLists]⟩
  | _ => exact ⟨hselect, hsources, by simp_all [Query.withItems, trailingLists]⟩

theorem extend (hand : ∀ left right, P left → P right → P (.binary .and left right))
    (h : q.Over P S) (slot : Slot) {items : List Expr} (hitems : ∀ e ∈ items, P e)
    (replace : Bool) : (q.extend slot items replace).Over P S :=
  h.withItems slot (Clause.forall_extendedExprs hand (h.clause slot) hitems replace)

theorem extendSources (h : q.Over P S) {sources : List Source}
    (hsources : ∀ source ∈ sources, S source) (replace : Bool) :
    (q.extendSources sources replace).Over P S := by
  refine ⟨h.select, ?_, h.trailing⟩
  cases replace with
  | true => simpa [Query.extendSources, fromClause, Clause.extended] using hsources
  | false => exact List.forall_mem_append.mpr ⟨h.sources, hsources⟩

/-- The sub-select form labels what the query puts out, inside the column or around it. -/
theorem subSelect (haliased : ∀ c label, P (.column c) → P (.column (c.aliased label)))
    (hlabeled : ∀ e label, P e → P (.labeled e label)) (h : q.Over P S)
    (hprojection : ∀ e ∈ q.projection, P e) : q.subSelect.Over P S := by
  refine ⟨List.forall_mem_map.mpr fun e he => ?_, h.sources, h.trailing⟩
  have hitem := hprojection e he
  split
  next c =>
    split
    next => exact hitem
    next =>
      dsimp only
      split
      · exact hlabeled _ _ hitem
      · exact haliased c _ hitem
  next => exact hitem

end Query.Over

end QueryTree
