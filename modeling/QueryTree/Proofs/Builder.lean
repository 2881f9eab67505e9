import Mathlib.Data.List.Induction
import QueryTree.Proofs.Tree.Copy

/-!
Queries built call by call. A clause holds the items of its own calls, from the last one on that
replaces. The calls for other clauses have no say in it. WHERE and HAVING hold one predicate, in
which all given ones are joined by AND, however they were split over calls.
-/

namespace QueryTree

/-- A call that adds items to a clause, or puts them in place of those there are. -/
structure Call (α : Type) where
  replaces : Bool
  items : List α

/-- The items of the calls that no later call replaces. -/
def standing {α : Type} : List (Call α) → List α
  | [] => []
  | call :: rest => if rest.any Call.replaces then standing rest else call.items ++ standing rest

theorem standing_concat {α : Type} (calls : List (Call α)) (call : Call α) :
    standing (calls ++ [call]) = (if call.replaces then [] else standing calls) ++ call.items := by
  induction calls with
  | nil => simp [standing]
  | cons first rest ih =>
    rw [List.cons_append, standing, ih, List.any_append, List.any_cons, List.any_nil, Bool.or_false]
    cases call.replaces with
    | true => simp
    | false =>
      rw [Bool.or_false, standing]
      split <;> simp

/-- A list of one predicate at most, in which the given ones are joined by AND, nested to the
left. -/
inductive LeftNested : List Expr → List Expr → Prop
  | none : LeftNested [] []
  | one (e : Expr) : LeftNested [e] [e]
  | and {given : List Expr} {joined : Expr} (e : Expr) :
      LeftNested given [joined] → LeftNested (given ++ [e]) [.binary .and joined e]

/-- Predicates are joined the same way at once and with some of them joined before. -/
theorem Expr.conjunction?_append (given items : List Expr) :
    Expr.conjunction? ((Expr.conjunction? given).toList ++ items) =
      Expr.conjunction? (given ++ items) := by
  cases given with
  | nil => rfl
  | cons first rest => simp [Expr.conjunction?, List.foldl_append]

theorem leftNested_conjunction (given : List Expr) :
    LeftNested given (Expr.conjunction? given).toList := by
  induction given using List.reverseRecOn with
  | nil => exact .none
  | append_singleton given e ih =>
    cases given with
    | nil => exact .one e
    | cons first rest =>
      have hjoined : Expr.conjunction? (first :: rest ++ [e]) =
          some (.binary .and (rest.foldl (.binary .and) first) e) := by
        simp [Expr.conjunction?, List.foldl_append]
      rw [hjoined]
      exact .and e ih

theorem LeftNested.length_le_one {given joined : List Expr} (h : LeftNested given joined) :
    joined.length ≤ 1 := by
  cases h <;> simp

/-- Whether a clause holds one predicate. -/
def Slot.isPredicate : Slot → Bool
  | .filter | .having => true
  | _ => false

/-- What a clause makes of the items it is given. -/
def Slot.held (slot : Slot) (given : List Expr) : List Expr :=
  if slot.isPredicate then (Expr.conjunction? given).toList else given

namespace BuildStep

/-- The call of a step on a clause of expressions, if it is for that clause. -/
def callOn (slot : Slot) : BuildStep → Option (Call Expr)
  | .exprs other replaces items => if other = slot then some ⟨replaces, items⟩ else none
  | .sources .. => none

/-- The call of a step on FROM. -/
def callOnSources : BuildStep → Option (Call Source)
  | .exprs .. => none
  | .sources replaces items => some ⟨replaces, items⟩

end BuildStep

namespace Query

theorem isPredicate_clause (q : Query) (slot : Slot) :
    (q.clause slot).kind.isPredicate = slot.isPredicate := by
  cases slot with
  | select => cases hsub : q.isSubSelect <;> simp [clause, selectClause, hsub,
      ClauseKind.isPredicate, Slot.isPredicate]
  | _ => rfl

theorem clause_extend (q : Query) (slot other : Slot) (items : List Expr) (replace : Bool) :
    ((q.extend other items replace).clause slot).items =
      if other = slot then ((q.clause slot).extendedExprs items replace).items
      else (q.clause slot).items := by
  cases slot <;> cases other <;> rfl

/-- A clause is extended as if all its items had been given at once. -/
theorem items_extendedExprs {q : Query} {slot : Slot} {given : List Expr}
    (h : (q.clause slot).items = slot.held given) (items : List Expr) (replace : Bool) :
    ((q.clause slot).extendedExprs items replace).items =
      slot.held ((if replace then [] else given) ++ items) := by
  rw [Clause.extendedExprs, isPredicate_clause]
  unfold Slot.held at *
  cases hslot : slot.isPredicate with
  | false =>
    rw [hslot] at h
    cases replace <;> simp_all [Clause.extended]
  | true =>
    rw [hslot, if_pos rfl] at h
    cases replace with
    | true => rfl
    | false =>
      have hbase : (q.clause slot).predicate?.toList = (Expr.conjunction? given).toList := by
        rw [Clause.predicate?, h]
        cases Expr.conjunction? given <;> rfl
      simp only [if_true, Bool.false_eq_true, if_false, hbase, Expr.conjunction?_append]

/-- Built from the empty query by one step after the other. Every step makes a new object, whatever
numbers and names have been given out by then. -/
inductive BuiltBy : List BuildStep → Query → Prop
  | empty (registry : Registry) : BuiltBy [] (Query.empty.anew registry).1
  | step {steps : List BuildStep} {q : Query} (s : BuildStep) (registry : Registry) :
      BuiltBy steps q → BuiltBy (steps ++ [s]) ((q.build s).anew registry).1

/-- Every sequence of steps builds something. -/
theorem exists_builtBy (steps : List BuildStep) : ∃ q : Query, q.BuiltBy steps := by
  induction steps using List.reverseRecOn with
  | nil => exact ⟨_, .empty {}⟩
  | append_singleton steps s ih =>
    obtain ⟨q, h⟩ := ih
    exact ⟨_, .step s {} h⟩

namespace BuiltBy

variable {steps : List BuildStep} {q : Query}

theorem isSubSelect (h : q.BuiltBy steps) : q.isSubSelect = false := by
  induction h with
  | empty registry => rfl
  | @step steps q s registry h ih =>
    cases s with
    | exprs slot replace items => cases slot <;> exact ih
    | sources replace items => exact ih

theorem clause (h : q.BuiltBy steps) (slot : Slot) :
    (q.clause slot).items = slot.held (standing (steps.filterMap (BuildStep.callOn slot))) := by
  induction h with
  | empty registry => cases slot <;> rfl
  | @step steps q s registry h ih =>
    have hanew : (((q.build s).anew registry).1.clause slot).items =
        ((q.build s).clause slot).items := by
      cases slot <;> rfl
    rw [hanew, List.filterMap_append, List.filterMap_cons, List.filterMap_nil]
    cases s with
    | sources replace items =>
      rw [BuildStep.callOn, List.append_nil, ← ih]
      cases slot <;> rfl
    | exprs other replace items =>
      rw [build, clause_extend, BuildStep.callOn]
      by_cases hslot : other = slot
      · rw [if_pos hslot, if_pos hslot, standing_concat]
        exact items_extendedExprs ih items replace
      · rw [if_neg hslot, if_neg hslot, List.append_nil]
        exact ih

theorem sources (h : q.BuiltBy steps) :
    q.sources.map Source.unnumbered =
      (standing (steps.filterMap BuildStep.callOnSources)).map Source.unnumbered := by
  induction h with
  | empty registry => rfl
  | @step steps q s registry h ih =>
    have hanew : ((q.build s).anew registry).1.sources.map Source.unnumbered =
        (q.build s).sources.map Source.unnumbered := by
      rw [← sourcesUnnumbered_eq_map, ← sourcesUnnumbered_eq_map]
      exact sourcesUnnumbered_copy _ registry
    rw [hanew, List.filterMap_append, List.filterMap_cons, List.filterMap_nil]
    cases s with
    | exprs slot replace items =>
      rw [BuildStep.callOnSources, List.append_nil, ← ih]
      cases slot <;> rfl
    | sources replace items =>
      rw [BuildStep.callOnSources, standing_concat, List.map_append]
      cases replace with
      | true => rfl
      | false =>
        simp only [Bool.false_eq_true, if_false]
        rw [← ih]
        exact List.map_append

end BuiltBy

/-- What a query has been built of decides on it up to numbers, clause by clause. -/
theorem unnumbered_eq {p q : Query} (hsub : p.isSubSelect = q.isSubSelect)
    (hclauses : ∀ slot, (p.clause slot).items = (q.clause slot).items)
    (hsources : p.sources.map Source.unnumbered = q.sources.map Source.unnumbered) :
    p.unnumbered = q.unnumbered := by
  cases p
  cases q
  simp only [unnumbered, sourcesUnnumbered_eq_map, Query.mk.injEq]
  exact ⟨hclauses .select, hsub, hsources, hclauses .filter, hclauses .groupBy, hclauses .having,
    hclauses .orderBy, hclauses .limit, trivial⟩

/-- Whatever a query has been built by, each clause holds what stands of its own calls, WHERE and
HAVING as one predicate. So the query depends on the calls for each clause, and not on how they come
between each other. -/
theorem built_clauses {steps : List BuildStep} {q : Query} (h : q.BuiltBy steps) :
    (∀ slot ∈ [Slot.select, .groupBy, .orderBy, .limit],
      (q.clause slot).items = standing (steps.filterMap (BuildStep.callOn slot))) ∧
    (∀ slot ∈ [Slot.filter, .having], (q.clause slot).items.length ≤ 1 ∧
      LeftNested (standing (steps.filterMap (BuildStep.callOn slot))) (q.clause slot).items) ∧
    q.sources.map Source.unnumbered =
      (standing (steps.filterMap BuildStep.callOnSources)).map Source.unnumbered ∧
    ∀ (steps' : List BuildStep) (q' : Query), q'.BuiltBy steps' →
      (∀ slot, steps'.filterMap (BuildStep.callOn slot) =
        steps.filterMap (BuildStep.callOn slot)) →
      steps'.filterMap BuildStep.callOnSources = steps.filterMap BuildStep.callOnSources →
      q'.unnumbered = q.unnumbered := by
  refine ⟨fun slot hslot => ?_, fun slot hslot => ?_, h.sources, ?_⟩
  · have hplain : slot.isPredicate = false := by
      revert slot
      decide
    rw [h.clause, Slot.held, hplain, if_neg Bool.false_ne_true]
  · have hpredicate : slot.isPredicate = true := by
      revert slot
      decide
    rw [h.clause, Slot.held, hpredicate, if_pos rfl]
    exact ⟨(leftNested_conjunction _).length_le_one, leftNested_conjunction _⟩
  · intro steps' q' h' hcalls hsources
    refine unnumbered_eq (h'.isSubSelect.trans h.isSubSelect.symm) (fun slot => ?_) ?_
    · rw [h'.clause, h.clause, hcalls]
    · rw [h'.sources, h.sources, hsources]

end Query

def books : Table := ⟨0, "Books", ["id", "title", "year"]⟩

def bookColumn (field : String) : Expr :=
  .column (.plain (.table books) field)

/-- The titles of the books of some years, with a SELECT list and a predicate that are replaced on
the way. -/
def bookSteps : List BuildStep :=
  [.exprs .filter false [.param "lent", .param "late"], .exprs .select false [bookColumn "id"],
    .exprs .filter true [.binary .gte (bookColumn "year") (.param "first")],
    .sources false [.relation (.table books)], .exprs .filter false [],
    .exprs .select true [bookColumn "title"],
    .exprs .filter false [.binary .lte (bookColumn "year") (.param "last"), .param "kept"]]

theorem built_clauses_books :
    ∃ q : Query, q.BuiltBy bookSteps ∧ q.selectList = [bookColumn "title"] ∧
      q.whereList.length ≤ 1 ∧
      LeftNested [.binary .gte (bookColumn "year") (.param "first"),
        .binary .lte (bookColumn "year") (.param "last"), .param "kept"] q.whereList ∧
      q.sources.map Source.unnumbered = [.relation (.table books)] ∧ q.limitList = [] := by
  obtain ⟨q, h⟩ := Query.exists_builtBy bookSteps
  obtain ⟨hplain, hone, hsources, -⟩ := Query.built_clauses h
  obtain ⟨hlength, hnested⟩ := hone .filter (by decide)
  exact ⟨q, h, hplain .select (by decide), hlength, hnested, hsources, hplain .limit (by decide)⟩

end QueryTree
