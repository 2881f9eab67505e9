import Mathlib
import QueryTree.Proofs.Tree.Equality

/-!
Which trees equal themselves: those without a NaN, wherever it may stand. The query that a derived
table was made of counts too, and so does every relation that a column belongs to.
-/

namespace QueryTree

/-- None of the floats is a NaN. All NaNs are one value. -/
def NanFree (xs : List Float) : Prop :=
  Float.nan ∉ xs

@[simp] theorem nanFree_nil : NanFree [] :=
  List.not_mem_nil

@[simp] theorem nanFree_singleton {x : Float} : NanFree [x] ↔ x ≠ Float.nan := by
  rw [NanFree, List.mem_singleton, ne_comm]

@[simp] theorem nanFree_append {xs ys : List Float} :
    NanFree (xs ++ ys) ↔ NanFree xs ∧ NanFree ys :=
  List.mem_append.not.trans not_or

namespace Value

mutual

/-- The floats among a constant and the constants listed in it. -/
def floats : Value → List Float
  | .float x => [x]
  | .list items => itemsFloats items
  | _ => []

def itemsFloats : List Value → List Float
  | [] => []
  | v :: rest => floats v ++ itemsFloats rest

end

mutual

theorem same_self_iff : (v : Value) → (v.same v = true ↔ NanFree v.floats)
  | .float x => by
    rw [Value.same, floats, Float.beq_self_iff, nanFree_singleton]
  | .list items => by simp [Value.same, floats, sameItems_self_iff items]
  | .null | .bool _ | .int _ | .text _ | .date _ | .dateTime _ | .time _ | .uuid _ => by
    simp [Value.same, floats]

theorem sameItems_self_iff : (vs : List Value) →
    (sameItems vs vs = true ↔ NanFree (itemsFloats vs))
  | [] => by simp [sameItems, itemsFloats]
  | v :: rest => by
    simp [sameItems, itemsFloats, same_self_iff v, sameItems_self_iff rest]

end

end Value

mutual

/-- The floats among the constants of a tree. -/
def Expr.floats : Expr → List Float
  | .value v => v.floats
  | .param _ => []
  | .star => []
  | .column c => c.floats
  | .unary _ operand => operand.floats
  | .binary _ left right => left.floats ++ right.floats
  | .between subject low high => subject.floats ++ low.floats ++ high.floats
  | .call _ args => exprsFloats args
  | .list items => exprsFloats items
  | .labeled e _ => e.floats
  | .subquery u => u.floats

def exprsFloats : List Expr → List Float
  | [] => []
  | e :: rest => e.floats ++ exprsFloats rest

def Column.floats : Column → List Float
  | ⟨owner, _, _, _⟩ => owner.floats

def Relation.floats : Relation → List Float
  | .table _ => []
  | .alias_ _ => []
  | .projected scope source => scope.floats ++ source.floats
  | .derived d => d.floats

def Scope.floats : Scope → List Float
  | .derived d => d.floats
  | .unfolded u => u.floats

def Derived.floats : Derived → List Float
  | ⟨_, query, given⟩ => query.floats ++ given.floats

def Unfolded.floats : Unfolded → List Float
  | ⟨_, query⟩ => query.floats

def Source.floats : Source → List Float
  | .relation r => r.floats
  | .join _ left right on => left.floats ++ right.floats ++ exprsFloats on
  | .union _ left right => left.floats ++ right.floats

def sourcesFloats : List Source → List Float
  | [] => []
  | source :: rest => source.floats ++ sourcesFloats rest

def Query.floats : Query → List Float
  | ⟨select, _, sources, filter, group, having, order, limit, _⟩ =>
    exprsFloats select ++ sourcesFloats sources ++ exprsFloats filter ++ exprsFloats group ++
      exprsFloats having ++ exprsFloats order ++ exprsFloats limit

end

mutual

theorem Expr.same_self_iff : (e : Expr) → (e.same e = true ↔ NanFree e.floats)
  | .value v => by
    rw [Expr.same, Expr.floats]
    exact v.same_self_iff
  | .param _ => by simp [Expr.same, Expr.floats]
  | .star => by simp [Expr.same, Expr.floats]
  | .column c => by rw [Expr.same, Expr.floats, c.same_self_iff]
  | .unary op operand => by simp [Expr.same, Expr.floats, operand.same_self_iff]
  | .binary op left right => by
    simp [Expr.same, Expr.floats, left.same_self_iff, right.same_self_iff]
  | .between subject low high => by
    simp [Expr.same, Expr.floats, subject.same_self_iff, low.same_self_iff, high.same_self_iff,
      and_assoc]
  | .call name args => by simp [Expr.same, Expr.floats, sameExprs_self_iff args]
  | .list items => by simp [Expr.same, Expr.floats, sameExprs_self_iff items]
  | .labeled e label => by simp [Expr.same, Expr.floats, e.same_self_iff]
  | .subquery u => by rw [Expr.same, Expr.floats, u.same_self_iff]

theorem sameExprs_self_iff : (es : List Expr) →
    (sameExprs es es = true ↔ NanFree (exprsFloats es))
  | [] => by simp [sameExprs, exprsFloats]
  | e :: rest => by
    simp [sameExprs, exprsFloats, e.same_self_iff, sameExprs_self_iff rest]

theorem Column.same_self_iff : (c : Column) → (c.same c = true ↔ NanFree c.floats)
  | ⟨owner, field, label, correlated⟩ => by
    simp [Column.same, Column.floats, owner.same_self_iff]

theorem Relation.same_self_iff : (r : Relation) → (r.same r = true ↔ NanFree r.floats)
  | .table t => by simp [Relation.same, Relation.floats]
  | .alias_ a => by simp [Relation.same, Relation.floats]
  | .projected scope source => by
    simp [Relation.same, Relation.floats, scope.same_self_iff, source.same_self_iff]
  | .derived d => by rw [Relation.same, Relation.floats, d.same_self_iff]

theorem Scope.same_self_iff : (scope : Scope) →
    (scope.same scope = true ↔ NanFree scope.floats)
  | .derived d => by rw [Scope.same, Scope.floats, d.same_self_iff]
  | .unfolded u => by rw [Scope.same, Scope.floats, u.same_self_iff]

theorem Derived.same_self_iff : (d : Derived) → (d.same d = true ↔ NanFree d.floats)
  | ⟨name, query, given⟩ => by
    simp [Derived.same, Derived.floats, query.same_self_iff, given.same_self_iff]

theorem Unfolded.same_self_iff : (u : Unfolded) → (u.same u = true ↔ NanFree u.floats)
  | ⟨name, query⟩ => by simp [Unfolded.same, Unfolded.floats, query.same_self_iff]

theorem Source.same_self_iff (source : Source) :
    source.same source = true ↔ NanFree source.floats := by
  cases source with
  | relation r => rw [Source.same, Source.floats, r.same_self_iff]
  | join kind left right on =>
    simp [Source.same, Source.floats, left.same_self_iff, right.same_self_iff,
      sameExprs_self_iff on, and_assoc]
  | union op left right =>
    simp [Source.same, Source.floats, left.same_self_iff, right.same_self_iff]

theorem sameSources_self_iff : (sources : List Source) →
    (sameSources sources sources = true ↔ NanFree (sourcesFloats sources))
  | [] => by simp [sameSources, sourcesFloats]
  | source :: rest => by
    simp [sameSources, sourcesFloats, source.same_self_iff, sameSources_self_iff rest]

theorem Query.same_self_iff : (q : Query) → (q.same q = true ↔ NanFree q.floats)
  | ⟨select, sub, sources, filter, group, having, order, limit, _⟩ => by
    simp [Query.same, Query.floats, sameExprs_self_iff, sameSources_self_iff sources, and_assoc]

end

end QueryTree
