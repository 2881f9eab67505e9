import QueryTree.Proofs.Union.Basic
import QueryTree.Proofs.Union.Sequence
import QueryTree.Naming

/-!
How a tree of unions is written: its operands in their order with the operations between them, and
no parentheses. Read from left to right, the text has the rows of the tree if the tree reads back.
Nested on its right, a union need not.
-/

namespace QueryTree

/-- The tree of the unions that a query is nothing but. -/
def Query.unionTree : Query → UnionTree Query
  | ⟨[], _, [.union op left right], [], [], [], [], [], _⟩ =>
    .node op left.unionTree right.unionTree
  | q => .leaf q

theorem Query.unionTree_of_not_isBareUnion {q : Query} (h : q.isBareUnion = false) :
    q.unionTree = .leaf q := by
  fun_cases Query.unionTree q with
  | case1 sub op left right id => cases h
  | case2 q hq => rfl

theorem Query.shape_copy (q : Query) (registry : Registry) :
    (q.copy registry).1.unionTree.shape = q.unionTree.shape := by
  fun_induction Query.unionTree q generalizing registry with
  | case1 sub op left right id ihl ihr =>
    rw [UnionTree.shape_node, ← ihl registry, ← ihr (left.copy registry).2]
    rfl
  | case2 q hq =>
    have hbare : q.isBareUnion = false := by
      by_contra h
      obtain ⟨select, sub, sources, filter, group, having, order, limit, id⟩ := q
      obtain ⟨op, left, right, hsources, hselect, hfilter, hgroup, hhaving, horder, hlimit⟩ :=
        (Query.isBareUnion_iff _).mp (by simpa using h)
      simp only at hsources hselect hfilter hgroup hhaving horder hlimit
      subst hsources hselect hfilter hgroup hhaving horder hlimit
      exact hq _ _ _ _ _ rfl
    rw [Query.unionTree_of_not_isBareUnion ((q.isBareUnion_copy registry).trans hbare)]
    rfl

/-- Building a union puts the trees of its sides under its operation. -/
theorem Query.shape_union {op : SetOp} {left right q : Query} {registry last : Registry}
    (h : Query.union op left right registry = (.ok q, last)) :
    q.unionTree.shape = .node op left.unionTree.shape right.unionTree.shape := by
  obtain ⟨-, hq⟩ := Query.union_ok_iff.mp h
  cases hq
  rw [← left.shape_copy registry, ← right.shape_copy (left.copy registry).2]
  rfl

namespace Render

/-- A query that is written under the given name. -/
structure Operand where
  setting : Setting
  alias_ : Option String
  identity : Identity
  query : Query

def Operand.write (o : Operand) : Writer String :=
  Render.query o.setting o.alias_ o.identity none o.query

/-- The tree of unions of a query, with the setting in which each operand is written. -/
def operands (s : Setting) (alias_ : Option String) (identity : Identity) :
    Query → UnionTree Operand
  | ⟨[], _, [.union op left right], [], [], [], [], [], _⟩ =>
    let inside := s.enter alias_ [] false
    .node op (operands inside none identity.ofOperands left)
      (operands inside none identity.ofOperands right)
  | q => .leaf ⟨s, alias_, identity, q⟩

theorem operands_map_query (s : Setting) (alias_ : Option String) (identity : Identity)
    (q : Query) : (operands s alias_ identity q).map Operand.query = q.unionTree := by
  fun_induction operands s alias_ identity q with
  | case1 s alias_ identity sub op left right id inside ihl ihr =>
    rw [UnionTree.map, ihl, ihr, Query.unionTree]
  | case2 s alias_ identity q hq =>
    rw [Query.unionTree]
    · rfl
    · exact hq

section
variable {α : Type} (f : α → Writer String)

/-- Writes further operands behind a text, each with its operation in front. -/
def writeItems (text : String) : List (SetOp × α) → Writer String
  | [] => pure text
  | (op, a) :: rest => do
    let next ← f a
    writeItems (text ++ " " ++ op.text ++ " " ++ next) rest

/-- Writes a sequence of operands. -/
def writeSequence (sequence : UnionSequence α) : Writer String := do
  let first ← f sequence.first
  writeItems f first sequence.rest

theorem writeItems_append (text : String) (a b : List (SetOp × α)) :
    writeItems f text (a ++ b) = (do
      let between ← writeItems f text a
      writeItems f between b) := by
  induction a generalizing text with
  | nil => simp [writeItems]
  | cons item a ih => simp [writeItems, ih]

theorem writeItems_prefix (before text : String) (items : List (SetOp × α)) :
    writeItems f (before ++ text) items = (before ++ ·) <$> writeItems f text items := by
  induction items generalizing text with
  | nil => simp [writeItems]
  | cons item items ih =>
    have hstep : ∀ next, before ++ text ++ " " ++ item.1.text ++ " " ++ next =
        before ++ (text ++ " " ++ item.1.text ++ " " ++ next) := by
      simp [String.append_assoc]
    simp [writeItems, hstep, ih]

/-- A tree is written as its left side, its operation and its right side, one behind the other. -/
theorem writeSequence_node (op : SetOp) (left right : UnionTree α) :
    writeSequence f (UnionTree.node op left right).flat = (do
      let l ← writeSequence f left.flat
      let r ← writeSequence f right.flat
      return l ++ " " ++ op.text ++ " " ++ r) := by
  simp only [writeSequence, UnionTree.flat, writeItems_append, bind_assoc]
  congr 1
  funext first
  congr 1
  funext l
  simp [writeItems, writeItems_prefix]

end

theorem check_of_bareUnion (s : Setting) (sub : Bool) (op : SetOp) (left right : Query) (id : Nat) :
    s.check ⟨[], sub, [.union op left right], [], [], [], [], [], id⟩ = .ok () := by
  unfold Setting.check
  split
  · rfl
  · rfl

/-- A query is written as the sequence of the operands of its tree. -/
theorem query_eq_writeSequence (s : Setting) (alias_ : Option String) (identity : Identity)
    (q : Query) :
    query s alias_ identity none q =
      writeSequence Operand.write (operands s alias_ identity q).flat := by
  fun_induction operands s alias_ identity q with
  | case1 s alias_ identity sub op left right id inside ihl ihr =>
    have hbare : Query.isBareUnion ⟨[], sub, [.union op left right], [], [], [], [], [], id⟩ := rfl
    rw [writeSequence_node, ← ihl, ← ihr, query]
    simp only [OnlyColumn.of, check_of_bareUnion, hbare, if_true, bareUnion]
    rfl
  | case2 s alias_ identity q hq => simp [UnionTree.flat, writeSequence, writeItems, Operand.write]

/-- A tree of unions is written without parentheses. Its text, read from left to right, has the rows
of the tree for all rows of the operands exactly if the tree reads back. -/
theorem flattened_union_rows_iff {Row : Type} [DecidableEq Row] [Inhabited Row] (s : Setting)
    (alias_ : Option String) (identity : Identity) (q : Query) :
    query s alias_ identity none q =
        writeSequence Operand.write (operands s alias_ identity q).flat ∧
      (operands s alias_ identity q).map Operand.query = q.unionTree ∧
      (q.unionTree.ReadsBack ↔ ∀ rows : UnionTree (Multiset Row),
        rows.shape = q.unionTree.shape → rows.flat.rows = rows.rows) :=
  ⟨query_eq_writeSequence s alias_ identity q, operands_map_query s alias_ identity q,
    UnionTree.readsBack_iff q.unionTree⟩

/-- UNION ALL in front of a UNION does not read back: the UNION drops the duplicates of its left
side too. -/
example (a b c : Query) :
    ¬ (UnionTree.node .unionAll (.leaf a) (.node .union (.leaf b) (.leaf c))).ReadsBack := by
  simp [UnionTree.ReadsBack, UnionTree.hasUnion, SetOp.distinct]

end Render

end QueryTree
