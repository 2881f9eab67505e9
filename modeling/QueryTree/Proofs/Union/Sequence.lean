import Mathlib.Data.Multiset.Dedup
import Mathlib.Data.Multiset.Count
import QueryTree.Operator

/-!
Trees of unions and the sequences that they are written as. A sequence is read from left to right:
UNION drops the duplicates of all that stands before it, UNION ALL adds rows. The trees for which
this gives their own rows are those that read back.
-/

namespace QueryTree

/-- Whether duplicates are dropped. -/
def SetOp.distinct : SetOp → Bool
  | .union => true
  | .unionAll => false

inductive UnionTree (α : Type) where
  | leaf (a : α)
  | node (op : SetOp) (left right : UnionTree α)

/-- Operands with the operations between them. -/
structure UnionSequence (α : Type) where
  first : α
  rest : List (SetOp × α)

namespace UnionTree

variable {α β : Type}

def map (f : α → β) : UnionTree α → UnionTree β
  | .leaf a => .leaf (f a)
  | .node op left right => .node op (left.map f) (right.map f)

/-- The tree without its operands. -/
def shape (t : UnionTree α) : UnionTree Unit :=
  t.map fun _ => ()

/-- The sequence without parentheses. -/
def flat : UnionTree α → UnionSequence α
  | .leaf a => ⟨a, []⟩
  | .node op left right =>
    ⟨left.flat.first, left.flat.rest ++ (op, right.flat.first) :: right.flat.rest⟩

/-- What a tree adds to a sequence behind an operation. -/
def items (op : SetOp) (t : UnionTree α) : List (SetOp × α) :=
  (op, t.flat.first) :: t.flat.rest

@[simp] theorem items_leaf (op : SetOp) (a : α) : items op (.leaf a) = [(op, a)] :=
  rfl

@[simp] theorem items_node (op op' : SetOp) (left right : UnionTree α) :
    items op (.node op' left right) = items op left ++ items op' right :=
  rfl

@[simp] theorem map_map {γ : Type} (f : α → β) (g : β → γ) (t : UnionTree α) :
    (t.map f).map g = t.map (g ∘ f) := by
  induction t with
  | leaf a => rfl
  | node op left right ihl ihr => simp [map, ihl, ihr]

@[simp] theorem shape_node (op : SetOp) (left right : UnionTree α) :
    (node op left right).shape = node op left.shape right.shape :=
  rfl

@[simp] theorem shape_map (f : α → β) (t : UnionTree α) : (t.map f).shape = t.shape := by
  simp [shape, Function.comp_def]

def hasUnion : UnionTree α → Bool
  | .leaf _ => false
  | .node op left right => op.distinct || left.hasUnion || right.hasUnion

/-- The last operation of the items of a tree. -/
def lastOp : UnionTree α → SetOp → SetOp
  | .leaf _, op => op
  | .node op _ right, _ => right.lastOp op

/-- Whether the rows of a tree are those of its sequence. UNION must be the last operation wherever
it is the outermost one, and UNION ALL must have no UNION to its right. -/
def ReadsBack : UnionTree α → Prop
  | .leaf _ => True
  | .node .union _ right => right.lastOp .union = .union
  | .node .unionAll left right => left.ReadsBack ∧ right.hasUnion = false

@[simp] theorem hasUnion_map (f : α → β) (t : UnionTree α) : (t.map f).hasUnion = t.hasUnion := by
  induction t with
  | leaf a => rfl
  | node op left right ihl ihr => simp [map, hasUnion, ihl, ihr]

@[simp] theorem lastOp_map (f : α → β) (t : UnionTree α) (op : SetOp) :
    (t.map f).lastOp op = t.lastOp op := by
  induction t generalizing op with
  | leaf a => rfl
  | node op' left right ihl ihr => exact ihr op'

theorem readsBack_map (f : α → β) (t : UnionTree α) : (t.map f).ReadsBack ↔ t.ReadsBack := by
  induction t with
  | leaf a => exact Iff.rfl
  | node op left right ihl ihr => cases op <;> simp [map, ReadsBack, ihl]

theorem readsBack_congr {t : UnionTree α} {u : UnionTree β} (h : t.shape = u.shape) :
    t.ReadsBack ↔ u.ReadsBack := by
  rw [← readsBack_map (fun _ => ()) t, ← readsBack_map (fun _ => ()) u]
  exact iff_of_eq (congrArg ReadsBack h)

end UnionTree

section
variable {Row : Type} [DecidableEq Row]

/-- Rows without their duplicates, if they are to be distinct. -/
def thinned (distinct : Bool) (rows : Multiset Row) : Multiset Row :=
  if distinct then rows.dedup else rows

@[simp] theorem thinned_false (rows : Multiset Row) : thinned false rows = rows :=
  rfl

@[simp] theorem thinned_true (rows : Multiset Row) : thinned true rows = rows.dedup :=
  rfl

@[simp] theorem thinned_thinned (a b : Bool) (rows : Multiset Row) :
    thinned a (thinned b rows) = thinned (b || a) rows := by
  cases a <;> cases b <;> simp

@[simp] theorem mem_thinned {distinct : Bool} {rows : Multiset Row} {row : Row} :
    row ∈ thinned distinct rows ↔ row ∈ rows := by
  cases distinct <;> simp

/-- The rows of a set operation. -/
def SetOp.rows (op : SetOp) (left right : Multiset Row) : Multiset Row :=
  thinned op.distinct (left + right)

/-- The rows after some further operations. -/
def rowsAfter (before : Multiset Row) (items : List (SetOp × Multiset Row)) : Multiset Row :=
  items.foldl (fun rows item => item.1.rows rows item.2) before

@[simp] theorem rowsAfter_nil (before : Multiset Row) : rowsAfter before [] = before :=
  rfl

@[simp] theorem rowsAfter_cons (before : Multiset Row) (item : SetOp × Multiset Row)
    (items : List (SetOp × Multiset Row)) :
    rowsAfter before (item :: items) = rowsAfter (item.1.rows before item.2) items :=
  rfl

@[simp] theorem rowsAfter_append (before : Multiset Row) (a b : List (SetOp × Multiset Row)) :
    rowsAfter before (a ++ b) = rowsAfter (rowsAfter before a) b :=
  List.foldl_append

/-- The rows of a sequence, read from left to right. -/
def UnionSequence.rows (s : UnionSequence (Multiset Row)) : Multiset Row :=
  rowsAfter s.first s.rest

namespace UnionTree

def rows : UnionTree (Multiset Row) → Multiset Row
  | .leaf rows => rows
  | .node op left right => op.rows left.rows right.rows

theorem flat_rows_node (op : SetOp) (left right : UnionTree (Multiset Row)) :
    (node op left right).flat.rows = rowsAfter left.flat.rows (items op right) :=
  rowsAfter_append _ _ _

theorem mem_rowsAfter_items {row : Row} {before : Multiset Row} {op : SetOp}
    {t : UnionTree (Multiset Row)} :
    row ∈ rowsAfter before (items op t) ↔ row ∈ before ∨ row ∈ t.rows := by
  induction t generalizing before op with
  | leaf rows => simp [SetOp.rows, UnionTree.rows]
  | node op' left right ihl ihr => simp [ihl, ihr, UnionTree.rows, SetOp.rows, or_assoc]

/-- Reading from left to right loses no row and makes up none, apart from duplicates. -/
theorem mem_flat_rows {row : Row} {t : UnionTree (Multiset Row)} :
    row ∈ t.flat.rows ↔ row ∈ t.rows := by
  induction t with
  | leaf rows => exact Iff.rfl
  | node op left right ihl ihr =>
    rw [flat_rows_node, mem_rowsAfter_items, ihl]
    simp [UnionTree.rows, SetOp.rows]

theorem rowsAfter_items_of_not_hasUnion {before : Multiset Row} {t : UnionTree (Multiset Row)}
    (h : t.hasUnion = false) : rowsAfter before (items .unionAll t) = before + t.rows := by
  induction t generalizing before with
  | leaf rows => rfl
  | node op left right ihl ihr =>
    simp only [hasUnion, Bool.or_eq_false_iff] at h
    obtain ⟨⟨hop, hleft⟩, hright⟩ := h
    cases op with
    | union => cases hop
    | unionAll => simp [ihl hleft, ihr hright, UnionTree.rows, SetOp.rows, SetOp.distinct,
        Multiset.add_assoc]

theorem nodup_rowsAfter_items {before : Multiset Row} {op : SetOp} {t : UnionTree (Multiset Row)}
    (h : t.lastOp op = .union) : (rowsAfter before (items op t)).Nodup := by
  induction t generalizing before op with
  | leaf rows =>
    cases h
    exact Multiset.nodup_dedup _
  | node op' left right ihl ihr =>
    rw [items_node, rowsAfter_append]
    exact ihr h

/-- A tree that reads back has the rows of its sequence. -/
theorem flat_rows_of_readsBack {t : UnionTree (Multiset Row)} (h : t.ReadsBack) :
    t.flat.rows = t.rows := by
  induction t with
  | leaf rows => rfl
  | node op left right ihl ihr =>
    cases op with
    | union =>
      have hflat : (node .union left right).flat.rows.Nodup := by
        rw [flat_rows_node]
        exact nodup_rowsAfter_items h
      have hrows : (node .union left right).rows.Nodup := Multiset.nodup_dedup _
      exact (Multiset.Nodup.ext hflat hrows).mpr fun _ => mem_flat_rows
    | unionAll =>
      rw [flat_rows_node, rowsAfter_items_of_not_hasUnion h.2, ihl h.1]
      rfl

/-- The tree with one row in its first operand and none in the others. -/
def marked {α : Type} (row : Row) : UnionTree α → UnionTree (Multiset Row)
  | .leaf _ => .leaf {row}
  | .node op left right => .node op (left.marked row) (right.map fun _ => 0)

section
variable {α : Type} {row : Row} {before : Multiset Row}

theorem rows_map_zero (t : UnionTree α) : (t.map fun _ => (0 : Multiset Row)).rows = 0 := by
  induction t with
  | leaf a => rfl
  | node op left right ihl ihr =>
    cases op <;> simp [map, UnionTree.rows, ihl, ihr, SetOp.rows, SetOp.distinct]

theorem rows_marked (t : UnionTree α) : (t.marked row).rows = {row} := by
  induction t with
  | leaf a => rfl
  | node op left right ihl ihr =>
    cases op <;> simp [marked, UnionTree.rows, ihl, rows_map_zero, SetOp.rows, SetOp.distinct]

omit [DecidableEq Row] in
@[simp] theorem shape_marked (t : UnionTree α) : (t.marked row).shape = t.shape := by
  induction t with
  | leaf a => rfl
  | node op left right ihl ihr => simp [marked, ihl]

theorem mem_rows_map_singleton (t : UnionTree α) :
    row ∈ (t.map fun _ => ({row} : Multiset Row)).rows := by
  induction t with
  | leaf a => exact Multiset.mem_singleton_self row
  | node op left right ihl ihr => simp [map, UnionTree.rows, SetOp.rows, ihl]

theorem rowsAfter_items_map_zero (op : SetOp) (t : UnionTree α) :
    rowsAfter before (items op (t.map fun _ => 0)) =
      thinned (op.distinct || t.hasUnion) before := by
  induction t generalizing before op with
  | leaf a => simp [map, SetOp.rows, hasUnion]
  | node op' left right ihl ihr => simp [map, ihl, ihr, hasUnion, Bool.or_assoc, Bool.or_left_comm]

theorem rowsAfter_items_marked (op : SetOp) (t : UnionTree α) :
    rowsAfter before (items op (t.marked row)) =
      thinned (op.distinct || t.hasUnion) (before + {row}) := by
  induction t generalizing before op with
  | leaf a => simp [marked, SetOp.rows, hasUnion]
  | node op' left right ihl ihr =>
    simp [marked, ihl, rowsAfter_items_map_zero, hasUnion, Bool.or_assoc, Bool.or_left_comm]

theorem two_le_count_rowsAfter_items {op : SetOp} {t : UnionTree α} (h : t.lastOp op = .unionAll)
    (hrow : row ∈ before) :
    2 ≤ (rowsAfter before (items op (t.map fun _ => {row}))).count row := by
  induction t generalizing before op with
  | leaf a =>
    cases h
    have hone := Multiset.one_le_count_iff_mem.mpr hrow
    simp only [map, items_leaf, rowsAfter_cons, rowsAfter_nil, SetOp.rows, SetOp.distinct,
      thinned_false, Multiset.count_add, Multiset.count_singleton_self]
    omega
  | node op' left right ihl ihr =>
    rw [map, items_node, rowsAfter_append]
    exact ihr h (mem_rowsAfter_items.mpr (Or.inl hrow))

end

/-- The trees that read back are those whose rows are read from their sequences, whatever the rows
of their operands are. -/
theorem readsBack_iff [Inhabited Row] {α : Type} (t : UnionTree α) :
    t.ReadsBack ↔ ∀ operands : UnionTree (Multiset Row), operands.shape = t.shape →
      operands.flat.rows = operands.rows := by
  constructor
  · intro h operands hshape
    exact flat_rows_of_readsBack ((readsBack_congr hshape).mpr h)
  intro h
  induction t with
  | leaf a => trivial
  | node op left right ihl ihr =>
    let row : Row := default
    cases op with
    | union =>
      -- with one row everywhere, a UNION ALL at the end repeats it
      by_contra hlast
      have hall : right.lastOp .union = .unionAll := by
        cases hop : right.lastOp .union with
        | union => exact absurd hop hlast
        | unionAll => rfl
      have hrows := h ((node .union left right).map fun _ => {row}) (shape_map _ _)
      have htwo : 2 ≤ ((node .union left right).map fun _ => ({row} : Multiset Row)).flat.rows.count
          row := by
        rw [map, flat_rows_node]
        exact two_le_count_rowsAfter_items hall (mem_flat_rows.mpr (mem_rows_map_singleton left))
      have hone := Multiset.nodup_iff_count_le_one.mp (Multiset.nodup_dedup
        ((left.map fun _ => ({row} : Multiset Row)).rows + (right.map fun _ => {row}).rows)) row
      rw [hrows] at htwo
      exact absurd (htwo.trans hone) (by decide)
    | unionAll =>
      have hright : right.hasUnion = false := by
        -- a row on both sides comes twice, unless a UNION on the right drops one of them
        by_contra hunion
        have hrows := h (.node .unionAll (left.map fun _ => {row}) (right.marked row)) (by simp)
        rw [Bool.not_eq_false] at hunion
        rw [flat_rows_node, rowsAfter_items_marked, hunion, Bool.or_true, thinned_true] at hrows
        have hcount := congrArg (Multiset.count row) hrows
        have hmem : row ∈ (left.map fun _ => {row}).rows := mem_rows_map_singleton left
        have hleft := Multiset.one_le_count_iff_mem.mpr hmem
        simp only [UnionTree.rows, rows_marked, SetOp.rows, SetOp.distinct, thinned_false,
          Multiset.count_add, Multiset.count_dedup, Multiset.count_singleton_self] at hcount
        split at hcount <;> omega
      refine ⟨ihl ?_, hright⟩
      intro operands hshape
      have hrows := h (.node .unionAll operands (right.map fun _ => 0)) (by simp [hshape])
      rw [flat_rows_node, rowsAfter_items_map_zero, hright] at hrows
      simpa [UnionTree.rows, rows_map_zero, SetOp.rows, SetOp.distinct] using hrows

end UnionTree

end

end QueryTree
