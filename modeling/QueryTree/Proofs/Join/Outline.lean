import QueryTree.Proofs.Expression.Skeleton
import QueryTree.Proofs.Render.Conjunction
import QueryTree.Proofs.Tree.Clauses

/-! Join trees over tables and their aliases, and what their texts are made of. -/

namespace QueryTree

/-- Tables and aliases of tables, joined in any way. -/
inductive JoinTree where
  | table (t : Table)
  | alias_ (a : TableAlias)
  | join (kind : JoinKind) (left right : JoinTree) (on : List Expr)

namespace JoinTree

def source : JoinTree → Source
  | table t => .relation (.table t)
  | alias_ a => .relation (.alias_ a)
  | join kind left right on => .join kind left.source right.source on

/-- Names are identifiers, and of each predicate the text shows the whole skeleton. -/
def Legible : JoinTree → Prop
  | table t => Text.isIdentifier t.name = true
  | alias_ a => Text.isIdentifier a.table.name = true ∧ Text.isIdentifier a.name = true
  | join _ left right on =>
    left.Legible ∧ right.Legible ∧ ∀ e ∈ on, e.skeleton?.isSome = true

end JoinTree

/-- What is written of a join tree: at each leaf the name of the table and that of the alias, if it
is one, and at each join its kind and the text behind ON, if there are predicates. -/
inductive Outline where
  | relation (table : String) (alias_ : Option String)
  | join (kind : JoinKind) (left right : Outline) (on : Option String)
  deriving DecidableEq

namespace Outline

def isJoin : Outline → Bool
  | relation _ _ => false
  | join _ _ _ _ => true

/-- The text of a tree. Of the operands the right one alone is put in parentheses, if it is a
join. -/
def chars : Outline → List Char
  | relation table none => table.toList
  | relation table (some name) => table.toList ++ (" as ".toList ++ name.toList)
  | join kind left right on =>
    left.chars ++ ' ' :: (kind.text.toList ++ ' ' ::
      ((if right.isJoin then '(' :: (right.chars ++ [')']) else right.chars) ++
        (Render.onText on.toList).toList))

/-- Names are words, and what stands behind ON is the text of an expression that can be read
back. -/
def Legible : Outline → Prop
  | relation table alias_ =>
    Text.IsWord table.toList ∧ ∀ name ∈ alias_, Text.IsWord name.toList
  | join _ left right on =>
    left.Legible ∧ right.Legible ∧ ∀ text ∈ on, ∃ t : Skeleton, t.Legible ∧ text.toList = t.chars

end Outline

namespace Render

/-- What is written of a join tree, part by part. -/
def outline (s : Setting) : JoinTree → Writer Outline
  | .table t => pure (.relation t.name none)
  | .alias_ a => pure (.relation a.table.name (some a.name))
  | .join kind left right on => do
    let l ← outline s left
    let r ← outline s right
    let on ← conjunctionText? s on
    return .join kind l r on

variable {s : Setting} {state after : State}

/-- The conjunction of legible predicates is legible. -/
theorem exists_skeleton_of_conjunction (hs : s.Qualifies) {on : List Expr}
    (hon : ∀ e ∈ on, e.skeleton?.isSome = true) {text? : Option String}
    (h : conjunctionText? s on state = (.ok text?, after)) :
    ∀ text ∈ text?, ∃ t : Skeleton, t.Legible ∧ text.toList = t.chars := by
  have hand : ∀ left right : Expr, left.skeleton?.isSome = true → right.skeleton?.isSome = true →
      (Expr.binary .and left right).skeleton?.isSome = true := by
    intro left right hleft hright
    obtain ⟨l, hl⟩ := Option.isSome_iff_exists.mp hleft
    obtain ⟨r, hr⟩ := Option.isSome_iff_exists.mp hright
    simp [Expr.skeleton?, hl, hr]
  intro text htext
  obtain ⟨e, he, hwritten⟩ := exists_conjunction_of_mem h htext
  obtain ⟨t, ht⟩ := Option.isSome_iff_exists.mp (Expr.forall_conjunction hand hon e he)
  exact ⟨t, legible_of_skeleton? e ht, chars_of_expr hs e ht hwritten⟩

/-- A join tree is written as its outline says. -/
theorem exists_outline (hs : s.Qualifies) {identity : Identity} {id : Nat} :
    (j : JoinTree) → j.Legible → {state after : State} → {text : String} →
      sourceText s identity id j.source state = (.ok text, after) →
      ∃ o, outline s j state = (.ok o, after) ∧ o.Legible ∧ o.isJoin = j.source.isJoin ∧
        text.toList = o.chars
  | .table t, hj, state, after, text, h => by
    obtain ⟨rfl, rfl⟩ := pure_ok_iff.mp h
    exact ⟨_, rfl, ⟨Text.isWord_of_isIdentifier hj, by simp⟩, rfl, rfl⟩
  | .alias_ a, hj, state, after, text, h => by
    obtain ⟨rfl, rfl⟩ := pure_ok_iff.mp h
    have hname := Text.isWord_of_isIdentifier hj.2
    exact ⟨_, rfl, ⟨Text.isWord_of_isIdentifier hj.1, by simpa using hname⟩, rfl,
      by simp [Outline.chars]⟩
  | .join kind left right on, hj, state, after, text, h => by
    simp only [JoinTree.source, sourceText, bind_ok_iff] at h
    obtain ⟨l, _, hl, r, _, hr, texts, _, htexts, h⟩ := h
    obtain ⟨rfl, rfl⟩ := pure_ok_iff.mp h
    obtain ⟨lo, hlo, hllegible, -, hlchars⟩ := exists_outline hs left hj.1 hl
    obtain ⟨ro, hro, hrlegible, hrjoin, hrchars⟩ := exists_outline hs right hj.2.1 hr
    obtain ⟨on?, hon?, htext⟩ := exists_conjunctionText htexts
    refine ⟨.join kind lo ro on?, ?_, ⟨hllegible, hrlegible,
      exists_skeleton_of_conjunction hs hj.2.2 hon?⟩, rfl, ?_⟩
    · simp only [outline, bind_ok_iff, pure_ok_iff]
      exact ⟨lo, _, hlo, ro, _, hro, on?, _, hon?, rfl, rfl⟩
    · rw [Outline.chars, hrjoin, htext]
      split <;> simp [parenthesized, hlchars, hrchars]

end Render

end QueryTree
