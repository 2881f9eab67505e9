import QueryTree.Proofs.Render.Runs
import QueryTree.Proofs.Text.Words
import QueryTree.Proofs.Union.ReadBack

/-!
What the text of an expression shows of it: neither labels, nor keys, nor which columns are
correlated, and of a column no more than the name of its owner and its own.
-/

namespace QueryTree

/-- What is left of an expression in its text. -/
inductive Skeleton where
  | null
  | int (n : Int64)
  | text (s : String)
  | marker
  | star
  | column (owner name : String)
  | unary (op : UnaryOp) (operand : Skeleton)
  | binary (op : BinaryOp) (left right : Skeleton)
  | between (subject low high : Skeleton)
  | call (name : String) (args : List Skeleton)
  | list (items : List Skeleton)

namespace Skeleton

mutual

def chars : Skeleton → List Char
  | null => "NULL".toList
  | int n => (toString n.toInt).toList
  | text s => (Text.quoted s).toList
  | marker => ['?']
  | star => ['*']
  | column owner name => owner.toList ++ '.' :: name.toList
  | unary op operand =>
    if op.isPostfix then operand.chars ++ ' ' :: op.text.toList
    else '(' :: (op.text.toList ++ ' ' :: (operand.chars ++ [')']))
  | binary op left right =>
    '(' :: (left.chars ++ ' ' :: (op.text.toList ++ ' ' :: (right.chars ++ [')'])))
  | between subject low high =>
    '(' :: (subject.chars ++ ' ' :: ("BETWEEN".toList ++ ' ' :: (low.chars ++ ' ' ::
      ("AND".toList ++ ' ' :: (high.chars ++ [')'])))))
  | call name args => name.toList ++ '(' :: itemsChars args
  | list items => '(' :: itemsChars items

/-- Items with commas between them, and the parenthesis behind them. -/
def itemsChars : List Skeleton → List Char
  | [] => [')']
  | t :: rest => t.chars ++ moreChars rest

/-- Further items, each behind a comma. -/
def moreChars : List Skeleton → List Char
  | [] => [')']
  | t :: rest => ',' :: ' ' :: (t.chars ++ moreChars rest)

end

mutual

/-- Names are words, so that they can be told from what stands around them. -/
def Legible : Skeleton → Prop
  | null | int _ | text _ | marker | star => True
  | column owner name => Text.IsWord owner.toList ∧ Text.IsWord name.toList
  | unary _ operand => operand.Legible
  | binary _ left right => left.Legible ∧ right.Legible
  | between subject low high => subject.Legible ∧ low.Legible ∧ high.Legible
  | call name args => Text.IsWord name.toList ∧ AllLegible args
  | list items => AllLegible items

def AllLegible : List Skeleton → Prop
  | [] => True
  | t :: rest => t.Legible ∧ AllLegible rest

end

/-- Items are written with commas between them. -/
theorem toList_intercalate {texts : List String} {items : List Skeleton}
    (h : texts.map String.toList = items.map chars) :
    (", ".intercalate texts).toList ++ [')'] = itemsChars items := by
  induction texts generalizing items with
  | nil =>
    cases items with
    | nil => rfl
    | cons t items => cases h
  | cons text texts ih =>
    cases items with
    | nil => cases h
    | cons t items =>
      obtain ⟨htext, hrest⟩ := List.cons.inj h
      have hmore := ih hrest
      cases texts with
      | nil =>
        cases items with
        | nil => simp [itemsChars, moreChars, htext]
        | cons u items => cases hrest
      | cons next texts =>
        cases items with
        | nil => cases hrest
        | cons u items =>
          rw [itemsChars] at hmore
          rw [String.intercalate_cons_of_ne_nil (List.cons_ne_nil _ _), itemsChars, moreChars,
            ← hmore]
          simp [htext]

end Skeleton

mutual

/-- The skeleton of an expression of placeholders, stars, columns that do not stand for subqueries,
and the constants NULL, integers and texts, put together in any way. The names that are written have
to be identifiers. -/
def Expr.skeleton? : Expr → Option Skeleton
  | .value .null => some .null
  | .value (.int n) => some (.int n)
  | .value (.text s) => some (.text s)
  | .value _ => none
  | .param _ => some .marker
  | .star => some .star
  | .column c =>
    if !c.isUnfolded && Text.isIdentifier c.owner.name && Text.isIdentifier c.name then
      some (.column c.owner.name c.name)
    else none
  | .unary op operand => operand.skeleton?.map (.unary op)
  | .binary op left right => do
    return .binary op (← left.skeleton?) (← right.skeleton?)
  | .between subject low high => do
    return .between (← subject.skeleton?) (← low.skeleton?) (← high.skeleton?)
  | .call name args =>
    if Text.isIdentifier name then (skeletons? args).map (.call (Text.upper name)) else none
  | .list items => (skeletons? items).map .list
  | .labeled e _ => e.skeleton?
  | .subquery _ => none

def skeletons? : List Expr → Option (List Skeleton)
  | [] => some []
  | e :: rest => do
    return (← e.skeleton?) :: (← skeletons? rest)

end

mutual

theorem legible_of_skeleton? : (e : Expr) → {t : Skeleton} → e.skeleton? = some t → t.Legible
  | .value v, t, h => by
    cases v with
    | null | int _ | text _ =>
      cases h
      trivial
    | _ => cases h
  | .param _, t, h | .star, t, h => by
    cases h
    trivial
  | .column c, t, h => by
    rw [Expr.skeleton?] at h
    split at h
    next hplain =>
      cases h
      simp only [Bool.and_eq_true] at hplain
      exact ⟨Text.isWord_of_isIdentifier hplain.1.2, Text.isWord_of_isIdentifier hplain.2⟩
    next => cases h
  | .unary op operand, t, h => by
    obtain ⟨x, hx, rfl⟩ := Option.map_eq_some_iff.mp h
    have hoperand := legible_of_skeleton? operand hx
    exact hoperand
  | .binary op left right, t, h => by
    simp only [Expr.skeleton?, Option.bind_eq_bind, Option.bind_eq_some_iff, Option.pure_def,
      Option.some.injEq] at h
    obtain ⟨l, hl, r, hr, rfl⟩ := h
    exact ⟨legible_of_skeleton? left hl, legible_of_skeleton? right hr⟩
  | .between subject low high, t, h => by
    simp only [Expr.skeleton?, Option.bind_eq_bind, Option.bind_eq_some_iff, Option.pure_def,
      Option.some.injEq] at h
    obtain ⟨x, hx, lo, hlo, hi, hhi, rfl⟩ := h
    exact ⟨legible_of_skeleton? subject hx, legible_of_skeleton? low hlo,
      legible_of_skeleton? high hhi⟩
  | .call name args, t, h => by
    rw [Expr.skeleton?] at h
    split at h
    next hname =>
      obtain ⟨items, hitems, rfl⟩ := Option.map_eq_some_iff.mp h
      exact ⟨(Text.isWord_of_isIdentifier hname).upper, allLegible_of_skeletons? args hitems⟩
    next => cases h
  | .list items, t, h => by
    obtain ⟨ts, hts, rfl⟩ := Option.map_eq_some_iff.mp h
    exact allLegible_of_skeletons? items hts
  | .labeled e _, t, h => legible_of_skeleton? e h
  | .subquery _, t, h => by cases h

theorem allLegible_of_skeletons? : (es : List Expr) → {ts : List Skeleton} →
    skeletons? es = some ts → Skeleton.AllLegible ts
  | [], ts, h => by
    cases h
    trivial
  | e :: rest, ts, h => by
    simp only [skeletons?, Option.bind_eq_bind, Option.bind_eq_some_iff, Option.pure_def,
      Option.some.injEq] at h
    obtain ⟨t, ht, more, hmore, rfl⟩ := h
    exact ⟨legible_of_skeleton? e ht, allLegible_of_skeletons? rest hmore⟩

end

namespace Render

/-- Settings in which a column is written behind the name of its owner. -/
structure Setting.Qualifies (s : Setting) : Prop where
  bare : s.scopes.isBare = false
  oneTable : s.options.oneTable = false

theorem column_of_qualifies {s : Setting} (hs : s.Qualifies) {c : Column} {text : String}
    (h : s.column c = .ok text) : text = c.owner.name ++ "." ++ c.name := by
  simp only [Setting.column, hs.bare, hs.oneTable, Bool.false_eq_true, if_false] at h
  split at h
  · split at h
    · cases h
    · cases h
      rfl
  · cases h
    rfl

mutual

theorem chars_of_expr {s : Setting} (hs : s.Qualifies) : (e : Expr) → {t : Skeleton} →
    e.skeleton? = some t → {state after : State} → {text : String} →
    expr s e state = (.ok text, after) → text.toList = t.chars
  | .value v, t, ht, state, after, text, h => by
    obtain ⟨rfl, -⟩ := pure_ok_iff.mp h
    cases v with
    | null =>
      cases ht
      rfl
    | int n =>
      cases ht
      rfl
    | text s =>
      cases ht
      rfl
    | _ => cases ht
  | .param key, t, ht, state, after, text, h => by
    cases ht
    obtain ⟨_, -, rfl, -⟩ := placeholder_ok_iff.mp h
    rfl
  | .star, t, ht, state, after, text, h => by
    cases ht
    obtain ⟨rfl, -⟩ := pure_ok_iff.mp h
    rfl
  | .column ⟨owner, field, label, correlated⟩, t, ht, state, after, text, h => by
    rw [Expr.skeleton?] at ht
    split at ht
    next hplain =>
      cases ht
      simp only [Bool.and_eq_true, Bool.not_eq_true'] at hplain
      rw [expr, column_of_not_isUnfolded hplain.1.1] at h
      obtain ⟨hcolumn, -⟩ := lift_ok_iff.mp h
      simp [column_of_qualifies hs hcolumn, Skeleton.chars]
    next => cases ht
  | .unary op operand, t, ht, state, after, text, h => by
    obtain ⟨x, hx, rfl⟩ := Option.map_eq_some_iff.mp ht
    rw [expr, bind_ok_iff] at h
    obtain ⟨inner, between, hinner, h⟩ := h
    obtain ⟨rfl, -⟩ := pure_ok_iff.mp h
    have hchars := chars_of_expr hs operand hx hinner
    cases op <;> simp [Skeleton.chars, UnaryOp.isPostfix, parenthesized, hchars]
  | .binary op left right, t, ht, state, after, text, h => by
    simp only [Expr.skeleton?, Option.bind_eq_bind, Option.bind_eq_some_iff, Option.pure_def,
      Option.some.injEq] at ht
    obtain ⟨l, hl, r, hr, rfl⟩ := ht
    simp only [expr, bind_ok_iff] at h
    obtain ⟨ltext, _, hleft, rtext, _, hright, h⟩ := h
    obtain ⟨rfl, -⟩ := pure_ok_iff.mp h
    simp [Skeleton.chars, parenthesized, chars_of_expr hs left hl hleft,
      chars_of_expr hs right hr hright]
  | .between subject low high, t, ht, state, after, text, h => by
    simp only [Expr.skeleton?, Option.bind_eq_bind, Option.bind_eq_some_iff, Option.pure_def,
      Option.some.injEq] at ht
    obtain ⟨x, hx, lo, hlo, hi, hhi, rfl⟩ := ht
    simp only [expr, bind_ok_iff] at h
    obtain ⟨xtext, _, hsubject, lotext, _, hlow, hitext, _, hhigh, h⟩ := h
    obtain ⟨rfl, -⟩ := pure_ok_iff.mp h
    simp [Skeleton.chars, parenthesized, chars_of_expr hs subject hx hsubject,
      chars_of_expr hs low hlo hlow, chars_of_expr hs high hhi hhigh]
  | .call name args, t, ht, state, after, text, h => by
    rw [Expr.skeleton?] at ht
    split at ht
    next =>
      obtain ⟨items, hitems, rfl⟩ := Option.map_eq_some_iff.mp ht
      rw [expr, bind_ok_iff] at h
      obtain ⟨texts, _, htexts, h⟩ := h
      obtain ⟨rfl, -⟩ := pure_ok_iff.mp h
      have hchars := Skeleton.toList_intercalate (chars_of_exprs hs args hitems htexts)
      simp [Skeleton.chars, parenthesized, ← hchars]
    next => cases ht
  | .list items, t, ht, state, after, text, h => by
    obtain ⟨ts, hts, rfl⟩ := Option.map_eq_some_iff.mp ht
    rw [expr, bind_ok_iff] at h
    obtain ⟨texts, _, htexts, h⟩ := h
    obtain ⟨rfl, -⟩ := pure_ok_iff.mp h
    have hchars := Skeleton.toList_intercalate (chars_of_exprs hs items hts htexts)
    simp [Skeleton.chars, parenthesized, ← hchars]
  | .labeled e _, t, ht, state, after, text, h => chars_of_expr hs e ht h
  | .subquery _, t, ht, state, after, text, h => by cases ht

theorem chars_of_exprs {s : Setting} (hs : s.Qualifies) : (es : List Expr) → {ts : List Skeleton} →
    skeletons? es = some ts → {state after : State} → {texts : List String} →
    exprs s es state = (.ok texts, after) → texts.map String.toList = ts.map Skeleton.chars
  | [], ts, ht, state, after, texts, h => by
    cases ht
    obtain ⟨rfl, -⟩ := pure_ok_iff.mp h
    rfl
  | e :: rest, ts, ht, state, after, texts, h => by
    simp only [skeletons?, Option.bind_eq_bind, Option.bind_eq_some_iff, Option.pure_def,
      Option.some.injEq] at ht
    obtain ⟨t, he, more, hmore, rfl⟩ := ht
    simp only [exprs, bind_ok_iff] at h
    obtain ⟨text, _, htext, others, _, hothers, h⟩ := h
    obtain ⟨rfl, -⟩ := pure_ok_iff.mp h
    simp [chars_of_expr hs e he htext, chars_of_exprs hs rest hmore hothers]

end

end Render

end QueryTree
