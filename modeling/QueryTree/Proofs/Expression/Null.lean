import QueryTree.Proofs.Builder
import QueryTree.Proofs.Render.Labels
import QueryTree.Proofs.Text.Words

/-!
What is written as NULL, and how a comparison with it is written. The operator is chosen by the
tree of the right operand, where only the bare constant counts as NULL; the text comes from the
whole of it.
-/

namespace QueryTree

/-- Any sign besides its letters tells a text from NULL. -/
theorem Text.ne_null_of_mem {text : String} {c : Char} (hfree : c ∉ "NULL".toList)
    (hmem : c ∈ text.toList) : text ≠ "NULL" := by
  rintro rfl
  exact hfree hmem

theorem Text.quoted_ne_null (text : String) : "'" ++ text ++ "'" ≠ "NULL" :=
  ne_null_of_mem (c := '\'') (by decide) (by simp)

theorem Text.int_ne_null (n : Int) : toString n ≠ "NULL" := by
  intro h
  have hletter : 'N' ∈ (toString n).toList := by simp [h]
  rw [toList_int, List.mem_append] at hletter
  rcases hletter with hsign | hdigit
  · split at hsign <;> simp at hsign
  · exact absurd (isDigit_of_mem_nat hdigit) (by decide)

namespace Decimal

theorem point_mem_withPoint (digits : String) (places : Int) :
    '.' ∈ (withPoint digits places).toList := by
  unfold withPoint
  split
  · simp
  · simp only
    split <;> simp

/-- A number has a point or an exponent. -/
theorem Layout.text_ne_null {layout : Layout} {x : Float} {text : String}
    (h : layout.text? x = some text) : text ≠ "NULL" := by
  obtain ⟨b, -, rfl⟩ := Option.map_eq_some_iff.mp h
  have hmagnitude : ∃ c, c ∉ "NULL".toList ∧ c ∈
      (if b.significand = 0 then "0.0" else layout.magnitude (b.shortest layout.tie)).toList := by
    split
    · exact ⟨'.', by decide, by decide⟩
    · unfold magnitude
      simp only
      split
      · exact ⟨'.', by decide, point_mem_withPoint _ _⟩
      · exact ⟨'e', by decide, by simp⟩
  obtain ⟨c, hfree, hmem⟩ := hmagnitude
  exact Text.ne_null_of_mem hfree (by
    rw [String.toList_append]
    exact List.mem_append_right _ hmem)

end Decimal

namespace Value

/-- The constants without a literal of their own: NULL, the infinities and what is no number. -/
def isVoid : Value → Bool
  | .null => true
  | .float x => (Decimal.Binary.ofFloat? x).isNone
  | _ => false

theorem literal_eq_null_iff (v : Value) : v.literal = "NULL" ↔ v.isVoid = true := by
  cases v with
  | null => simp [literal, isVoid]
  | bool b => cases b <;> simp [literal, isVoid]
  | int n => simpa [literal, isVoid] using Text.int_ne_null n.toInt
  | float x =>
    cases hx : Decimal.Binary.ofFloat? x with
    | none => simp [literal, isVoid, Decimal.Layout.text?, hx]
    | some b =>
      obtain ⟨text, htext⟩ : ∃ text, floatLayout.text? x = some text := by
        rw [Decimal.Layout.text?, hx]
        exact ⟨_, rfl⟩
      have hne := Decimal.Layout.text_ne_null htext
      simpa [literal, isVoid, htext, hx] using hne
  | text s => simp [literal, isVoid, Text.quoted, Text.quoted_ne_null]
  | date d => simp [literal, isVoid, Text.quoted_ne_null]
  | dateTime t => simp [literal, isVoid, Text.quoted_ne_null]
  | time t => simp [literal, isVoid, Text.quoted_ne_null]
  | uuid u => simp [literal, isVoid, Text.quoted_ne_null]
  | list items =>
    have hne : literal (.list items) ≠ "NULL" :=
      Text.ne_null_of_mem (c := '(') (by decide) (by simp [literal])
    simp [isVoid, hne]

end Value

theorem Expr.isNull_iff {e : Expr} : e.isNull = true ↔ e = .value .null := by
  cases e with
  | value v => cases v <;> simp [isNull]
  | _ => simp [isNull]

namespace Render

variable {s : Setting} {state last : State}

/-- The expressions that are written as NULL: the constants without a literal of their own, a column
whose name it is, where that is written without an owner, and all of these under a label. -/
inductive WrittenNull (s : Setting) : Expr → Prop
  | constant {v : Value} (h : v.isVoid = true) : WrittenNull s (.value v)
  | output {c : Column} (hc : c.isUnfolded = false) (hbare : s.scopes.isBare = true)
      (hname : c.projectionName = "NULL") : WrittenNull s (.column c)
  | field {c : Column} (hc : c.isUnfolded = false) (hbare : s.scopes.isBare = false)
      (hcorrelated : c.correlated = false) (hone : s.options.oneTable = true)
      (hname : c.name = "NULL") : WrittenNull s (.column c)
  | labeled {e : Expr} {label : String} (h : WrittenNull s e) : WrittenNull s (.labeled e label)

theorem WrittenNull.expr_eq {e : Expr} (h : WrittenNull s e) : expr s e = pure "NULL" := by
  induction h with
  | constant h => rw [expr, (Value.literal_eq_null_iff _).mpr h]
  | output hc hbare hname =>
    rw [expr_column_of_not_isUnfolded hc, Setting.column, if_pos hbare, hname]
    rfl
  | field hc hbare hcorrelated hone hname =>
    rw [expr_column_of_not_isUnfolded hc]
    simp only [Setting.column, hbare, hcorrelated, hone, hname]
    rfl
  | labeled h ih => rw [expr, ih]

theorem parenthesized_ne_null (text : String) : parenthesized text ≠ "NULL" :=
  Text.ne_null_of_mem (c := '(') (by decide) (by simp [parenthesized])

theorem qualified_ne_null (owner name : String) : owner ++ "." ++ name ≠ "NULL" :=
  Text.ne_null_of_mem (c := '.') (by decide) (by simp)

/-- A piece of SQL that is never the text NULL. -/
def NeverNull (piece : Writer String) : Prop :=
  ∀ state last, piece state ≠ (.ok "NULL", last)

namespace NeverNull

theorem pure {text : String} (h : text ≠ "NULL") : NeverNull (pure text) :=
  fun _ _ hrun => h (pure_ok_iff.mp hrun).1

theorem bind {α : Type} {x : Writer α} {f : α → Writer String} (h : ∀ a, NeverNull (f a)) :
    NeverNull (x >>= f) := by
  intro state last hrun
  obtain ⟨a, between, -, hf⟩ := bind_ok_iff.mp hrun
  exact h a between last hf

theorem placeholder (s : Setting) (key : String) : NeverNull (s.placeholder key) := by
  intro state last hrun
  obtain ⟨_, _, hmarker, _⟩ := placeholder_ok_iff.mp hrun
  exact absurd hmarker (by decide)

end NeverNull

theorem writtenNull_column {c : Column} (h : expr s (.column c) state = (.ok "NULL", last)) :
    WrittenNull s (.column c) := by
  cases hc : c.isUnfolded with
  | true =>
    obtain ⟨owner, field, label, correlated⟩ := c
    obtain ⟨⟨name, q⟩, source, rfl⟩ := Column.isUnfolded_iff.mp hc
    rw [expr, column] at h
    exact absurd h (NeverNull.bind (fun text => .pure (parenthesized_ne_null text)) _ _)
  | false =>
    rw [expr_column_of_not_isUnfolded hc] at h
    obtain ⟨hcolumn, -⟩ := lift_ok_iff.mp h
    unfold Setting.column at hcolumn
    simp only at hcolumn
    split at hcolumn
    next hbare => exact .output hc hbare (Except.ok.inj hcolumn)
    next hbare =>
      split at hcolumn
      next hcorrelated =>
        split at hcolumn
        · cases hcolumn
        · exact absurd (Except.ok.inj hcolumn) (qualified_ne_null _ _)
      next hcorrelated =>
        split at hcolumn
        next hone =>
          exact .field hc (Bool.eq_false_iff.mpr hbare) (Bool.eq_false_iff.mpr hcorrelated) hone
            (Except.ok.inj hcolumn)
        next => exact absurd (Except.ok.inj hcolumn) (qualified_ne_null _ _)

theorem neverNull_unary (op : UnaryOp) (operand : Expr) :
    NeverNull (expr s (.unary op operand)) := by
  rw [expr]
  refine .bind fun inner => .pure ?_
  split
  · exact Text.ne_null_of_mem (c := ' ') (by decide) (by simp)
  · exact parenthesized_ne_null _

theorem neverNull_call (name : String) (args : List Expr) :
    NeverNull (expr s (.call name args)) := by
  rw [expr]
  exact .bind fun texts =>
    .pure (Text.ne_null_of_mem (c := '(') (by decide) (by simp [parenthesized]))

/-- All other forms have a sign besides letters. -/
theorem writtenNull_of_expr : (e : Expr) → expr s e state = (.ok "NULL", last) → WrittenNull s e
  | .value v, h => by
    rw [expr] at h
    exact .constant ((Value.literal_eq_null_iff v).mp (pure_ok_iff.mp h).1)
  | .column c, h => writtenNull_column h
  | .labeled e label, h => by
    rw [expr] at h
    exact .labeled (writtenNull_of_expr e h)
  | .param key, h => by
    rw [expr] at h
    exact absurd h (NeverNull.placeholder s key _ _)
  | .star, h => by
    rw [expr] at h
    exact absurd h (NeverNull.pure (by decide) _ _)
  | .unary op operand, h => absurd h (neverNull_unary op operand _ _)
  | .binary op left right, h => by
    rw [expr] at h
    exact absurd h
      (NeverNull.bind (fun _ => .bind fun _ => .pure (parenthesized_ne_null _)) _ _)
  | .between subject low high, h => by
    rw [expr] at h
    exact absurd h
      (NeverNull.bind (fun _ => .bind fun _ => .bind fun _ => .pure (parenthesized_ne_null _)) _ _)
  | .call name args, h => absurd h (neverNull_call name args _ _)
  | .list items, h => by
    rw [expr] at h
    exact absurd h (NeverNull.bind (fun _ => .pure (parenthesized_ne_null _)) _ _)
  | .subquery ⟨name, q⟩, h => by
    rw [expr] at h
    exact absurd h (NeverNull.bind (fun _ => .pure (parenthesized_ne_null _)) _ _)

/-- A text compared with NULL. -/
def nullComparison (operator text : String) : String :=
  parenthesized (text ++ " " ++ operator ++ " NULL")

theorem expr_binary_null {b : Expr} (hb : WrittenNull s b) (op : BinaryOp) (a : Expr) :
    expr s (.binary op a b) = nullComparison op.text <$> expr s a := by
  have htext : nullComparison op.text =
      fun l => parenthesized (l ++ " " ++ op.text ++ " " ++ "NULL") := by
    funext l
    simp only [nullComparison, String.append_assoc]
    rfl
  simp only [expr, hb.expr_eq, htext, pure_bind, map_eq_pure_bind]

/-- The expressions that are written as NULL are these, and one alone of them is compared by IS: the
constant itself. The others, constants too, are compared by an operator that is never true of
NULL. -/
theorem null_comparison (s : Setting) (a b : Expr) :
    ((∃ state last, expr s b state = (.ok "NULL", last)) ↔ WrittenNull s b) ∧
      (WrittenNull s b →
        (b = .value .null →
          expr s (a.equals b) = nullComparison "IS" <$> expr s a ∧
            expr s (a.differs b) = nullComparison "IS NOT" <$> expr s a) ∧
        (b ≠ .value .null →
          expr s (a.equals b) = nullComparison "=" <$> expr s a ∧
            expr s (a.differs b) = nullComparison "<>" <$> expr s a)) := by
  refine ⟨⟨fun ⟨_, _, h⟩ => writtenNull_of_expr b h, fun h => ⟨⟨[], {}⟩, ⟨[], {}⟩, ?_⟩⟩,
    fun hb => ⟨?_, fun hother => ?_⟩⟩
  · rw [h.expr_eq]
    rfl
  · rintro rfl
    exact ⟨expr_binary_null hb .is a, expr_binary_null hb .isNot a⟩
  · have hnull : b.isNull = false :=
      Bool.eq_false_iff.mpr fun h => hother (Expr.isNull_iff.mp h)
    simp only [Expr.equals, Expr.differs, hnull]
    exact ⟨expr_binary_null hb .eq a, expr_binary_null hb .ne a⟩

/-- Under a label NULL is no longer told from other constants. -/
theorem null_comparison_labeled :
    let s : Setting := ⟨.empty, {}, []⟩
    let null : Expr := .labeled (.value .null) "none"
    WrittenNull s null ∧ null ≠ .value .null ∧
      expr s ((bookColumn "year").equals null) ⟨[], {}⟩ =
        (.ok "(Books.year = NULL)", ⟨[], {}⟩) ∧
      expr s ((bookColumn "year").differs null) ⟨[], {}⟩ =
        (.ok "(Books.year <> NULL)", ⟨[], {}⟩) := by
  intro s null
  have hwritten : WrittenNull s null := .labeled (.constant rfl)
  have hne : null ≠ .value .null := by simp [null]
  obtain ⟨hequals, hdiffers⟩ := ((null_comparison s (bookColumn "year") null).2 hwritten).2 hne
  refine ⟨hwritten, hne, ?_, ?_⟩
  · rw [hequals]
    rfl
  · rw [hdiffers]
    rfl

end Render

end QueryTree
