import QueryTree.Proofs.Render.Runs

/-!
Predicates joined by AND. The text shows how they are nested, and behind ON it is that of their
conjunction.
-/

namespace QueryTree.Render

/-- Two texts joined by AND. -/
def joinedText (l r : String) : String :=
  parenthesized (l ++ " AND " ++ r)

theorem cons_opening_append_ne (x y z : List Char) : '(' :: (x ++ y) ≠ x ++ ' ' :: z := by
  induction x with
  | nil => simp
  | cons c x ih =>
    intro h
    obtain ⟨rfl, h⟩ := List.cons.inj h
    exact ih h

/-- However long the texts are and whatever they hold, how they are nested can be told. -/
theorem joinedText_ne (p a b : String) :
    joinedText (joinedText p a) b ≠ joinedText p (joinedText a b) := by
  intro h
  have hchars := congrArg String.toList h
  simp only [joinedText, parenthesized, String.toList_append, List.append_assoc] at hchars
  have hrest := (List.cons.inj hchars).2
  exact cons_opening_append_ne p.toList _ _ hrest

theorem expr_and (s : Setting) (l r : Expr) : expr s (.binary .and l r) = (do
    let l ← expr s l
    let r ← expr s r
    return joinedText l r) := by
  have hand : ∀ l r : String, l ++ " " ++ BinaryOp.and.text ++ " " ++ r = l ++ " AND " ++ r := by
    intro l r
    simp only [String.append_assoc]
    rfl
  simp only [expr, hand, joinedText]

/-- The text of predicates that are joined one after the other. -/
theorem expr_foldl_and (s : Setting) (first : Expr) (rest : List Expr) :
    expr s (rest.foldl (.binary .and) first) = (do
      let text ← expr s first
      let texts ← exprs s rest
      return texts.foldl joinedText text) := by
  induction rest generalizing first with
  | nil => simp [exprs]
  | cons e rest ih =>
    rw [List.foldl_cons, ih, expr_and]
    simp [exprs]

/-- The text of the predicates joined by AND, if there are any. -/
def conjunctionText? (s : Setting) (predicates : List Expr) : Writer (Option String) :=
  match Expr.conjunction? predicates with
  | none => pure none
  | some e => some <$> expr s e

/-- Behind ON stands the conjunction of the predicates. -/
theorem onText_exprs (s : Setting) (on : List Expr) :
    onText <$> exprs s on = (fun text => onText text.toList) <$> conjunctionText? s on := by
  cases on with
  | nil => simp [exprs, conjunctionText?, Expr.conjunction?]
  | cons first rest =>
    have htext : ∀ text texts, onText (text :: texts) = " ON " ++ texts.foldl joinedText text :=
      fun _ _ => rfl
    simp [exprs, conjunctionText?, Expr.conjunction?, expr_foldl_and, htext]

section
variable {s : Setting} {on : List Expr} {state after : State}

theorem exists_conjunctionText {texts : List String} (h : exprs s on state = (.ok texts, after)) :
    ∃ text?, conjunctionText? s on state = (.ok text?, after) ∧
      onText text?.toList = onText texts := by
  have hrun : (onText <$> exprs s on) state = (.ok (onText texts), after) := by
    rw [map_eq_pure_bind, bind_ok_iff]
    exact ⟨texts, after, h, rfl⟩
  rw [onText_exprs, map_eq_pure_bind, bind_ok_iff] at hrun
  obtain ⟨text?, between, htext?, hpure⟩ := hrun
  obtain ⟨htext, rfl⟩ := pure_ok_iff.mp hpure
  exact ⟨text?, htext?, htext⟩

theorem exists_conjunction_of_mem {text? : Option String}
    (h : conjunctionText? s on state = (.ok text?, after)) {text : String} (htext : text ∈ text?) :
    ∃ e ∈ Expr.conjunction? on, expr s e state = (.ok text, after) := by
  unfold conjunctionText? at h
  cases hon : Expr.conjunction? on with
  | none =>
    rw [hon] at h
    obtain ⟨rfl, -⟩ := pure_ok_iff.mp h
    cases htext
  | some e =>
    simp only [hon, map_eq_pure_bind, bind_ok_iff] at h
    obtain ⟨written, between, hwritten, hpure⟩ := h
    obtain ⟨rfl, rfl⟩ := pure_ok_iff.mp hpure
    obtain rfl := Option.some.inj htext
    exact ⟨e, rfl, hwritten⟩

end

end QueryTree.Render
