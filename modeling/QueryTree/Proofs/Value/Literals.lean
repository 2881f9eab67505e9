import QueryTree.Proofs.Text.Quotation
import QueryTree.Value.Basic

/-! What characters the literal of a constant is made of. -/

namespace QueryTree

namespace Text

theorem mem_intercalate {c : Char} {between : String} {texts : List String}
    (h : c ∈ (between.intercalate texts).toList) :
    c ∈ between.toList ∨ ∃ text ∈ texts, c ∈ text.toList := by
  induction texts with
  | nil => simp at h
  | cons text texts ih =>
    cases texts with
    | nil => exact Or.inr ⟨text, by simp, by simpa using h⟩
    | cons next rest =>
      rw [String.intercalate_cons_of_ne_nil (by simp), String.toList_append, String.toList_append,
        List.mem_append, List.mem_append] at h
      rcases h with (htext | hbetween) | hrest
      · exact Or.inr ⟨text, by simp, htext⟩
      · exact Or.inl hbetween
      · rcases ih hrest with hbetween | ⟨other, hother, hc⟩
        · exact Or.inl hbetween
        · exact Or.inr ⟨other, List.mem_cons_of_mem _ hother, hc⟩

theorem mem_doubleQuotes {c : Char} {cs : List Char} (h : c ∈ doubleQuotes cs) : c ∈ cs := by
  induction cs with
  | nil => exact h
  | cons d ds ih =>
    unfold doubleQuotes at h
    split at h
    next hquote =>
      subst hquote
      rcases List.mem_cons.mp h with rfl | h
      · exact List.mem_cons_self
      · rcases List.mem_cons.mp h with rfl | h
        · exact List.mem_cons_self
        · exact List.mem_cons_of_mem _ (ih h)
    next =>
      rcases List.mem_cons.mp h with rfl | h
      · exact List.mem_cons_self
      · exact List.mem_cons_of_mem _ (ih h)

theorem mem_quoted {c : Char} {text : String} (h : c ∈ (quoted text).toList) :
    c = '\'' ∨ c ∈ text.toList := by
  simp only [quoted, String.toList_append, String.toList_ofList, List.mem_append] at h
  rcases h with (hopen | hinner) | hclose
  · exact Or.inl (List.mem_singleton.mp hopen)
  · exact Or.inr (mem_doubleQuotes hinner)
  · exact Or.inl (List.mem_singleton.mp hclose)

end Text

namespace Value

mutual

/-- The texts in a constant, those inside of lists too. -/
def texts : Value → List String
  | .text s => [s]
  | .list items => itemTexts items
  | _ => []

def itemTexts : List Value → List String
  | [] => []
  | item :: rest => texts item ++ itemTexts rest

end

/-- The characters that a literal has besides those of its texts. -/
def isLiteralMark (c : Char) : Bool :=
  Text.isFigure c || ['\'', '(', ',', ')'].contains c

theorem isLiteralMark_of_figures {text : String} (h : Text.Figures text) {c : Char}
    (hc : c ∈ text.toList) : isLiteralMark c = true := by
  simp [isLiteralMark, h c hc]

theorem isLiteralMark_of_quoted {text : String} (h : Text.Figures text) {c : Char}
    (hc : c ∈ ("'" ++ text ++ "'").toList) : isLiteralMark c = true := by
  rw [← h.quoted_eq] at hc
  rcases Text.mem_quoted hc with rfl | hc
  · decide
  · exact isLiteralMark_of_figures h hc

theorem figures_float (x : Float) : Text.Figures ((floatLayout.text? x).getD "NULL") := by
  cases hx : floatLayout.text? x with
  | none => decide
  | some text => exact Decimal.Layout.figures_text hx

/-- The literal of a constant that is no text and holds none. -/
theorem isLiteralMark_of_literal {c : Char} {v : Value} (htext : ∀ s, v ≠ .text s)
    (hlist : ∀ items, v ≠ .list items) (h : c ∈ v.literal.toList) : isLiteralMark c = true := by
  cases v with
  | null =>
    rw [literal] at h
    exact isLiteralMark_of_figures (by decide) h
  | bool b =>
    rw [literal] at h
    have hfigures : Text.Figures (if b then "1" else "0") := by cases b <;> decide
    exact isLiteralMark_of_figures hfigures h
  | int n =>
    rw [literal] at h
    exact isLiteralMark_of_figures (Text.figures_int _) h
  | float x =>
    rw [literal] at h
    exact isLiteralMark_of_figures (figures_float x) h
  | text s => exact absurd rfl (htext s)
  | date d =>
    rw [literal] at h
    exact isLiteralMark_of_quoted d.figures_text h
  | dateTime t =>
    rw [literal] at h
    exact isLiteralMark_of_quoted t.figures_text h
  | time t =>
    rw [literal] at h
    exact isLiteralMark_of_quoted t.figures_text h
  | uuid u =>
    rw [literal] at h
    exact isLiteralMark_of_quoted u.figures_text h
  | list items => exact absurd rfl (hlist items)

mutual

theorem mem_literal {c : Char} : (v : Value) → c ∈ v.literal.toList →
    isLiteralMark c = true ∨ ∃ text ∈ v.texts, c ∈ text.toList
  | .text s => by
    intro h
    rw [literal] at h
    rcases Text.mem_quoted h with rfl | hc
    · exact Or.inl (by decide)
    · exact Or.inr ⟨s, by simp [texts], hc⟩
  | .list items => by
    intro h
    simp only [literal, String.toList_append, List.mem_append] at h
    rcases h with (hopen | hinner) | hclose
    · rw [List.mem_singleton.mp hopen]
      exact Or.inl (by decide)
    · rcases Text.mem_intercalate hinner with hbetween | ⟨text, htext, hc⟩
      · have hall : ", ".toList.all isLiteralMark = true := by decide
        exact Or.inl (List.all_eq_true.mp hall c hbetween)
      · exact mem_literals items text htext hc
    · rw [List.mem_singleton.mp hclose]
      exact Or.inl (by decide)
  | .null | .bool _ | .int _ | .float _ | .date _ | .dateTime _ | .time _ | .uuid _ =>
    fun h => Or.inl (isLiteralMark_of_literal (by simp) (by simp) h)

theorem mem_literals {c : Char} : (items : List Value) → (literal : String) →
    literal ∈ literals items → c ∈ literal.toList →
    isLiteralMark c = true ∨ ∃ text ∈ itemTexts items, c ∈ text.toList
  | [] => by simp [literals]
  | item :: rest => by
    intro literal h hc
    simp only [literals, List.mem_cons] at h
    rcases h with rfl | h
    · rcases mem_literal item hc with hmark | ⟨text, htext, hc⟩
      · exact Or.inl hmark
      · exact Or.inr ⟨text, List.mem_append_left _ htext, hc⟩
    · rcases mem_literals rest literal h hc with hmark | ⟨text, htext, hc⟩
      · exact Or.inl hmark
      · exact Or.inr ⟨text, List.mem_append_right _ htext, hc⟩

end

end Value

end QueryTree
