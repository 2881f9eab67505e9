import QueryTree.Calendar.Time
import QueryTree.Decimal.Layout
import QueryTree.Uuid

/-! The characters of numbers, days, times and identifiers. None of them ends a literal, a marker or
a line. -/

namespace QueryTree.Text

def isFigure (c : Char) : Bool :=
  c.isAlphanum || ['+', '-', '.', ':', ' '].contains c

def Figures (text : String) : Prop :=
  ∀ c ∈ text.toList, isFigure c = true

instance (text : String) : Decidable (Figures text) :=
  decidable_of_iff (text.toList.all isFigure = true) List.all_eq_true

theorem isFigure_of_isDigit {c : Char} (h : c.isDigit = true) : isFigure c = true := by
  simp [isFigure, Char.isAlphanum, h]

theorem Figures.ofList {cs : List Char} (h : ∀ c ∈ cs, isFigure c = true) :
    Figures (String.ofList cs) := by
  simpa [Figures] using h

theorem Figures.append {a b : String} (ha : Figures a) (hb : Figures b) : Figures (a ++ b) := by
  intro c hc
  rw [String.toList_append, List.mem_append] at hc
  exact hc.elim (ha c) (hb c)

theorem figures_zeros (n : Nat) : Figures (String.ofList (List.replicate n '0')) := by
  apply Figures.ofList
  intro c hc
  rw [List.eq_of_mem_replicate hc]
  decide

theorem figures_nat (n : Nat) : Figures (toString n) := by
  intro c hc
  rw [Nat.toString_eq_repr, Nat.toList_repr] at hc
  exact isFigure_of_isDigit (Nat.isDigit_of_mem_toDigits (by decide) (by decide) hc)

theorem figures_int (n : Int) : Figures (toString n) := by
  rw [Int.toString_eq_repr, Int.repr_eq_if]
  split
  · exact figures_nat _
  · exact Figures.append (by decide) (figures_nat _)

theorem figures_padded (width n : Nat) : Figures (padded width n) :=
  (figures_zeros _).append (figures_nat n)

theorem isFigure_hexDigit {n : Nat} (h : n < 16) : isFigure (hexDigit n) = true := by
  have hall : ∀ n : Fin 16, isFigure (hexDigit n) = true := by decide
  exact hall ⟨n, h⟩

theorem isFigure_of_mem_hex {width n : Nat} {c : Char} (hc : c ∈ hex width n) :
    isFigure c = true := by
  obtain ⟨place, -, rfl⟩ := List.mem_map.mp hc
  exact isFigure_hexDigit (Nat.mod_lt _ (by decide))

end QueryTree.Text

namespace QueryTree

open Text

theorem Calendar.Date.figures_text (d : Calendar.Date) : Figures d.text := by
  have hyear : Figures (Calendar.yearText d.year) := by
    unfold Calendar.yearText
    split
    · exact figures_padded _ _
    · apply Figures.append _ (figures_padded _ _)
      split <;> decide
  exact (((hyear.append (by decide)).append (figures_padded _ _)).append (by decide)).append
    (figures_padded _ _)

theorem Calendar.TimeOfDay.figures_text (t : Calendar.TimeOfDay) : Figures t.text :=
  ((((figures_padded _ _).append (by decide)).append (figures_padded _ _)).append
    (by decide)).append (figures_padded _ _)

theorem Calendar.DateTime.figures_text (t : Calendar.DateTime) : Figures t.text :=
  (t.date.figures_text.append (by decide)).append t.time.figures_text

theorem Uuid.figures_text (u : Uuid) : Figures u.text := by
  have hgroup (start count : Nat) : Figures (String.ofList
      (((hex 32 u.bits.toNat).drop start).take count)) := by
    apply Figures.ofList
    intro c hc
    exact isFigure_of_mem_hex (List.mem_of_mem_drop (List.mem_of_mem_take hc))
  have hhyphen : Figures "-" := by decide
  exact ((((((((hgroup 0 8).append hhyphen).append (hgroup 8 4)).append hhyphen).append
    (hgroup 12 4)).append hhyphen).append (hgroup 16 4)).append hhyphen).append (hgroup 20 12)

namespace Decimal

theorem figures_take {text : String} (h : Figures text) (n : Nat) :
    Figures (String.ofList (text.toList.take n)) :=
  Figures.ofList fun c hc => h c (List.mem_of_mem_take hc)

theorem figures_drop {text : String} (h : Figures text) (n : Nat) :
    Figures (String.ofList (text.toList.drop n)) :=
  Figures.ofList fun c hc => h c (List.mem_of_mem_drop hc)

theorem figures_withPoint {digits : String} (h : Figures digits) (places : Int) :
    Figures (withPoint digits places) := by
  unfold withPoint
  split
  · exact (Figures.append (by decide) (figures_zeros _)).append h
  · simp only
    split
    · exact (h.append (figures_zeros _)).append (by decide)
    · exact ((figures_take h _).append (by decide)).append (figures_drop h _)

theorem Layout.figures_magnitude (layout : Layout) (d : Decimal) :
    Figures (layout.magnitude d) := by
  have hdigits := figures_nat d.digits
  unfold Layout.magnitude
  simp only
  split
  · exact figures_withPoint hdigits _
  · refine Figures.append (Figures.append (Figures.append (Figures.append
      (figures_take hdigits 1) ?_) (by decide)) ?_) (figures_nat _)
    · split
      · decide
      · exact Figures.append (by decide) (figures_drop hdigits 1)
    · split
      · decide
      · split <;> decide

theorem Layout.figures_text {layout : Layout} {x : Float} {text : String}
    (h : layout.text? x = some text) : Figures text := by
  obtain ⟨b, -, rfl⟩ := Option.map_eq_some_iff.mp h
  apply Figures.append
  · split <;> decide
  · split
    · decide
    · exact layout.figures_magnitude _

end Decimal

end QueryTree
