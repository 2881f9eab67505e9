import QueryTree.Proofs.Text.Quotation
import QueryTree.Proofs.Value.Literals

/-! The texts that the literal of a constant quotes are those that a scan finds in it. -/

namespace QueryTree.Value

open Text

mutual

/-- What the literal of a constant quotes, the items of lists in their order. -/
def quotations : Value → List String
  | .text s => [s]
  | .date d => [d.text]
  | .dateTime t => [t.text]
  | .time t => [t.text]
  | .uuid u => [u.text]
  | .list items => itemQuotations items
  | .null | .bool _ | .int _ | .float _ => []

def itemQuotations : List Value → List String
  | [] => []
  | item :: rest => quotations item ++ itemQuotations rest

end

mutual

/-- A literal is scanned to its end, and nothing but its quotations is found in it. -/
theorem run_literal (found : List String) : (v : Value) →
    ((Scan.outside found).run v.literal.toList).literals? = some (found ++ v.quotations)
  | .null => by
    rw [literal, Scan.run_of_not_mem (by decide)]
    simp [quotations, Scan.literals?]
  | .bool b => by
    rw [literal, Scan.run_of_not_mem (by cases b <;> decide)]
    simp [quotations, Scan.literals?]
  | .int n => by
    rw [literal, Scan.run_of_not_mem (figures_int _).not_mem_quote]
    simp [quotations, Scan.literals?]
  | .float x => by
    rw [literal, Scan.run_of_not_mem (figures_float x).not_mem_quote]
    simp [quotations, Scan.literals?]
  | .text s => by rw [literal, Scan.run_quoted, quotations, Scan.literals?]
  | .date d => by rw [literal, Scan.run_figures _ d.figures_text, quotations, Scan.literals?]
  | .dateTime t => by rw [literal, Scan.run_figures _ t.figures_text, quotations, Scan.literals?]
  | .time t => by rw [literal, Scan.run_figures _ t.figures_text, quotations, Scan.literals?]
  | .uuid u => by rw [literal, Scan.run_figures _ u.figures_text, quotations, Scan.literals?]
  | .list items => by
    have hitems := run_literals found items
    rw [literal, String.toList_append, String.toList_append, Scan.run_append, Scan.run_append,
      Scan.run_of_not_mem (by decide), Scan.run_of_literals? hitems (by decide) (by decide),
      quotations, Scan.literals?]

theorem run_literals (found : List String) : (items : List Value) →
    ((Scan.outside found).run (", ".intercalate (literals items)).toList).literals? =
      some (found ++ itemQuotations items)
  | [] => by simp [literals, itemQuotations, Scan.literals?]
  | [item] => by simpa [literals, itemQuotations] using run_literal found item
  | item :: next :: rest => by
    have hitem := run_literal found item
    have hrest := run_literals (found ++ item.quotations) (next :: rest)
    rw [literals, String.intercalate_cons_of_ne_nil (by simp [literals]), String.toList_append,
      String.toList_append, Scan.run_append, Scan.run_append,
      Scan.run_of_literals? hitem (by decide) (by decide), hrest]
    simp [itemQuotations]

end

end QueryTree.Value
