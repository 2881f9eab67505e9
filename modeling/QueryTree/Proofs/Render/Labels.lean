import QueryTree.Proofs.Render.Levels
import QueryTree.Proofs.Union.References

/-!
A new label for a column of a SELECT list. Where columns are qualified, the label stands behind the
text of the column. Where they are bare, it is the text: there the label is also the name to read.
-/

namespace QueryTree

namespace Query

variable {q : Query} {c : Column} {before after : List Expr}

/-- The query with another label for a column of its SELECT list. -/
def relabeled (q : Query) (before after : List Expr) (c : Column) (label : String) : Query :=
  q.withItems .select (before ++ .column (c.aliased label) :: after)

/-- The checks ask for the owner and the name of a column, not for its label. -/
theorem Valid.relabeled (h : q.Valid) (hselect : q.selectList = before ++ .column c :: after)
    (label : String) : (q.relabeled before after c label).Valid := by
  have hmem : ∀ others, c ∈ references (q.selectList ++ others) := by
    intro others
    simp [hselect, references_append, references, Expr.references]
  have hsame : ∀ others, ∀ d ∈ references ((q.relabeled before after c label).selectList ++ others),
      d ∈ references (q.selectList ++ others) ∨ d = c.aliased label := by
    intro others d hd
    have hlist : (q.relabeled before after c label).selectList =
        before ++ .column (c.aliased label) :: after := rfl
    simp only [hselect, hlist, references_append, references, Expr.references, List.mem_append,
      List.mem_singleton] at hd ⊢
    rcases hd with (hd | rfl | hd) | hd
    · exact Or.inl (Or.inl (Or.inl hd))
    · exact Or.inr rfl
    · exact Or.inl (Or.inl (Or.inr (Or.inr hd)))
    · exact Or.inl (Or.inr hd)
  obtain ⟨hdistinct, hreached, hexposed⟩ := h
  refine ⟨hdistinct, ?_, ?_⟩
  · intro d hd hlocal
    rcases hsame _ d hd with hd | rfl
    · exact hreached d hd hlocal
    · exact hreached c (hmem _) hlocal
  · intro hfed d hd hlocal
    rcases hsame _ d hd with hd | rfl
    · exact hexposed hfed d hd hlocal
    · exact hexposed hfed c (hmem _) hlocal

end Query

namespace Render

section
variable {s : Setting} {c : Column} (label : String)

theorem expr_column_of_not_isUnfolded (hc : c.isUnfolded = false) :
    expr s (.column c) = liftM (s.column c) := by
  rw [← column_of_not_isUnfolded hc s]
  cases c
  rfl

/-- A column of an unfolded query is that query, under any label. -/
theorem expr_aliased_of_isUnfolded (hc : c.isUnfolded = true) :
    expr s (.column (c.aliased label)) = expr s (.column c) := by
  obtain ⟨owner, field, old, correlated⟩ := c
  obtain ⟨⟨name, q⟩, source, rfl⟩ := Column.isUnfolded_iff.mp hc
  simp only [Column.aliased, expr, column]

theorem column_aliased (hbare : s.scopes.isBare = false) :
    s.column (c.aliased label) = s.column c := by
  simp only [Setting.column, hbare]
  rfl

/-- Where columns are qualified, a label is not part of the text of a column. -/
theorem expr_aliased (hbare : s.scopes.isBare = false) :
    expr s (.column (c.aliased label)) = expr s (.column c) := by
  cases hc : c.isUnfolded with
  | true => exact expr_aliased_of_isUnfolded label hc
  | false =>
    rw [expr_column_of_not_isUnfolded (c := c.aliased label) hc, expr_column_of_not_isUnfolded hc,
      column_aliased label hbare]

theorem item_aliased (hbare : s.scopes.isBare = false) :
    item s (.column (c.aliased label)) = (· ++ " as " ++ label) <$> expr s (.column c) := by
  have hlabel : s.label (.column (c.aliased label)) = " as " ++ label := by
    simp [Setting.label, Column.aliased, hbare]
  simp only [item, hlabel, expr_aliased label hbare, String.append_assoc]

/-- Where columns are bare, nothing but the label is left of a column. -/
theorem item_aliased_of_isBare (hbare : s.scopes.isBare = true) (hc : c.isUnfolded = false) :
    item s (.column (c.aliased label)) = pure label := by
  have hlabel : s.label (.column (c.aliased label)) = "" := by
    simp [Setting.label, Column.aliased, hbare]
  rw [item, hlabel, expr_column_of_isBare (c := c.aliased label) hbare hc]
  simp [Column.projectionName, Column.aliased]

end

section
variable {s : Setting} {alias_ : Option String} {identity : Identity} {q : Query} {c : Column}
  {before after : List Expr} {state last : State} {text : String}

/-- A column that is written in some state is the same text in all of them. -/
theorem expr_eq_pure_of_item (hc : c.isUnfolded = false)
    (h : item s (.column c) state = (.ok text, last)) :
    ∃ x, s.column c = .ok x ∧ expr s (.column c) = pure x := by
  rw [item, map_eq_pure_bind] at h
  obtain ⟨x, _, hx, -⟩ := bind_ok_iff.mp h
  rw [expr_column_of_not_isUnfolded hc] at hx ⊢
  obtain ⟨hx, -⟩ := lift_ok_iff.mp hx
  exact ⟨x, hx, by rw [hx]; rfl⟩

theorem ne_append_as (x label : String) : label ≠ x ++ " as " ++ label := by
  intro heq
  have hlength := congrArg String.length heq
  have has : " as ".length = 4 := rfl
  simp only [String.length_append] at hlength
  omega

/-- A column of the SELECT list of a level that is written, and another label for it. With the new
label the level is written too, and only the item of the column changes. It is the text of the
column without its old label and with the new one exactly if the level is not fed by a union. In a
level fed by one, the item is the new label alone, whatever the union puts out. -/
theorem relabeled_column_written (hc : c.isUnfolded = false)
    (hselect : q.selectList = before ++ .column c :: after)
    (h : query s alias_ identity none q state = (.ok text, last)) (label : String) :
    let inside := s.inside alias_ q
    ∃ x written front back,
      item inside (.column c) = pure (x ++ inside.label (.column c)) ∧
      text = front ++ (x ++ inside.label (.column c)) ++ back ∧
      item inside (.column (c.aliased label)) = pure written ∧
      query s alias_ identity none (q.relabeled before after c label) state =
        (.ok (front ++ written ++ back), last) ∧
      (written = x ++ " as " ++ label ↔ q.isUnionFed = false) ∧
      (q.isUnionFed = true → x = c.projectionName ∧ written = label) := by
  intro inside
  obtain ⟨_, _, _, hran⟩ := exists_item_of_query hselect h
  obtain ⟨x, hx, hexpr⟩ := expr_eq_pure_of_item hc hran
  have hold : item inside (.column c) = pure (x ++ inside.label (.column c)) := by
    rw [item, hexpr, map_pure]
  have hchecks : q.validate = .ok () → (q.relabeled before after c label).validate = .ok () :=
    fun hvalid => Query.validate_ok_iff.mpr
      ((Query.validate_ok_iff.mp hvalid).relabeled hselect label)
  cases hfed : q.isUnionFed with
  | false =>
    have hbare : inside.scopes.isBare = false := hfed
    have hnew : item inside (.column (c.aliased label)) = pure (x ++ " as " ++ label) := by
      rw [item_aliased label hbare, hexpr, map_pure]
    obtain ⟨front, back, htext, hrun⟩ := query_with_item hselect hold hnew hchecks h
    exact ⟨x, _, front, back, hold, htext, hnew, hrun, by simp, by simp⟩
  | true =>
    have hbare : inside.scopes.isBare = true := hfed
    have hnew := item_aliased_of_isBare label hbare hc
    obtain ⟨front, back, htext, hrun⟩ := query_with_item hselect hold hnew hchecks h
    have hread : x = c.projectionName := by
      rw [Setting.column, if_pos hbare] at hx
      exact (Except.ok.inj hx).symm
    exact ⟨x, _, front, back, hold, htext, hnew, hrun, by simp [ne_append_as],
      fun _ => ⟨hread, rfl⟩⟩

end

def memberNumbers : Query :=
  ⟨[.column (.plain members "id")], false, [.relation members], [], [], [], [], [], 2⟩

/-- The numbers of the members and the guests, read from their union. -/
def numbersRead : Query :=
  ⟨[.column (.plain members "id")], false, [.union .union memberNumbers guestNumbers],
    [], [], [], [], [], 4⟩

def numbersReadText : String :=
  "SELECT id FROM (SELECT Members.id FROM Members UNION SELECT Guests.id FROM Guests) as _q1"

theorem numbersRead_validate : numbersRead.validate = .ok () := by
  refine Query.validate_read_iff.mpr fun _ => ⟨.plain members "id", ?_, ?_⟩
  · simp [memberNumbers, Query.projection, Expr.column?]
  · exact Column.sameField_iff.mpr ⟨members_same, rfl⟩

theorem numbersRead_written :
    query ⟨.empty, {}, []⟩ none .own none numbersRead ⟨[], {}⟩ =
      (.ok numbersReadText, ⟨[], ⟨0, [4]⟩⟩) :=
  (query_ok_iff rfl).mpr ⟨fun _ => numbersRead_validate, ["id"], _,
    ["FROM (SELECT Members.id FROM Members UNION SELECT Guests.id FROM Guests) as _q1"],
    rfl, rfl, rfl⟩

/-- With the label `key` the text reads `key`, which the union does not put out. -/
theorem relabeled_column_written_key :
    query ⟨.empty, {}, []⟩ none .own none numbersRead ⟨[], {}⟩ =
        (.ok numbersReadText, ⟨[], ⟨0, [4]⟩⟩) ∧
      memberNumbers.outputNames = ["id"] ∧
      let inside := Setting.inside ⟨.empty, {}, []⟩ none numbersRead
      let c := Column.plain members "id"
      item inside (.column c) = pure "id" ∧ item inside (.column (c.aliased "key")) = pure "key" ∧
        ∃ front back, numbersReadText = front ++ "id" ++ back ∧
          query ⟨.empty, {}, []⟩ none .own none (numbersRead.relabeled [] [] c "key") ⟨[], {}⟩ =
            (.ok (front ++ "key" ++ back), ⟨[], ⟨0, [4]⟩⟩) := by
  refine ⟨numbersRead_written, rfl, ?_⟩
  obtain ⟨x, written, front, back, hitem, htext, hnew, hrun, -, hfed⟩ :=
    relabeled_column_written (c := .plain members "id") rfl
      (show numbersRead.selectList = [] ++ _ :: [] from rfl) numbersRead_written "key"
  obtain ⟨rfl, rfl⟩ := hfed rfl
  exact ⟨hitem, hnew, front, back, htext, hrun⟩

end Render

end QueryTree
