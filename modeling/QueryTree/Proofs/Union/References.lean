import QueryTree.Proofs.Union.ReadBack
import QueryTree.Proofs.Validation

/-!
How a query reads the union that it is fed by. The checks match a reference with a column of either
side by owner and name. What is written is the label of the reference, or else the name that the
column has on its side. The union puts the column out under the label that it has there.
-/

namespace QueryTree

theorem Query.reaches_of_union {q : Query} {op : SetOp} {left right : Query}
    (hsources : q.sources = [.union op left right]) (c : Column) :
    q.reaches c = true ↔
      ∃ o ∈ (left.projection ++ right.projection).filterMap Expr.column?,
        o.sameField c = true := by
  have houtputs : q.unionOutputs =
      some ((left.projection ++ right.projection).filterMap Expr.column?) := by
    rw [unionOutputs, hsources]
    rfl
  simp only [reaches, houtputs, List.any_eq_true]

/-- A query that takes one column from a union passes the checks if a side of the union has it. -/
theorem Query.validate_read_iff {op : SetOp} {left right : Query} {c : Column} {id : Nat} :
    Query.validate ⟨[.column c], false, [.union op left right], [], [], [], [], [], id⟩ = .ok () ↔
      (c.isLocal = true → ∃ o ∈ (left.projection ++ right.projection).filterMap Expr.column?,
        o.sameField c = true) := by
  rw [validate_ok_iff]
  constructor
  · intro h hlocal
    have hreached := h.reached c List.mem_cons_self hlocal
    exact (reaches_of_union rfl c).mp hreached
  · intro h
    refine ⟨List.nodup_nil, fun d hd hlocal => ?_, fun hfed => ?_⟩
    · obtain rfl : d = c := by
        simpa [references, Expr.references] using hd
      exact (reaches_of_union rfl d).mpr (h hlocal)
    · simp [isUnionFed, Source.isUnion] at hfed

theorem Query.projectionName_mem_outputNames {q : Query} {c : Column}
    (hc : c ∈ q.projection.filterMap Expr.column?) : c.projectionName ∈ q.outputNames := by
  obtain ⟨e, he, hcolumn⟩ := List.mem_filterMap.mp hc
  cases e with
  | column d =>
    cases hcolumn
    exact List.mem_filterMap.mpr ⟨_, he, rfl⟩
  | _ => cases hcolumn

namespace Render

theorem pure_inj {a b : String} : (pure a : Writer String) = pure b ↔ a = b := by
  constructor
  · intro h
    have hrun : (pure a : Writer String) ⟨[], {}⟩ = (.ok b, ⟨[], {}⟩) := congrFun h _
    exact (pure_ok_iff.mp hrun).1
  · rintro rfl
    rfl

/-- Every reference of a query that passes the checks is a column of a side of the union. It is
written as its own label, or else as the name of that column, so it is read from the union only if
the union puts out something of that name. A column on the left is put out under its own label. -/
theorem reference_reads_output_iff {q : Query} {op : SetOp} {left right : Query}
    (hsources : q.sources = [.union op left right]) (hvalid : q.validate = .ok ()) {c : Column}
    (hc : c ∈ references (q.selectList ++ q.whereList)) (hlocal : c.isLocal = true)
    (s : Setting) (alias_ : Option String) :
    let inside := s.enter alias_ q.reachableNames q.isUnionFed
    ∃ o ∈ (left.projection ++ right.projection).filterMap Expr.column?, o.sameField c = true ∧
      expr inside (.column c) = pure (c.label.getD o.name) ∧
      ((∃ output ∈ left.outputNames, expr inside (.column c) = pure output) ↔
        c.label.getD o.name ∈ left.outputNames) ∧
      (o ∈ left.projection.filterMap Expr.column? → o.label.getD o.name ∈ left.outputNames) := by
  intro inside
  have hreached := (Query.validate_ok_iff.mp hvalid).reached c hc hlocal
  obtain ⟨o, ho, hsame⟩ := (Query.reaches_of_union hsources c).mp hreached
  obtain ⟨-, hname⟩ := Column.sameField_iff.mp hsame
  obtain ⟨-, hunfolded⟩ : c.correlated = false ∧ c.isUnfolded = false := by
    simpa [Column.isLocal] using hlocal
  have hbare : inside.scopes.isBare = true := by
    simp [inside, Setting.enter, Scopes.isBare, Query.isUnionFed, hsources, Source.isUnion]
  have htext : expr inside (.column c) = pure (c.label.getD o.name) := by
    rw [expr_column_of_isBare hbare hunfolded, Column.projectionName, hname]
  refine ⟨o, ho, hsame, htext, ?_, Query.projectionName_mem_outputNames⟩
  rw [htext]
  constructor
  · rintro ⟨output, houtput, hpure⟩
    rwa [pure_inj.mp hpure]
  · intro houtput
    exact ⟨_, houtput, rfl⟩

def members : Relation := .table ⟨0, "Members", ["id"]⟩

def guests : Relation := .table ⟨1, "Guests", ["id"]⟩

/-- The numbers of the members under the name `key`. -/
def memberKeys : Query :=
  ⟨[.column ((Column.plain members "id").aliased "key")], false, [.relation members],
    [], [], [], [], [], 2⟩

def guestNumbers : Query :=
  ⟨[.column (.plain guests "id")], false, [.relation guests], [], [], [], [], [], 3⟩

/-- The numbers of the members, read from a union that puts them out under the name `key`. -/
def unlabeledRead : Query :=
  ⟨[.column (.plain members "id")], false, [.union .union memberKeys guestNumbers],
    [], [], [], [], [], 4⟩

theorem members_same : (members == members) = true := by
  change Relation.same _ _ = true
  simp [members, Relation.same]

theorem unlabeledRead_validate : unlabeledRead.validate = .ok () := by
  refine Query.validate_read_iff.mpr fun _ => ⟨(Column.plain members "id").aliased "key", ?_, ?_⟩
  · simp [memberKeys, Query.projection, Expr.column?]
  · exact Column.sameField_iff.mpr ⟨members_same, rfl⟩

/-- The checks pass, and the text reads `id` where the union has nothing but `key`. -/
theorem unlabeledRead_reads_no_output :
    unlabeledRead.sources = [.union .union memberKeys guestNumbers] ∧
      unlabeledRead.validate = .ok () ∧ memberKeys.outputNames = ["key"] ∧
      ∃ c ∈ references (unlabeledRead.selectList ++ unlabeledRead.whereList), c.isLocal = true ∧
        let inside := Setting.enter ⟨.empty, {}, []⟩ none unlabeledRead.reachableNames
          unlabeledRead.isUnionFed
        expr inside (.column c) = pure "id" ∧
          ¬ ∃ output ∈ memberKeys.outputNames, expr inside (.column c) = pure output := by
  have hmem : Column.plain members "id" ∈
      references (unlabeledRead.selectList ++ unlabeledRead.whereList) := List.mem_cons_self
  refine ⟨rfl, unlabeledRead_validate, rfl, _, hmem, rfl, ?_⟩
  obtain ⟨o, -, hfield, htext, hiff, -⟩ := reference_reads_output_iff (q := unlabeledRead) rfl
    unlabeledRead_validate hmem rfl ⟨.empty, {}, []⟩ none
  have hname : o.name = "id" := (Column.sameField_iff.mp hfield).2
  refine ⟨by rw [htext, hname]; rfl, ?_⟩
  rw [hiff, hname]
  decide

end Render

end QueryTree
