import QueryTree.Proofs.Tree.Copy
import QueryTree.Proofs.Validation

/-!
The names that a query puts out as a table. Outside of unions every column without a label is
labeled with its owner's name and its own, joined by an underscore. Names may hold underscores
themselves, so the joint cannot be told from them, and two columns can come to the same label.
-/

namespace QueryTree

/-- Two pairs of names that a joint of underscores does not tell apart: the first owner reaches over
the joint of the second pair. -/
def Overlapping (owner name owner' name' : String) : Prop :=
  ∃ middle, owner = owner' ++ "_" ++ middle ∧ name' = middle ++ "_" ++ name

section
variable {owner name owner' name' : String}

theorem joined_eq_of_overlapping (h : Overlapping owner name owner' name') :
    owner ++ "_" ++ name = owner' ++ "_" ++ name' := by
  obtain ⟨middle, rfl, rfl⟩ := h
  simp [String.append_assoc]

/-- What the second owner has more than the first one, the first name begins with. -/
theorem eq_or_overlapping {more : List Char} (howner : owner'.toList = owner.toList ++ more)
    (hname : '_' :: name.toList = more ++ '_' :: name'.toList) :
    (owner = owner' ∧ name = name') ∨ Overlapping owner' name' owner name := by
  cases more with
  | nil =>
    simp only [List.append_nil, List.nil_append, List.cons.injEq, true_and,
      String.toList_inj] at howner hname
    exact Or.inl ⟨howner.symm, hname⟩
  | cons joint middle =>
    rw [List.cons_append, List.cons.injEq] at hname
    obtain ⟨rfl, hname⟩ := hname
    refine Or.inr ⟨String.ofList middle, ?_, ?_⟩
    · simp [← String.toList_inj, howner]
    · simp [← String.toList_inj, hname]

theorem joined_eq_iff : owner ++ "_" ++ name = owner' ++ "_" ++ name' ↔
    (owner = owner' ∧ name = name') ∨
      Overlapping owner name owner' name' ∨ Overlapping owner' name' owner name := by
  constructor
  · intro h
    have hlists : owner.toList ++ '_' :: name.toList = owner'.toList ++ '_' :: name'.toList := by
      simpa [String.append_assoc] using congrArg String.toList h
    rcases List.append_eq_append_iff.mp hlists with ⟨more, howner, hname⟩ | ⟨more, howner, hname⟩
    · rcases eq_or_overlapping howner hname with heq | hover
      · exact Or.inl heq
      · exact Or.inr (Or.inr hover)
    · rcases eq_or_overlapping howner hname with ⟨rfl, rfl⟩ | hover
      · exact Or.inl ⟨rfl, rfl⟩
      · exact Or.inr (Or.inl hover)
  · rintro (⟨rfl, rfl⟩ | h | h)
    · rfl
    · exact joined_eq_of_overlapping h
    · exact (joined_eq_of_overlapping h).symm

end

/-- The label of a column in the table form of a query. -/
def Column.flatName (c : Column) : String :=
  c.owner.name ++ "_" ++ c.name

/-- An item of the table form of a query that is not fed by a union. -/
def Expr.flattened : Expr → Expr
  | .column c => .column (c.aliased (c.label.getD c.flatName))
  | e => e

namespace Query

variable {q : Query}

theorem selectList_subSelect (hfed : q.isUnionFed = false) :
    q.subSelect.selectList = q.projection.map Expr.flattened := by
  simp only [subSelect, hfed]
  apply List.map_congr_left
  intro e _
  cases e with
  | column c =>
    obtain ⟨owner, field, label, correlated⟩ := c
    cases label <;> rfl
  | _ => rfl

/-- Without a SELECT list the output depends on the sources alone. -/
theorem projection_congr {p : Query} (hselect : p.selectList = q.selectList)
    (hsources : p.sources = q.sources) : p.projection = q.projection := by
  cases p
  cases q
  cases hselect
  cases hsources
  simp only [projection]

theorem projection_of_selectList (h : q.selectList ≠ []) : q.projection = q.selectList := by
  cases q
  rw [projection, if_neg (by simpa using h)]

/-- The table form puts out what it selects, also if that is nothing. -/
theorem projection_subSelect_of_selectList {f : Expr → Expr}
    (hselect : q.subSelect.selectList = q.projection.map f) :
    q.subSelect.projection = q.projection.map f := by
  by_cases hempty : q.projection = []
  · have hnone : q.selectList = [] :=
      Classical.byContradiction fun h => h ((projection_of_selectList h).symm.trans hempty)
    rw [hempty, List.map_nil] at hselect ⊢
    exact (projection_congr (hselect.trans hnone.symm) rfl).trans hempty
  · rw [projection_of_selectList, hselect]
    simpa [hselect] using hempty

theorem projection_subSelect (hfed : q.isUnionFed = false) :
    q.subSelect.projection = q.projection.map Expr.flattened :=
  projection_subSelect_of_selectList (selectList_subSelect hfed)

theorem outputNames_derive (hfed : q.isUnionFed = false) (name : String) (registry : Registry) :
    (q.derive name registry).1.query.outputNames =
      (q.projection.map Expr.flattened).filterMap Expr.outputName? := by
  have hquery : (q.derive name registry).1.query = (q.subSelect.anew registry).1 := rfl
  rw [outputNames, hquery, anew_eq_overCopies, projection_overCopies, projection_subSelect hfed]

end Query

theorem outputNames_flattened {columns : List Column} (hlabels : ∀ c ∈ columns, c.label = none) :
    ((columns.map Expr.column).map Expr.flattened).filterMap Expr.outputName? =
      columns.map Column.flatName := by
  induction columns with
  | nil => rfl
  | cons c rest ih =>
    rw [List.forall_mem_cons] at hlabels
    have hname : (Expr.column c).flattened.outputName? = some c.flatName := by
      simp [Expr.flattened, Expr.outputName?, Column.aliased, Column.projectionName, hlabels.1]
    simp only [List.map_cons, List.filterMap_cons, hname, ih hlabels.2]

/-- If a query that is not fed by a union puts out columns without labels, its table form puts them
out under their flat names. Names of different columns differ exactly if no two of the columns
overlap. -/
theorem outputNames_derive_nodup_iff {q : Query} (hfed : q.isUnionFed = false)
    {columns : List Column} (hcolumns : q.projection = columns.map .column)
    (hlabels : ∀ c ∈ columns, c.label = none)
    (hdistinct : columns.Pairwise fun a b => ¬(a.owner.name = b.owner.name ∧ a.name = b.name))
    (name : String) (registry : Registry) :
    let outputs := (q.derive name registry).1.query.outputNames
    outputs = columns.map Column.flatName ∧
      (outputs.Nodup ↔ columns.Pairwise fun a b =>
        ¬Overlapping a.owner.name a.name b.owner.name b.name ∧
          ¬Overlapping b.owner.name b.name a.owner.name a.name) := by
  intro outputs
  have houtputs : outputs = columns.map Column.flatName := by
    rw [← outputNames_flattened hlabels, ← hcolumns]
    exact Query.outputNames_derive hfed name registry
  refine ⟨houtputs, ?_⟩
  rw [houtputs, List.Nodup, List.pairwise_map]
  constructor
  · intro h
    refine h.imp fun hne => ⟨fun hover => ?_, fun hover => ?_⟩
    · exact hne (joined_eq_of_overlapping hover)
    · exact hne (joined_eq_of_overlapping hover).symm
  · intro h
    refine (hdistinct.and h).imp ?_
    rintro a b ⟨hpair, hover, hover'⟩ heq
    rcases joined_eq_iff.mp heq with hsame | hsame | hsame
    · exact hpair hsame
    · exact hover hsame
    · exact hover' hsame

/-- Two tables beside each other, all of whose columns are taken. -/
def orderLines : Query :=
  ⟨[], false, [.relation (.table ⟨0, "order", ["items_id"]⟩),
    .relation (.table ⟨1, "order_items", ["id"]⟩)], [], [], [], [], [], 2⟩

def orderColumns : List Column :=
  [.plain (.table ⟨0, "order", ["items_id"]⟩) "items_id",
    .plain (.table ⟨1, "order_items", ["id"]⟩) "id"]

/-- The two columns come to the same name. -/
theorem orderLines_outputs_collide :
    orderLines.validate = .ok () ∧ orderLines.isUnionFed = false ∧
      orderLines.projection = orderColumns.map .column ∧
      (∀ c ∈ orderColumns, c.label = none ∧ c.correlated = false) ∧
      orderColumns.Pairwise (fun a b => ¬(a.owner.name = b.owner.name ∧ a.name = b.name)) ∧
      let outputs := (orderLines.derive "d" {}).1.query.outputNames
      outputs = ["order_items_id", "order_items_id"] ∧ ¬outputs.Nodup := by
  have hvalid : orderLines.validate = .ok () :=
    Query.validate_ok_iff.mpr ⟨by decide, by simp [orderLines, references],
      by simp [orderLines, references, sourcesOnPredicates, Source.onPredicates]⟩
  have hdistinct : orderColumns.Pairwise
      fun a b => ¬(a.owner.name = b.owner.name ∧ a.name = b.name) := by
    simp [orderColumns, Column.plain, Relation.name]
  have hcolumns : orderLines.projection = orderColumns.map .column := rfl
  have hplain : ∀ c ∈ orderColumns, c.label = none ∧ c.correlated = false := by
    simp [orderColumns, Column.plain]
  obtain ⟨houtputs, hnodup⟩ := outputNames_derive_nodup_iff rfl hcolumns
    (fun c hc => (hplain c hc).1) hdistinct "d" {}
  refine ⟨hvalid, rfl, hcolumns, hplain, hdistinct, houtputs, ?_⟩
  rw [hnodup, orderColumns, List.pairwise_cons]
  rintro ⟨hfirst, -⟩
  exact (hfirst _ List.mem_cons_self).2 ⟨"items", rfl, rfl⟩

end QueryTree
