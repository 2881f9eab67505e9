import QueryTree.Proofs.Render.Runs
import QueryTree.Proofs.Render.Sites

/-!
What stands in the SELECT list of the table form of a query fed by a union. A column of the union is
read back by its name. A labeled expression and a column that stands for a subquery are written over
again, outside the union.
-/

namespace QueryTree

/-- The first union among sources gives a query its output. -/
theorem unionProjection_of_any_isUnion {sources : List Source}
    (h : sources.any Source.isUnion = true) :
    ∃ op left right, sources.find? Source.isUnion = some (.union op left right) ∧
      unionProjection sources = some left.projection := by
  induction sources with
  | nil => cases h
  | cons source rest ih =>
    cases source with
    | union op left right => exact ⟨op, left, right, rfl, by rw [unionProjection]⟩
    | relation r =>
      obtain ⟨op, left, right, hfind, hprojection⟩ := ih h
      exact ⟨op, left, right, hfind, by rw [unionProjection, hprojection]⟩
    | join kind l r on =>
      obtain ⟨op, left, right, hfind, hprojection⟩ := ih h
      exact ⟨op, left, right, hfind, by rw [unionProjection, hprojection]⟩

theorem Query.projection_of_isUnionFed {q : Query} (hfed : q.isUnionFed = true)
    (hselect : q.selectList = []) :
    ∃ op left right, q.sources.find? Source.isUnion = some (.union op left right) ∧
      q.projection = left.projection := by
  obtain ⟨op, left, right, hfind, hprojection⟩ := unionProjection_of_any_isUnion hfed
  obtain ⟨select, sub, sources, filter, group, having, order, limit, id⟩ := q
  cases hselect
  exact ⟨op, left, right, hfind, by simp [Query.projection, hprojection]⟩

/-- An item of the table form of a query fed by a union. The label goes around a column, so that the
column keeps its name. -/
def Expr.overUnion : Expr → Expr
  | .column c =>
    match c.label with
    | some _ => .column c
    | none => .labeled (.column c) (c.owner.name ++ "_" ++ c.name)
  | e => e

theorem Query.selectList_subSelect_of_isUnionFed {q : Query} (hfed : q.isUnionFed = true) :
    q.subSelect.selectList = q.projection.map Expr.overUnion := by
  simp only [Query.subSelect, hfed, if_true]
  apply List.map_congr_left
  intro e _
  cases e <;> rfl

theorem Query.selectList_derive {q : Query} (hfed : q.isUnionFed = true) (name : String)
    (registry : Registry) :
    (q.derive name registry).1.query.selectList = q.projection.map Expr.overUnion :=
  Query.selectList_subSelect_of_isUnionFed hfed

theorem Query.isUnionFed_derive (q : Query) (name : String) (registry : Registry) :
    (q.derive name registry).1.query.isUnionFed = q.isUnionFed :=
  any_isUnion_copySources q.sources _

theorem Column.isUnfolded_iff {c : Column} :
    c.isUnfolded = true ↔ ∃ u source, c.owner = .projected (.unfolded u) source := by
  obtain ⟨owner, field, label, correlated⟩ := c
  cases owner with
  | projected scope source => cases scope <;> simp [isUnfolded]
  | _ => simp [isUnfolded]

namespace Render

theorem column_of_not_isUnfolded {c : Column} (h : c.isUnfolded = false) (s : Setting) :
    column s c c.owner = s.column c := by
  obtain ⟨owner, field, label, correlated⟩ := c
  cases owner with
  | projected scope source =>
    cases scope with
    | derived d => rfl
    | unfolded u => cases h
  | _ => rfl

/-- Where columns are bare, a column is its output name. -/
theorem expr_column_of_isBare {s : Setting} (hbare : s.scopes.isBare = true) {c : Column}
    (h : c.isUnfolded = false) : expr s (.column c) = pure c.projectionName := by
  have hcolumn : s.column c = .ok c.projectionName := by simp [Setting.column, hbare]
  have hexpr : expr s (.column c) = column s c c.owner := by
    cases c
    rfl
  rw [hexpr, column_of_not_isUnfolded h, hcolumn]
  rfl

theorem number_mem_columnFragments (scopes : Scopes) (c : Column) (name : String) (q : Query)
    (source : Relation) :
    .number .made q.id ∈ columnFragments scopes c (.projected (.unfolded ⟨name, q⟩) source) := by
  obtain ⟨select, sub, sources, filter, group, having, order, limit, id⟩ := q
  simp [columnFragments, enclosed, queryFragments, isBareUnion_narrowed]

/-- A column that stands for a subquery takes up a number, so it is not just a text. -/
theorem expr_column_ne_pure {s : Setting} {c : Column} (h : c.isUnfolded = true) (text : String) :
    expr s (.column c) ≠ pure text := by
  intro hpure
  have hrun := congrFun (writeAll_expr s.bindings s.options s.scopes [] (.column c)) ⟨[], {}⟩
  rw [hpure] at hrun
  obtain ⟨owner, field, label, correlated⟩ := c
  cases owner with
  | projected scope source =>
    cases scope with
    | derived d => cases h
    | unfolded u =>
      obtain ⟨name, q⟩ := u
      rw [exprFragments] at hrun
      have hlt := issued_lt_of_writeAll hrun (number_mem_columnFragments _ _ name q source)
      exact Nat.lt_irrefl _ hlt
  | _ => cases h

theorem expr_overUnion (s : Setting) (e : Expr) : expr s e.overUnion = expr s e := by
  cases e with
  | column c =>
    have hlabeled : ∀ label, expr s (.labeled (.column c) label) = expr s (.column c) :=
      fun _ => rfl
    cases hlabel : c.label with
    | some label => simp [Expr.overUnion, hlabel]
    | none => simp [Expr.overUnion, hlabel, hlabeled]
  | _ => rfl

theorem map_append_eq_pure_iff {x : Writer String} {text suffix : String} :
    (· ++ suffix) <$> x = pure (text ++ suffix) ↔ x = pure text := by
  constructor
  · intro h
    funext state
    have hrun := congrFun h state
    rw [map_eq_pure_bind] at hrun
    obtain ⟨found, between, hx, hfound⟩ := bind_ok_iff.mp hrun
    obtain ⟨htext, rfl⟩ := pure_ok_iff.mp hfound
    rw [hx, (String.append_left_inj suffix).mp htext]
    rfl
  · rintro rfl
    rw [map_pure]

/-- The table form of a query fed by a union has an item for each output of the union. The item is
the operand's own, up to its label. It reads the output back by its name if it is a column that does
not stand for a subquery, and otherwise only if the labeled expression is written as its label. -/
theorem item_reads_back_iff {q : Query} (hfed : q.isUnionFed = true) (hselect : q.selectList = [])
    (s : Setting) (name : String) (registry : Registry) :
    let table := (q.derive name registry).1.query
    let inside := s.enter (some name) table.reachableNames table.isUnionFed
    ∃ op left right, q.sources.find? Source.isUnion = some (.union op left right) ∧
      table.selectList.length = left.projection.length ∧
      ∀ (i : Nat) (e : Expr) (output : String), left.projection[i]? = some e →
        e.outputName? = some output → ∃ read, table.selectList[i]? = some read ∧
          item inside read = (· ++ inside.label read) <$> expr inside e ∧
          (item inside read = pure (output ++ inside.label read) ↔
            (∃ c, e = .column c ∧ c.isUnfolded = false) ∨
              ∃ inner, e = .labeled inner output ∧ expr inside inner = pure output) := by
  intro table inside
  obtain ⟨op, left, right, hfind, hprojection⟩ := Query.projection_of_isUnionFed hfed hselect
  have hlist : table.selectList = left.projection.map Expr.overUnion := by
    rw [← hprojection]
    exact Query.selectList_derive hfed name registry
  have hbare : inside.scopes.isBare = true := (q.isUnionFed_derive name registry).trans hfed
  refine ⟨op, left, right, hfind, by rw [hlist, List.length_map], ?_⟩
  intro i e output he houtput
  refine ⟨e.overUnion, by rw [hlist, List.getElem?_map, he]; rfl, ?_, ?_⟩
  · rw [item, expr_overUnion]
  rw [item, map_append_eq_pure_iff, expr_overUnion]
  cases e with
  | column c =>
    cases houtput
    cases hunfolded : c.isUnfolded with
    | false =>
      rw [expr_column_of_isBare hbare hunfolded]
      exact ⟨fun _ => Or.inl ⟨c, rfl, hunfolded⟩, fun _ => rfl⟩
    | true =>
      constructor
      · intro hpure
        exact absurd hpure (expr_column_ne_pure hunfolded _)
      · rintro (⟨_, hc, hplain⟩ | ⟨_, hinner, -⟩)
        · cases hc
          rw [hunfolded] at hplain
          cases hplain
        · cases hinner
  | labeled inner label =>
    cases houtput
    constructor
    · intro hpure
      exact Or.inr ⟨inner, rfl, hpure⟩
    · rintro (⟨_, hc, -⟩ | ⟨_, hinner, hpure⟩)
      · cases hc
      · cases hinner
        exact hpure
  | _ => cases houtput

/-- A placeholder under the name `n`, in a union with a column. -/
def tagged : Query :=
  let left : Query := ⟨[.labeled (.param "k") "n"], false,
    [.relation (.table ⟨0, "A", ["x"]⟩)], [], [], [], [], [], 1⟩
  let right : Query := ⟨[.column (.plain (.table ⟨2, "B", ["x"]⟩) "x")], false,
    [.relation (.table ⟨2, "B", ["x"]⟩)], [], [], [], [], [], 3⟩
  ⟨[], false, [.union .union left right], [], [], [], [], [], 4⟩

/-- The placeholder comes a second time, where `n` would be read. -/
theorem tagged_item_not_read_back :
    tagged.isUnionFed = true ∧ tagged.selectList = [] ∧
      let table := (tagged.derive "d" {}).1.query
      let inside := Setting.enter ⟨.empty, {}, []⟩ (some "d") table.reachableNames table.isUnionFed
      ∃ read, table.selectList[0]? = some read ∧
        item inside read = (· ++ inside.label read) <$> inside.placeholder "k" ∧
        item inside read ≠ pure ("n" ++ inside.label read) := by
  refine ⟨rfl, rfl, ?_⟩
  obtain ⟨op, left, right, hfind, -, hitems⟩ :=
    item_reads_back_iff (q := tagged) rfl rfl ⟨.empty, {}, []⟩ "d" {}
  cases hfind
  obtain ⟨read, hread, hitem, hiff⟩ := hitems 0 (.labeled (.param "k") "n") "n" rfl rfl
  refine ⟨read, hread, hitem, fun hpure => ?_⟩
  rcases hiff.mp hpure with ⟨_, hcolumn, -⟩ | ⟨_, hinner, hname⟩
  · cases hcolumn
  · cases hinner
    have hrun := congrFun hname ⟨[], {}⟩
    obtain ⟨_, -, hmarker, -⟩ := placeholder_ok_iff.mp hrun
    exact absurd hmarker (by decide)

end Render

end QueryTree
