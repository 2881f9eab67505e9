import QueryTree.Proofs.Derived.FlatNames
import QueryTree.Proofs.Render.Labels
import QueryTree.Proofs.Tree.Known

/-!
A table inside a subquery, addressed from outside. The names that its columns have there are those
under which the table form of the subquery puts them out.
-/

namespace QueryTree

section
variable {q : Query} (name : String) (registry : Registry)

theorem Query.selectList_derive_of_not_isUnionFed (hfed : q.isUnionFed = false) :
    (q.derive name registry).1.query.selectList = q.projection.map Expr.flattened :=
  Query.selectList_subSelect hfed

/-- A relation that a query finds is found through its table form too. -/
theorem Scope.project_derive {r : Relation}
    (hr : (sourcesRelations q.sources).find? (·.name == r.name) = some r) (later : Registry) :
    let d := (q.derive name registry).1
    (Scope.derived d).project r.name later = (.ok (.projected (.derived d) r), later) := by
  intro d
  have hrelations : sourcesRelations d.query.sources = sourcesRelations q.sources :=
    sourcesRelations_copy q.sources registry
  have hfound : d.query.relation r.name later = (.ok r, later) := by
    rw [Query.relation_run, hrelations, hr]
  have hrun := Scope.project_run (.derived d) r.name later
  rw [Scope.query, hfound] at hrun
  exact hrun

/-- The column of a derived table under the name of an output. -/
theorem Relation.column_derived {d : Derived} {output : String} (h : output ∈ d.query.outputNames) :
    (Relation.derived d).column output = .ok (.plain (.derived d) output) := by
  simp [column, h]

end

namespace Render

/-- Columns are written alike if their owners have one name and they do. -/
theorem column_congr {c d : Column} (howner : c.owner.name = d.owner.name) (hname : c.name = d.name)
    (hlabel : c.label = d.label) (hcorrelated : c.correlated = d.correlated) (s : Setting) :
    s.column c = s.column d := by
  simp only [Setting.column, Column.projectionName, howner, hname, hlabel, hcorrelated]

section
variable {q : Query} (hfed : q.isUnionFed = false) (name : String) (registry : Registry)
include hfed

/-- The table form of a query has an item for each column that the query puts out without a label.
It ends in the flat name of the column. -/
theorem flat_item_written {x : Column} (hx : .column x ∈ q.projection) (hlabel : x.label = none) :
    let d := (q.derive name registry).1
    ∃ i : Nat, d.query.selectList[i]? = some (Expr.column (x.aliased x.flatName)) ∧
      ∀ (s : Setting) (identity : Identity) (state last : State) (text : String),
        query s (some name) identity none d.query state = (.ok text, last) →
        ∃ select rest base, text = "SELECT " ++ ", ".intercalate select ++ rest ∧
          select.length = d.query.selectList.length ∧
          select[i]? = some (base ++ " as " ++ x.flatName) ∧
          ∃ before after, expr (s.inside (some name) d.query) (.column x) before =
            (.ok base, after) := by
  intro d
  obtain ⟨i, hi, hindex⟩ := List.mem_iff_getElem.mp hx
  have hplace : d.query.selectList[i]? = some (Expr.column (x.aliased x.flatName)) := by
    rw [Query.selectList_derive_of_not_isUnionFed name registry hfed, List.getElem?_map,
      List.getElem?_eq_getElem hi, hindex]
    simp [Expr.flattened, hlabel]
  refine ⟨i, hplace, fun s identity state last text h => ?_⟩
  have hfed' : d.query.isUnionFed = false := (q.isUnionFed_derive name registry).trans hfed
  have hlevel : d.query.isBareUnion = false := by simp [Query.isBareUnion, hfed']
  have hqualified : (s.inside (some name) d.query).scopes.isBare = false := hfed'
  obtain ⟨-, select, _, others, hitems, -, rfl⟩ := (query_ok_iff hlevel).mp h
  obtain ⟨hlength, hwritten⟩ := item_of_items hitems
  obtain ⟨written, before, after, hfound, hitem⟩ := hwritten i _ hplace
  rw [item_aliased x.flatName hqualified, map_eq_pure_bind] at hitem
  obtain ⟨base, _, hbase, hitem⟩ := bind_ok_iff.mp hitem
  obtain ⟨rfl, rfl⟩ := pure_ok_iff.mp hitem
  obtain ⟨rest, hrest⟩ := exists_behind_select s.options.separator others
  have hsome : select ≠ [] := by
    rintro rfl
    cases hfound
  exact ⟨select, rest, base, hrest select hsome, hlength, hfound, before, _, hbase⟩

/-- A field of a table inside a subquery, if the subquery puts out a column of its name under no
label of its own. From outside, the table is found and has the field, and the name of the field is
one under which the derived table is read. The field reads the same through the table and through
the derived table. When the subquery is written, its SELECT list has an item that ends in this
name. -/
theorem reprojection_reads_output {r : Relation}
    (hr : (sourcesRelations q.sources).find? (·.name == r.name) = some r) {field : String}
    {c : Column} (hc : r.column field = .ok c) {x : Column} (hx : .column x ∈ q.projection)
    (hlabel : x.label = none) (howner : x.owner.name = r.name) (hname : x.name = c.name) :
    let d := (q.derive name registry).1
    let flat := r.name ++ "_" ++ c.name
    (∃ p y z, (∀ later, (Scope.derived d).project r.name later = (.ok p, later)) ∧
      p.column field = .ok y ∧ y.name = flat ∧ flat ∈ d.query.outputNames ∧
      (Relation.derived d).column flat = .ok z ∧
      ∀ s : Setting, expr s (.column y) = expr s (.column z) ∧
        (s.scopes.isBare = false → s.options.oneTable = false →
          expr s (.column y) = pure (name ++ "." ++ flat))) ∧
    ∃ i : Nat, d.query.selectList[i]? = some (Expr.column (x.aliased flat)) ∧
      ∀ (s : Setting) (identity : Identity) (state last : State) (text : String),
        query s (some name) identity none d.query state = (.ok text, last) →
        ∃ select rest base, text = "SELECT " ++ ", ".intercalate select ++ rest ∧
          select.length = d.query.selectList.length ∧
          select[i]? = some (base ++ " as " ++ flat) ∧
          ∃ before after, expr (s.inside (some name) d.query) (.column x) before =
            (.ok base, after) := by
  intro d flat
  have hflat : x.flatName = flat := by rw [Column.flatName, howner, hname]
  have houtput : flat ∈ d.query.outputNames := by
    rw [Query.outputNames_derive hfed, ← hflat]
    refine List.mem_filterMap.mpr ⟨_, List.mem_map_of_mem hx, ?_⟩
    simp [Expr.flattened, hlabel, Expr.outputName?, Column.aliased, Column.projectionName]
  have hcolumn : (Relation.projected (.derived d) r).Has field :=
    Relation.has_projected_iff.mpr (Relation.has_of_column hc)
  have hitem := flat_item_written hfed name registry hx hlabel
  rw [hflat] at hitem
  obtain rfl := r.eq_plain_of_column hc
  refine ⟨⟨_, _, _, Scope.project_derive name registry hr, hcolumn, rfl, houtput,
    Relation.column_derived houtput, fun s => ?_⟩, hitem⟩
  have hread := column_congr (c := .plain (.projected (.derived d) r) field)
    (d := .plain (.derived d) flat) rfl rfl rfl rfl s
  rw [expr_column_of_not_isUnfolded rfl, expr_column_of_not_isUnfolded rfl, hread]
  refine ⟨rfl, fun hbare hqualified => ?_⟩
  have htext : s.column (.plain (.derived d) flat) = .ok (name ++ "." ++ flat) := by
    simp only [Setting.column, hbare, hqualified, Column.plain]
    rfl
  rw [htext]
  rfl

end

def sailors : Relation := .alias_ ⟨"sailor", ⟨0, "Crew", ["id", "ship"]⟩⟩

/-- The ships beside their crews, of which the numbers are taken. -/
def mustered : Query :=
  ⟨[.column (.plain sailors "id")], false,
    [.relation (.table ⟨1, "Ships", ["id"]⟩), .relation sailors], [], [], [], [], [], 2⟩

def musteredText : String :=
  "SELECT sailor.id as sailor_id FROM Ships, Crew as sailor"

/-- The number of a sailor has the same name inside and outside. -/
theorem reprojection_reads_output_mustered :
    let d := (mustered.derive "m" {}).1
    (∃ p y, (∀ later, (Scope.derived d).project "sailor" later = (.ok p, later)) ∧
      p.column "id" = .ok y ∧ y.name = "sailor_id" ∧ "sailor_id" ∈ d.query.outputNames ∧
      expr ⟨.empty, {}, []⟩ (.column y) = pure "m.sailor_id") ∧
    query ⟨.empty, {}, []⟩ (some "m") .own none d.query ⟨[], {}⟩ =
      (.ok musteredText, ⟨[], {}⟩) ∧
    ∃ select rest base, musteredText = "SELECT " ++ ", ".intercalate select ++ rest ∧
      base ++ " as " ++ "sailor_id" ∈ select := by
  intro d
  obtain ⟨⟨p, y, z, hp, hy, hname, houtput, -, htext⟩, i, -, hitem⟩ :=
    reprojection_reads_output (q := mustered) (r := sailors) (x := .plain sailors "id") rfl "m" {}
      rfl (show sailors.column "id" = _ from rfl) List.mem_cons_self rfl rfl rfl
  have hrun : query ⟨.empty, {}, []⟩ (some "m") .own none d.query ⟨[], {}⟩ =
      (.ok musteredText, ⟨[], {}⟩) := rfl
  obtain ⟨select, rest, base, hselect, -, hfound, -⟩ := hitem _ _ _ _ _ hrun
  exact ⟨⟨p, y, hp, hy, hname, houtput, (htext _).2 rfl rfl⟩, hrun, select, rest, base, hselect,
    List.mem_of_getElem? hfound⟩

end Render

end QueryTree
