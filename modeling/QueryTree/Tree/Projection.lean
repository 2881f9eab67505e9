import QueryTree.Tree.Basic

/-!
What queries, sources and relations expose: the columns of a relation, those that FROM exposes, and
the expressions that a query puts out.
-/

namespace QueryTree

mutual

/-- What a query puts out: its SELECT list; without one the output of the left side of its first
union, or every column of its sources. -/
def Query.projection : Query → List Expr
  | ⟨select, _, sources, _, _, _, _, _, _⟩ =>
    if select.isEmpty then
      match unionProjection sources with
      | some items => items
      | none => (sourcesColumns sources).map .column
    else select

/-- The output of the left side of the first union among sources. -/
def unionProjection : List Source → Option (List Expr)
  | [] => none
  | .union _ left _ :: _ => some left.projection
  | .relation _ :: rest => unionProjection rest
  | .join .. :: rest => unionProjection rest

/-- Every column that can be reached, in the order of the sources. A union exposes none. -/
def sourcesColumns : List Source → List Column
  | [] => []
  | source :: rest => source.columns ++ sourcesColumns rest

def Source.columns : Source → List Column
  | .relation r => r.columns
  | .join _ left right _ => left.columns ++ right.columns
  | .union .. => []

def Relation.columns : Relation → List Column
  | .table t => t.fields.map (.plain (.table t))
  | .alias_ a => a.table.fields.map (.plain (.alias_ a))
  | .projected scope source => source.columns.map fun c => .plain (.projected scope source) c.field
  | .derived ⟨name, query, given⟩ =>
    (query.projection.filterMap Expr.outputName?).map (.plain (.derived ⟨name, query, given⟩))

end

namespace Query

def arity (q : Query) : Nat :=
  q.projection.length

/-- The names under which a query puts out columns and labeled expressions. -/
def outputNames (q : Query) : List String :=
  q.projection.filterMap Expr.outputName?

end Query

mutual

/-- The relations that can be reached, in order and as often as they occur. A union hides its
own. -/
def Source.relations : Source → List Relation
  | .relation r => [r]
  | .join _ left right _ => left.relations ++ right.relations
  | .union .. => []

def sourcesRelations : List Source → List Relation
  | [] => []
  | source :: rest => source.relations ++ sourcesRelations rest

end

mutual

/-- The ON predicates of a source, those of an outer join behind those of its sides. -/
def Source.onPredicates : Source → List Expr
  | .join _ left right on => left.onPredicates ++ right.onPredicates ++ on
  | .relation _ => []
  | .union .. => []

def sourcesOnPredicates : List Source → List Expr
  | [] => []
  | source :: rest => source.onPredicates ++ sourcesOnPredicates rest

end

def sourcesColumnNames (sources : List Source) : List String :=
  (sourcesColumns sources).map Column.name

/-- The column of a field. A projected relation looks it up in its source, a derived table among
its outputs. -/
def Relation.column : Relation → String → Except QueryError Column
  | .table t, field =>
    if t.hasField field then .ok (.plain (.table t) field)
    else .error (.unknownAttribute t.name field)
  | .alias_ a, field =>
    if a.table.hasField field then .ok (.plain (.alias_ a) field)
    else .error (.unknownAttribute a.name field)
  | .projected scope source, field =>
    (source.column field).map fun c => .plain (.projected scope source) c.field
  | .derived d, field =>
    if d.query.outputNames.contains field then .ok (.plain (.derived d) field)
    else .error (.unknownAttribute d.name field)

/-- The sub-select form: the projection spelled out, and every column without a label labeled with
its owner and name. Columns of a union keep the name by which they are read, so there the label is
put around them. -/
def Query.subSelect (q : Query) : Query :=
  let spelledOut : Expr → Expr
    | .column c =>
      match c.label with
      | some _ => .column c
      | none =>
        let label := c.owner.name ++ "_" ++ c.name
        if q.isUnionFed then .labeled (.column c) label else .column (c.aliased label)
    | e => e
  { q with selectList := q.projection.map spelledOut, isSubSelect := true }

end QueryTree
