import QueryTree.Tree.Equality
import QueryTree.Tree.Projection

/-! The columns that expressions refer to. A scalar subquery is a scope of its own and refers to
none. -/

namespace QueryTree

mutual

/-- Every reference to a column, in the order of the text. -/
def Expr.references : Expr → List Column
  | .value _ => []
  | .param _ => []
  | .star => []
  | .column c => [c]
  | .unary _ operand => operand.references
  | .binary _ left right => left.references ++ right.references
  | .between subject low high => subject.references ++ low.references ++ high.references
  | .call _ args => references args
  | .list items => references items
  | .labeled e _ => e.references
  | .subquery _ => []

def references : List Expr → List Column
  | [] => []
  | e :: rest => e.references ++ references rest

end

def distinctColumns (exprs : List Expr) : List Column :=
  (references exprs).eraseDups

def Expr.relations (e : Expr) : List Relation :=
  ((distinctColumns [e]).map Column.owner).eraseDups

/-- The columns of the SELECT list; without one, all that the sources expose. -/
def Query.columns (q : Query) : List Column :=
  if q.selectList.isEmpty then sourcesColumns q.sources else distinctColumns q.selectList

end QueryTree
