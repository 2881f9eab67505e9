import QueryTree.Error
import QueryTree.Operator
import QueryTree.Table
import QueryTree.Value.Basic

/-!
Queries as trees: expressions, the columns they refer to, the relations that columns belong to, the
sources of a FROM clause, and queries made of them.
-/

namespace QueryTree

mutual

inductive Expr where
  | value (v : Value)
  | param (key : String)
  | star
  | column (c : Column)
  | unary (op : UnaryOp) (operand : Expr)
  | binary (op : BinaryOp) (left right : Expr)
  | between (subject low high : Expr)
  | call (name : String) (args : List Expr)
  | list (items : List Expr)
  | labeled (expr : Expr) (label : String)
  | subquery (sub : Unfolded)

/-- A field of a relation. The label is the name that a SELECT list gives it; a correlated column
belongs to an enclosing query. -/
structure Column where
  owner : Relation
  field : String
  label : Option String
  correlated : Bool

/-- What a column can belong to. A projected relation is one inside a subquery, seen from
outside. -/
inductive Relation where
  | table (t : Table)
  | alias_ (a : TableAlias)
  | projected (scope : Scope) (source : Relation)
  | derived (d : Derived)

/-- The subquery through which a projected relation is seen. -/
inductive Scope where
  | derived (d : Derived)
  | unfolded (u : Unfolded)

/-- A subquery used as a table: its form with every column spelled out and labeled, and the query
it was made of. -/
structure Derived where
  name : String
  query : Query
  given : Query

structure Unfolded where
  name : String
  query : Query

inductive Source where
  | relation (r : Relation)
  | join (kind : JoinKind) (left right : Source) (on : List Expr)
  | union (op : SetOp) (left right : Query)

/-- The clauses of a query. The WHERE and HAVING lists hold one predicate at most. The number tells
the query objects apart that have the same clauses. -/
structure Query where
  selectList : List Expr
  isSubSelect : Bool
  sources : List Source
  whereList : List Expr
  groupList : List Expr
  havingList : List Expr
  orderList : List Expr
  limitList : List Expr
  id : Nat

end

def Scope.name : Scope → String
  | .derived d => d.name
  | .unfolded u => u.name

def Relation.name : Relation → String
  | .table t => t.name
  | .alias_ a => a.name
  | .projected scope _ => scope.name
  | .derived d => d.name

/-- The name under which a relation exposes a field: inside a subquery the source's name stands in
front. -/
def Relation.exposedName : Relation → String → String
  | .projected _ source, field => source.name ++ "_" ++ source.exposedName field
  | _, field => field

namespace Column

def plain (owner : Relation) (field : String) : Column :=
  ⟨owner, field, none, false⟩

def name (c : Column) : String :=
  c.owner.exposedName c.field

def projectionName (c : Column) : String :=
  c.label.getD c.name

def aliased (c : Column) (label : String) : Column :=
  { c with label := some label }

def asCorrelated (c : Column) : Column :=
  { c with correlated := true }

/-- Whether the column stands for a whole scalar subquery. -/
def isUnfolded (c : Column) : Bool :=
  match c.owner with
  | .projected (.unfolded _) _ => true
  | _ => false

end Column

namespace Expr

def column? : Expr → Option Column
  | .column c => some c
  | _ => none

/-- Gives an expression a label; a new one takes the place of an old one. -/
def named : Expr → String → Expr
  | .column c, label => .column (c.aliased label)
  | .labeled e _, label => .labeled e label
  | e, label => .labeled e label

/-- The name under which a SELECT list exposes an expression. -/
def outputName? : Expr → Option String
  | .column c => some c.projectionName
  | .labeled _ label => some label
  | _ => none

def isNull : Expr → Bool
  | .value .null => true
  | _ => false

/-- Equality; with the constant NULL it is an IS. -/
def equals (left right : Expr) : Expr :=
  .binary (if right.isNull then .is else .eq) left right

def differs (left right : Expr) : Expr :=
  .binary (if right.isNull then .isNot else .ne) left right

/-- The predicates joined by AND, nested to the left. -/
def conjunction? : List Expr → Option Expr
  | [] => none
  | e :: rest => some (rest.foldl (.binary .and) e)

end Expr

inductive Operand where
  | expr (e : Expr)
  | nativeBool (b : Bool)

def Expr.combine (op : BinaryOp) (left : Expr) : Operand → Except QueryError Expr
  | .expr right => .ok (.binary op left right)
  | .nativeBool b => .error (.nativeBool b)

namespace Source

def isUnion : Source → Bool
  | .union .. => true
  | _ => false

def isJoin : Source → Bool
  | .join .. => true
  | _ => false

end Source

namespace Query

def empty : Query := ⟨[], false, [], [], [], [], [], [], 0⟩

def isUnionFed (q : Query) : Bool :=
  q.sources.any Source.isUnion

def trailingLists (q : Query) : List (List Expr) :=
  [q.whereList, q.groupList, q.havingList, q.orderList, q.limitList]

/-- Whether the query is nothing but a union of two others. -/
def isBareUnion (q : Query) : Bool :=
  q.sources.length = 1 && q.isUnionFed && q.selectList.isEmpty &&
    q.trailingLists.all List.isEmpty

end Query

end QueryTree
