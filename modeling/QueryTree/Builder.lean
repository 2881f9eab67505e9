import QueryTree.Clause

/-! Queries built by adding to their clauses. Each step gives a new query and leaves the old one. -/

namespace QueryTree

/-- The clauses of a query that hold expressions. -/
inductive Slot where
  | select
  | filter
  | groupBy
  | having
  | orderBy
  | limit
  deriving DecidableEq

namespace Query

def selectClause (q : Query) : Clause Expr :=
  ⟨if q.isSubSelect then .subSelect else .select, q.selectList⟩

def fromClause (q : Query) : Clause Source :=
  ⟨.from_, q.sources⟩

def clause (q : Query) : Slot → Clause Expr
  | .select => q.selectClause
  | .filter => ⟨.filter, q.whereList⟩
  | .groupBy => ⟨.groupBy, q.groupList⟩
  | .having => ⟨.having, q.havingList⟩
  | .orderBy => ⟨.orderBy, q.orderList⟩
  | .limit => ⟨.limit, q.limitList⟩

def trailingClauses (q : Query) : List (Clause Expr) :=
  [.filter, .groupBy, .having, .orderBy, .limit].map q.clause

def withItems (q : Query) (slot : Slot) (items : List Expr) : Query :=
  match slot with
  | .select => { q with selectList := items }
  | .filter => { q with whereList := items }
  | .groupBy => { q with groupList := items }
  | .having => { q with havingList := items }
  | .orderBy => { q with orderList := items }
  | .limit => { q with limitList := items }

/-- Adds expressions to a clause, or puts them in place of its items. -/
def extend (q : Query) (slot : Slot) (items : List Expr) (replace : Bool) : Query :=
  q.withItems slot ((q.clause slot).extendedExprs items replace).items

def extendSources (q : Query) (sources : List Source) (replace : Bool) : Query :=
  { q with sources := (q.fromClause.extended sources replace).items }

/-- A query fed by the union of two others. They must put out equally many columns. -/
def combined (op : SetOp) (left right : Query) : Except QueryError Query :=
  if left.arity = right.arity then .ok (empty.extendSources [.union op left right] false)
  else .error (.unequalArity left.arity right.arity)

end Query

inductive BuildStep where
  | exprs (slot : Slot) (replace : Bool) (items : List Expr)
  | sources (replace : Bool) (items : List Source)

def Query.build (q : Query) : BuildStep → Query
  | .exprs slot replace items => q.extend slot items replace
  | .sources replace items => q.extendSources items replace

end QueryTree
