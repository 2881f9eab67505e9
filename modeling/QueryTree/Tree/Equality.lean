import QueryTree.Tree.Basic

/-!
Equality of trees by structure, in which the numbers of queries do not count. As floats are compared
like numbers, a tree with a NaN in it differs from itself.
-/

namespace QueryTree

mutual

def Expr.same : Expr → Expr → Bool
  | .value a, .value b => a == b
  | .param a, .param b => a == b
  | .star, .star => true
  | .column a, .column b => a.same b
  | .unary op a, .unary op' b => op == op' && a.same b
  | .binary op a b, .binary op' a' b' => op == op' && a.same a' && b.same b'
  | .between a b c, .between a' b' c' => a.same a' && b.same b' && c.same c'
  | .call name as, .call name' bs => name == name' && sameExprs as bs
  | .list as, .list bs => sameExprs as bs
  | .labeled a label, .labeled b label' => a.same b && label == label'
  | .subquery a, .subquery b => a.same b
  | _, _ => false

def sameExprs : List Expr → List Expr → Bool
  | [], [] => true
  | a :: as, b :: bs => a.same b && sameExprs as bs
  | _, _ => false

def Column.same : Column → Column → Bool
  | ⟨owner, field, label, correlated⟩, other =>
    owner.same other.owner && field == other.field && label == other.label &&
      correlated == other.correlated

def Relation.same : Relation → Relation → Bool
  | .table a, .table b => a == b
  | .alias_ a, .alias_ b => a == b
  | .projected scope source, .projected scope' source' => scope.same scope' && source.same source'
  | .derived a, .derived b => a.same b
  | _, _ => false

def Scope.same : Scope → Scope → Bool
  | .derived a, .derived b => a.same b
  | .unfolded a, .unfolded b => a.same b
  | _, _ => false

def Derived.same : Derived → Derived → Bool
  | ⟨name, query, given⟩, other =>
    name == other.name && query.same other.query && given.same other.given

def Unfolded.same : Unfolded → Unfolded → Bool
  | ⟨name, query⟩, other => name == other.name && query.same other.query

def Source.same : Source → Source → Bool
  | .relation a, .relation b => a.same b
  | .join kind l r on, .join kind' l' r' on' =>
    kind == kind' && l.same l' && r.same r' && sameExprs on on'
  | .union op l r, .union op' l' r' => op == op' && l.same l' && r.same r'
  | _, _ => false

def sameSources : List Source → List Source → Bool
  | [], [] => true
  | a :: as, b :: bs => a.same b && sameSources as bs
  | _, _ => false

def Query.same : Query → Query → Bool
  | ⟨select, sub, sources, filter, group, having, order, limit, _⟩, other =>
    sub == other.isSubSelect && sameExprs select other.selectList &&
      sameSources sources other.sources && sameExprs filter other.whereList &&
      sameExprs group other.groupList && sameExprs having other.havingList &&
      sameExprs order other.orderList && sameExprs limit other.limitList

end

instance : BEq Expr := ⟨Expr.same⟩
instance : BEq Column := ⟨Column.same⟩
instance : BEq Relation := ⟨Relation.same⟩
instance : BEq Scope := ⟨Scope.same⟩
instance : BEq Derived := ⟨Derived.same⟩
instance : BEq Unfolded := ⟨Unfolded.same⟩
instance : BEq Source := ⟨Source.same⟩
instance : BEq Query := ⟨Query.same⟩

end QueryTree
