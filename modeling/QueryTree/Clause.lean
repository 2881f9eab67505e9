import QueryTree.Tree.Placeholders
import QueryTree.Tree.References

/-! Clauses of a query, and how items are added to them. -/

namespace QueryTree

inductive ClauseKind where
  | select
  | subSelect
  | from_
  | filter
  | groupBy
  | having
  | orderBy
  | limit
  deriving DecidableEq

namespace ClauseKind

def keyword : ClauseKind → String
  | .select | .subSelect => "SELECT"
  | .from_ => "FROM"
  | .filter => "WHERE"
  | .groupBy => "GROUP BY"
  | .having => "HAVING"
  | .orderBy => "ORDER BY"
  | .limit => "LIMIT"

/-- Whether a clause of this kind holds one predicate, into which all items are folded. -/
def isPredicate : ClauseKind → Bool
  | .filter | .having => true
  | _ => false

end ClauseKind

structure Clause (α : Type) where
  kind : ClauseKind
  items : List α

namespace Clause

variable {α : Type}

instance [BEq α] : BEq (Clause α) where
  beq a b := a.kind == b.kind && a.items == b.items

def empty (kind : ClauseKind) : Clause α := ⟨kind, []⟩

def extended (clause : Clause α) (items : List α) (replace : Bool) : Clause α :=
  { clause with items := (if replace then [] else clause.items) ++ items }

def predicate? (clause : Clause α) : Option α :=
  clause.items.head?

/-- Adds expressions: to a clause of one predicate by AND, to every other behind its items. -/
def extendedExprs (clause : Clause Expr) (items : List Expr) (replace : Bool) : Clause Expr :=
  if clause.kind.isPredicate then
    let base := if replace then none else clause.predicate?
    { clause with items := (Expr.conjunction? (base.toList ++ items)).toList }
  else clause.extended items replace

def columns (clause : Clause Expr) : List Column :=
  distinctColumns clause.items

def env (clause : Clause Expr) : Env :=
  .ofKeys (exprsKeys clause.items)

end Clause

end QueryTree
