import QueryTree.Tree.Basic

/-! The keys of the placeholders that a tree holds, nested queries included. -/

namespace QueryTree

structure Env where
  keys : List String
  deriving DecidableEq

namespace Env

def insertKey (key : String) : List String → List String
  | [] => [key]
  | other :: rest =>
    if key < other then key :: other :: rest
    else if key = other then other :: rest
    else other :: insertKey key rest

def ofKeys (keys : List String) : Env :=
  ⟨keys.foldl (fun found key => insertKey key found) []⟩

def merged (envs : List Env) : Env :=
  ofKeys (envs.flatMap Env.keys)

def contains (env : Env) (key : String) : Bool :=
  env.keys.contains key

end Env

mutual

/-- The keys of an expression as often as they occur. A column has none, even if it stands for a
subquery. -/
def Expr.keys : Expr → List String
  | .value _ => []
  | .param key => [key]
  | .star => []
  | .column _ => []
  | .unary _ operand => operand.keys
  | .binary _ left right => left.keys ++ right.keys
  | .between subject low high => subject.keys ++ low.keys ++ high.keys
  | .call _ args => exprsKeys args
  | .list items => exprsKeys items
  | .labeled e _ => e.keys
  | .subquery ⟨_, query⟩ => query.keys

def exprsKeys : List Expr → List String
  | [] => []
  | e :: rest => e.keys ++ exprsKeys rest

def Source.keys : Source → List String
  | .relation (.derived ⟨_, query, _⟩) => query.keys
  | .relation _ => []
  | .join _ left right on => left.keys ++ right.keys ++ exprsKeys on
  | .union _ left right => left.keys ++ right.keys

def sourcesKeys : List Source → List String
  | [] => []
  | source :: rest => source.keys ++ sourcesKeys rest

def Query.keys : Query → List String
  | ⟨select, _, sources, filter, group, having, order, limit, _⟩ =>
    exprsKeys select ++ sourcesKeys sources ++ exprsKeys filter ++ exprsKeys group ++
      exprsKeys having ++ exprsKeys order ++ exprsKeys limit

end

def Expr.env (e : Expr) : Env := .ofKeys e.keys

def Query.env (q : Query) : Env := .ofKeys q.keys

end QueryTree
