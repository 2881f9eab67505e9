import QueryTree.Builder

/-!
Numbers of tables and queries, and generated names. A query that is built gets a number of its own,
and the number gets a name when it is first asked for. A copy of a query keeps a number that has a
name; otherwise it gets its own, so that it will have a name of its own too.
-/

namespace QueryTree

/-- How many numbers have been handed out, and which of them have names, in the order of the names.
Both are counted without a bound: no program draws the `2 ^ 64` numbers or names after which a
counter of 64 bits would start again. -/
structure Registry where
  issued : Nat := 0
  named : List Nat := []
  deriving DecidableEq

abbrev Naming := StateM Registry

/-- What may fail after it has given out names. -/
abbrev Attempt := ExceptT QueryError Naming

/-- The name in a given place, counted from zero. The places from `2 ^ 64` on, where a counter of 64
bits would repeat its names, are never reached. -/
def generatedName (place : Nat) : String :=
  "_q" ++ toString (place + 1)

namespace Registry

def fresh : Naming Nat := fun registry =>
  (registry.issued, { registry with issued := registry.issued + 1 })

def nameOf (id : Nat) : Naming String := fun registry =>
  match registry.named.idxOf? id with
  | some place => (generatedName place, registry)
  | none => (generatedName registry.named.length, { registry with named := registry.named ++ [id] })

def copyOf (id : Nat) : Naming Nat := fun registry =>
  if registry.named.contains id then (id, registry) else fresh registry

end Registry

def declareTable (name : String) (fields : List String) : Naming Table := do
  return .declare (← Registry.fresh) name fields

mutual

/-- A copy of a source. Queries are copied where a union holds them; what belongs to a relation is
shared. -/
def Source.copy : Source → Naming Source
  | .relation r => pure (.relation r)
  | .join kind left right on => do
    let left ← left.copy
    let right ← right.copy
    return .join kind left right on
  | .union op left right => do
    let left ← left.copy
    let right ← right.copy
    return .union op left right

def copySources : List Source → Naming (List Source)
  | [] => pure []
  | source :: rest => do
    let source ← source.copy
    let rest ← copySources rest
    return source :: rest

def Query.copy : Query → Naming Query
  | ⟨select, sub, sources, filter, group, having, order, limit, id⟩ => do
    let sources ← copySources sources
    let id ← Registry.copyOf id
    return ⟨select, sub, sources, filter, group, having, order, limit, id⟩

end

namespace Query

/-- The clauses of a query in a new object without a name. -/
def anew (q : Query) : Naming Query := do
  let sources ← copySources q.sources
  let id ← Registry.fresh
  return { q with sources := sources, id := id }

def internalName (q : Query) : Naming String :=
  Registry.nameOf q.id

def union (op : SetOp) (left right : Query) : Attempt Query := do
  let q ← Query.combined op left right
  q.anew

def outputColumn (q : Query) (name : String) : Attempt Column := do
  match (q.projection.filterMap Expr.column?).find? (·.projectionName == name) with
  | some c => return c
  | none => throw (.unknownAttribute (← q.internalName) name)

def relation (q : Query) (name : String) : Attempt Relation := do
  match (sourcesRelations q.sources).find? (·.name == name) with
  | some r => return r
  | none => throw (.unknownAttribute (← q.internalName) name)

def derive (q : Query) (name : String) : Naming Derived := do
  let query ← q.subSelect.anew
  let given ← q.copy
  return ⟨name, query, given⟩

/-- The query as a scalar; its generated name serves if none is given. -/
def unfold (q : Query) (name : Option String) : Naming Unfolded := do
  let name ← match name with
    | some name => pure name
    | none => q.internalName
  let query ← q.copy
  return ⟨name, query⟩

end Query

def Derived.unfold (d : Derived) : Naming Unfolded :=
  d.given.unfold (some d.name)

namespace Scope

def query : Scope → Query
  | .derived d => d.query
  | .unfolded u => u.query

/-- A relation inside a subquery, seen from outside. -/
def project (scope : Scope) (name : String) : Attempt Relation :=
  tryCatch (do return .projected scope (← scope.query.relation name))
    fun _ => throw (.unknownAttribute scope.name name)

end Scope

end QueryTree
