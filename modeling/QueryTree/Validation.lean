import QueryTree.Builder
import QueryTree.Text.EditDistance

/-!
The checks made on one level of a query against its own FROM clause. Names that FROM reaches must
be distinct, the owners of SELECT and WHERE columns must be reached, and the columns of SELECT and
ON must be exposed. A level fed by a union reaches no relation; there SELECT and WHERE may only
refer to columns that a side of the union puts out.
-/

namespace QueryTree

def Column.isLocal (c : Column) : Bool :=
  !c.correlated && !c.isUnfolded

/-- The same field of the same owner, whatever the labels. -/
def Column.sameField (a b : Column) : Bool :=
  a.owner == b.owner && a.name == b.name

/-- The first element that equals an earlier one. -/
def firstRepeated : List String → List String → Option String
  | _, [] => none
  | seen, name :: rest =>
    if seen.contains name then some name else firstRepeated (name :: seen) rest

/-- How far a candidate may be from a text of the given size to be taken for a slip. -/
def slipDistance (size : Nat) : Nat :=
  if size ≤ 2 then 0 else if size ≤ 5 then 2 else 3

/-- The nearest candidate, of several the first, if it is near enough. -/
def nearestName? (text : String) (candidates : List String) : Option String :=
  let near := candidates.filter fun c => Text.editDistance text c ≤ slipDistance text.utf8ByteSize
  near.foldl (fun best c =>
    match best with
    | none => some c
    | some b => if Text.editDistance text c < Text.editDistance text b then some c else some b) none

namespace Query

def reachableNames (q : Query) : List String :=
  (sourcesRelations q.sources).map Relation.name

def unionOutputs (q : Query) : Option (List Column) :=
  q.sources.findSome? fun
    | .union _ left right => some ((left.projection ++ right.projection).filterMap Expr.column?)
    | _ => none

/-- Whether a column of this level can be read from FROM. -/
def reaches (q : Query) (c : Column) : Bool :=
  match q.unionOutputs with
  | some outputs => outputs.any (·.sameField c)
  | none => q.reachableNames.contains c.owner.name

def checkOwners (q : Query) (place : Place) (exprs : List Expr) : Except QueryError Unit :=
  match (distinctColumns exprs).find? fun c => c.isLocal && !q.reaches c with
  | some c => .error (.missingName c.owner.name place)
  | none => .ok ()

/-- Distinct names in FROM, then the owners of SELECT and WHERE. -/
def checkTables (q : Query) : Except QueryError Unit := do
  match firstRepeated [] q.reachableNames with
  | some name => throw (.conflictingName name .repeated)
  | none =>
    q.checkOwners .select q.selectList
    q.checkOwners .filter q.whereList

def exposureReferences (q : Query) : List Column :=
  distinctColumns q.selectList ++
    (sourcesOnPredicates q.sources).flatMap fun on => distinctColumns [on]

/-- Every column of SELECT and ON is exposed by FROM under its name. -/
def checkColumns (q : Query) : Except QueryError Unit :=
  if q.isUnionFed then .ok ()
  else
    let available := sourcesColumnNames q.sources
    match q.exposureReferences.find? fun c => c.isLocal && !available.contains c.name with
    | some c =>
      .error (.conflictingName c.name
        (.hidden c.owner.name available (nearestName? c.name available)))
    | none => .ok ()

def validate (q : Query) : Except QueryError Unit := do
  q.checkTables
  q.checkColumns

end Query

end QueryTree
