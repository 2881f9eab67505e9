import QueryTree.Bindings
import QueryTree.Naming
import QueryTree.Options.Basic

/-!
The surroundings of a piece of SQL while it is written: the scopes of the enclosing queries, the
bindings and the options. What writing changes are the parameters recorded so far and the registry
of names; both stay as they are when writing fails.
-/

namespace QueryTree.Render

/-- One level of a query: the name it has in the level around it, the relation names of its FROM,
and whether columns are written by their output names alone. -/
structure Frame where
  alias_ : Option String
  tables : List String
  bare : Bool

/-- The scopes from the innermost outward. -/
abbrev Scopes := List Frame

namespace Scopes

def isBare : Scopes → Bool
  | [] => false
  | frame :: _ => frame.bare

def path (scopes : Scopes) : String :=
  ".".intercalate (scopes.reverse.filterMap Frame.alias_)

/-- Whether a level around the innermost one reaches a relation. -/
def outerReaches (scopes : Scopes) (table : String) : Bool :=
  scopes.tail.any (·.tables.contains table)

def scopedKey? (scopes : Scopes) (key : String) : Option String :=
  if scopes.path = "" then none else some (scopes.path ++ "." ++ key)

/-- The constant of a placeholder: that of the scoped key, else that of the bare key. -/
def lookUp (scopes : Scopes) (bindings : Bindings) (key : String) : Except QueryError Value :=
  match (scopes.scopedKey? key).bind bindings.get?, bindings.get? key with
  | some value, _ => .ok value
  | none, some value => .ok value
  | none, none => .error (.unboundParameter ((scopes.scopedKey? key).getD key))

end Scopes

structure Setting where
  bindings : Bindings
  options : Options
  scopes : Scopes

structure State where
  params : List Value
  registry : Registry

abbrev Writer := ExceptT QueryError (StateM State)

namespace Setting

def enter (s : Setting) (alias_ : Option String) (tables : List String) (bare : Bool) : Setting :=
  { s with scopes := ⟨alias_, tables, bare⟩ :: s.scopes }

def placeholder (s : Setting) (key : String) : Writer String := do
  let value ← s.scopes.lookUp s.bindings key
  modify fun state => { state with params := state.params ++ [value] }
  return "?"

/-- A column that does not stand for a subquery. Where columns are bare it is its output name;
otherwise it is qualified by its owner, unless one table is all there is. -/
def column (s : Setting) (c : Column) : Except QueryError String :=
  let qualified := c.owner.name ++ "." ++ c.name
  if s.scopes.isBare then .ok c.projectionName
  else if c.correlated then
    if s.options.validate && !s.scopes.outerReaches c.owner.name then
      .error (.missingName c.owner.name .correlated)
    else .ok qualified
  else if s.options.oneTable then .ok c.name
  else .ok qualified

/-- What a SELECT list writes behind an expression. Where columns are bare, the label of a column is
its name already. -/
def label (s : Setting) : Expr → String
  | .column c =>
    match c.label with
    | some label => if s.scopes.isBare then "" else " as " ++ label
    | none => ""
  | .labeled _ label => " as " ++ label
  | _ => ""

def labeled (s : Setting) (exprs : List Expr) (texts : List String) : List String :=
  List.zipWith (fun e text => text ++ s.label e) exprs texts

end Setting

/-- Runs a step that only gives out names. -/
def naming {α : Type} (step : Naming α) : Writer α := do
  let state ← get
  let (a, registry) := step state.registry
  set { state with registry := registry }
  return a

end QueryTree.Render
