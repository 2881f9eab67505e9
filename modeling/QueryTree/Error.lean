/-! What can go wrong when queries are built, checked and rendered. -/

namespace QueryTree

inductive Conflict where
  | repeated
  | hidden (owner : String) (available : List String) (hint : Option String)
  deriving DecidableEq

/-- Where a relation is referred to that cannot be reached. -/
inductive Place where
  | select
  | filter
  | correlated
  deriving DecidableEq

inductive BindingFault where
  | notAnObject
  | nestedObject
  deriving DecidableEq

inductive QueryError where
  | conflictingName (name : String) (conflict : Conflict)
  | missingName (name : String) (place : Place)
  | unequalArity (left right : Nat)
  | nativeBool (value : Bool)
  | unknownAttribute (owner name : String)
  | unboundParameter (key : String)
  | invalidBinding (fault : BindingFault)
  | invalidOptions
  deriving DecidableEq

def Conflict.message : Conflict → String
  | .repeated => "table appears more than once in FROM; alias one of them"
  | .hidden owner available hint =>
    "column of '" ++ owner ++ "' is not exposed by FROM; available: " ++
      ", ".intercalate available ++
      match hint with
      | some name => "; did you mean '" ++ name ++ "'?"
      | none => ""

def Place.text : Place → String
  | .select => "SELECT"
  | .filter => "WHERE"
  | .correlated => "correlated reference"

def BindingFault.message : BindingFault → String
  | .notAnObject => "expected a JSON object: "
  | .nestedObject => "objects cannot be bound as parameter values"

def QueryError.message : QueryError → String
  | .conflictingName name conflict =>
    "Conflict name: '" ++ name ++ "' (" ++ conflict.message ++ ")"
  | .missingName name place =>
    "Missing name: '" ++ name ++ "' is not reachable from FROM (referenced in " ++ place.text ++ ")"
  | .unequalArity left right =>
    "Invalid arity: union operands expose " ++ toString left ++ " and " ++ toString right ++
      " columns"
  | .nativeBool value =>
    "Invalid combination: native boolean `" ++ toString value ++
      "` used where an expression was required"
  | .unknownAttribute owner name => "'" ++ owner ++ "' has no attribute '" ++ name ++ "'"
  | .unboundParameter key => "Unbound parameter: '" ++ key ++ "'"
  | .invalidBinding fault => "Invalid binding: " ++ fault.message
  | .invalidOptions => "Configuration error: "

def QueryError.isValidation : QueryError → Bool
  | .conflictingName .. | .missingName .. => true
  | _ => false

end QueryTree
