import QueryTree.Json.Basic
import QueryTree.Operator

/-! Operators as JSON documents, each under its name. -/

namespace QueryTree

def UnaryOp.names : List (String × UnaryOp) :=
  [("Not", .not), ("Asc", .asc), ("Desc", .desc)]

def BinaryOp.names : List (String × BinaryOp) :=
  [("Add", .add), ("Sub", .sub), ("Mul", .mul), ("Div", .div), ("Eq", .eq), ("Ne", .ne),
   ("Gt", .gt), ("Lt", .lt), ("Gte", .gte), ("Lte", .lte), ("And", .and), ("Or", .or),
   ("Is", .is), ("IsNot", .isNot), ("In", .in_), ("NotIn", .notIn), ("Like", .like),
   ("ILike", .ilike)]

def JoinKind.names : List (String × JoinKind) :=
  [("Inner", .inner), ("LeftOuter", .leftOuter), ("RightOuter", .rightOuter),
   ("FullOuter", .fullOuter), ("Cross", .cross)]

def SetOp.names : List (String × SetOp) :=
  [("Union", .union), ("UnionAll", .unionAll)]

/-- The name in a document: a string, or the only member of an object, with null as its value. -/
def Json.name? : Json → Option String
  | .string name => some name
  | .object [(name, .null)] => some name
  | _ => none

def Json.named? {α : Type} (names : List (String × α)) (document : Json) : Option (String × α) := do
  let name ← document.name?
  return (name, ← names.lookup name)

end QueryTree
