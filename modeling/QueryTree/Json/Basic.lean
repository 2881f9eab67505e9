import QueryTree.Decimal.Layout

/-! Documents of the JSON format and their compact text. -/

namespace QueryTree

/-- A number written without fraction and exponent is a whole number, every other a float. -/
inductive Json.Number where
  | int (n : Int)
  | float (x : Float)

/-- A document. The members of an object keep their order, and a name may occur twice. -/
inductive Json where
  | null
  | bool (b : Bool)
  | number (n : Json.Number)
  | string (s : String)
  | array (items : List Json)
  | object (members : List (String × Json))
  deriving Inhabited

namespace Json

/-- Floats in a document: the shortest digits, a tie to the even one, positional from `1e-5` on and
below `1e16`. -/
def floatLayout : Decimal.Layout := ⟨-5, 15, true, .toEven⟩

def Number.compact : Number → String
  | .int n => toString n
  | .float x => (floatLayout.text? x).getD "null"

def escape (c : Char) : List Char :=
  if c = '"' then ['\\', '"']
  else if c = '\\' then ['\\', '\\']
  else if c = '\n' then ['\\', 'n']
  else if c = '\r' then ['\\', 'r']
  else if c = '\t' then ['\\', 't']
  else if c = '\x08' then ['\\', 'b']
  else if c = '\x0c' then ['\\', 'f']
  else if c.toNat < 0x20 then '\\' :: 'u' :: Text.hex 4 c.toNat
  else [c]

def compactText (s : String) : String :=
  String.ofList ('"' :: s.toList.flatMap escape ++ ['"'])

mutual

def compact : Json → String
  | .null => "null"
  | .bool b => if b then "true" else "false"
  | .number n => n.compact
  | .string s => compactText s
  | .array items => "[" ++ ",".intercalate (compactItems items) ++ "]"
  | .object members => "\x7b" ++ ",".intercalate (compactMembers members) ++ "\x7d"

def compactItems : List Json → List String
  | [] => []
  | item :: rest => item.compact :: compactItems rest

def compactMembers : List (String × Json) → List String
  | [] => []
  | (name, value) :: rest => (compactText name ++ ":" ++ value.compact) :: compactMembers rest

end

def member? (name : String) : List (String × Json) → Option Json
  | [] => none
  | (other, value) :: rest =>
    match member? name rest with
    | some later => some later
    | none => if other = name then some value else none

end Json

end QueryTree
