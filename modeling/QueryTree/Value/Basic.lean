import QueryTree.Calendar.Time
import QueryTree.Decimal.Layout
import QueryTree.Text.Quoted
import QueryTree.Uuid

/-! The constants of a query, their equality and their SQL text. -/

namespace QueryTree

open Calendar

inductive Value where
  | null
  | bool (b : Bool)
  | int (n : Int64)
  | float (x : Float)
  | text (s : String)
  | date (d : Date)
  | dateTime (t : DateTime)
  | time (t : TimeOfDay)
  | uuid (u : Uuid)
  | list (items : List Value)

namespace Value

mutual

/-- Equality of constants. Floats compare as numbers do: a NaN differs from itself, the zeros of
both signs are equal. -/
def same : Value → Value → Bool
  | .null, .null => true
  | .bool a, .bool b => a == b
  | .int a, .int b => a == b
  | .float a, .float b => a == b
  | .text a, .text b => a == b
  | .date a, .date b => a == b
  | .dateTime a, .dateTime b => a == b
  | .time a, .time b => a == b
  | .uuid a, .uuid b => a == b
  | .list a, .list b => sameItems a b
  | _, _ => false

def sameItems : List Value → List Value → Bool
  | [], [] => true
  | a :: as, b :: bs => same a b && sameItems as bs
  | _, _ => false

end

instance : BEq Value := ⟨same⟩

/-- Floats as literals: the shortest digits, a tie away from zero, positional from `1e-4` on and
below `1e16`. -/
def floatLayout : Decimal.Layout := ⟨-4, 15, false, .away⟩

mutual

/-- A constant as SQL writes it. A float that is no number or infinite has no literal and becomes
NULL. Only a text can have quotes of its own. -/
def literal : Value → String
  | .null => "NULL"
  | .bool b => if b then "1" else "0"
  | .int n => toString n.toInt
  | .float x => (floatLayout.text? x).getD "NULL"
  | .text s => Text.quoted s
  | .date d => "'" ++ d.text ++ "'"
  | .dateTime t => "'" ++ t.text ++ "'"
  | .time t => "'" ++ t.text ++ "'"
  | .uuid u => "'" ++ u.text ++ "'"
  | .list items => "(" ++ ", ".intercalate (literals items) ++ ")"

def literals : List Value → List String
  | [] => []
  | item :: rest => literal item :: literals rest

end

end Value

end QueryTree
