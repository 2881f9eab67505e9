import QueryTree.Calendar.Reading
import QueryTree.Error
import QueryTree.Json.Number
import QueryTree.Value.Basic

/-!
Constants and JSON documents: plain documents turned into constants, and a form with a tag for each
kind of constant, from which every constant but a NaN or an infinity can be read back.
-/

namespace QueryTree.Value

open Calendar

def int64? (n : Int) : Option Int64 :=
  if -Nat.pow 2 63 ≤ n ∧ n < Nat.pow 2 63 then some (Int64.ofInt n) else none

def floatOfInt (n : Int) : Float :=
  let magnitude := Decimal.nearest n.natAbs 1
  if n < 0 then -magnitude else magnitude

def ofNumber : Json.Number → Value
  | .int n =>
    match int64? n with
    | some n => .int n
    | none => .float (floatOfInt n)
  | .float x => .float x

mutual

/-- A plain document as a constant. Whole numbers beyond 64 bits become floats, and an object has
no constant. -/
def ofJson : Json → Except QueryError Value
  | .null => .ok .null
  | .bool b => .ok (.bool b)
  | .number n => .ok (ofNumber n)
  | .string s => .ok (.text s)
  | .array items => (ofJsonItems items).map .list
  | .object _ => .error (.invalidBinding .nestedObject)

def ofJsonItems : List Json → Except QueryError (List Value)
  | [] => .ok []
  | item :: rest => do
    let value ← ofJson item
    let values ← ofJsonItems rest
    return value :: values

end

mutual

def tagged : Value → Json
  | .null => .string "Null"
  | .bool b => .object [("Bool", .bool b)]
  | .int n => .object [("Int", .number (.int n.toInt))]
  | .float x => .object [("Float", .number (.float x))]
  | .text s => .object [("Text", .string s)]
  | .date d => .object [("Date", .string d.text)]
  | .dateTime t => .object [("DateTime", .string t.exactText)]
  | .time t => .object [("Time", .string t.exactText)]
  | .uuid u => .object [("Uuid", .string u.text)]
  | .list items => .object [("List", .array (taggedItems items))]

def taggedItems : List Value → List Json
  | [] => []
  | item :: rest => tagged item :: taggedItems rest

end

/-- The content under a tag other than that of a list. -/
def ofTag? : String → Json → Option Value
  | "Null", .null => some .null
  | "Bool", .bool b => some (.bool b)
  | "Int", .number (.int n) => (int64? n).map .int
  | "Float", .number (.int n) => some (.float (floatOfInt n))
  | "Float", .number (.float x) => some (.float x)
  | "Text", .string s => some (.text s)
  | "Date", .string s => (Date.ofText? s).map .date
  | "DateTime", .string s => (DateTime.ofText? s).map .dateTime
  | "Time", .string s => (TimeOfDay.ofText? s).map .time
  | "Uuid", .string s => (Uuid.ofText? s).map .uuid
  | _, _ => none

mutual

/-- The constant of a tagged form: the word for NULL, or an object with one tag. -/
def ofTagged? : Json → Option Value
  | .string s => if s = "Null" then some .null else none
  | .object [(tag, .array items)] =>
    if tag = "List" then (ofTaggedItems? items).map .list else none
  | .object [(tag, content)] => ofTag? tag content
  | _ => none

def ofTaggedItems? : List Json → Option (List Value)
  | [] => some []
  | item :: rest => do
    let value ← ofTagged? item
    let values ← ofTaggedItems? rest
    return value :: values

end

end QueryTree.Value
