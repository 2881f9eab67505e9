import QueryTree.Json.Form
import QueryTree.Keyed
import QueryTree.Value.Json

/-!
Constants for placeholders. A key may be a path of scopes in front of a placeholder's own key; the
bare key serves every scope without a constant of its own.
-/

namespace QueryTree

structure Bindings where
  values : Keyed Value

namespace Bindings

def empty : Bindings := ⟨.empty⟩

def bind (bindings : Bindings) (key : String) (value : Value) : Bindings :=
  ⟨bindings.values.insert key value⟩

def ofList (entries : List (String × Value)) : Bindings :=
  ⟨.ofList entries⟩

def get? (bindings : Bindings) (key : String) : Option Value :=
  bindings.values.get? key

def size (bindings : Bindings) : Nat :=
  bindings.values.size

instance : BEq Bindings where
  beq a b := a.values.entries == b.values.entries

def ofObject (members : List (String × Json)) : Except QueryError Bindings := do
  let entries ← (Keyed.ofList members).entries.mapM fun entry =>
    (Value.ofJson entry.2).map (entry.1, ·)
  return ofList entries

def ofJsonText (text : String) : Except QueryError Bindings :=
  match Json.ofText? text with
  | some (.object members) => ofObject members
  | _ => .error (.invalidBinding .notAnObject)

def toJson (bindings : Bindings) : Json :=
  .object [("values", .object (bindings.values.entries.map fun entry =>
    (entry.1, entry.2.tagged)))]

def ofTaggedValues? : Json → Option Bindings
  | .object members =>
    (members.mapM fun member : String × Json =>
      (Value.ofTagged? member.2).map (member.1, ·)).map ofList
  | _ => none

/-- Reads back the text of what `toJson` writes. Other members of the object are passed over; the
values may also stand alone in an array. -/
def ofText? (text : String) : Option Bindings :=
  match Json.namedInText? "values" text, Json.ofText? text with
  | some [values], _ => ofTaggedValues? values
  | none, some (.array [values]) => ofTaggedValues? values
  | _, _ => none

end Bindings

end QueryTree
