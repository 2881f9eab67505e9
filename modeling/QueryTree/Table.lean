import QueryTree.Text.Blank

/-!
Declared tables and tables under another name. A number keeps tables apart that were declared with
the same name and fields. Fields are looked up in the list itself: the index from a field to its
place, which only makes that faster, is left out.
-/

namespace QueryTree

structure Table where
  id : Nat
  name : String
  fields : List String
  deriving DecidableEq

structure TableAlias where
  name : String
  table : Table
  deriving DecidableEq

namespace Table

/-- A table with the given fields, each in its first place only. -/
def declare (id : Nat) (name : String) (fields : List String) : Table :=
  ⟨id, name, fields.eraseDups⟩

/-- The fields of a template such as `id, name` or `id name`. -/
def templateFields (template : String) : List String :=
  Text.words (fun c => c = ',' || Text.isBlank c) template

def hasField (table : Table) (field : String) : Bool :=
  table.fields.contains field

def alias_ (table : Table) (name : String) : TableAlias :=
  ⟨name, table⟩

end Table

end QueryTree
