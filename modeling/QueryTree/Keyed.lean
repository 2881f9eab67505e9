/-! Values under distinct names, in the order of the names. -/

namespace QueryTree

structure Keyed (α : Type) where
  entries : List (String × α)

namespace Keyed

variable {α : Type}

def empty : Keyed α := ⟨[]⟩

def insertEntry (name : String) (value : α) : List (String × α) → List (String × α)
  | [] => [(name, value)]
  | (other, old) :: rest =>
    if name < other then (name, value) :: (other, old) :: rest
    else if name = other then (name, value) :: rest
    else (other, old) :: insertEntry name value rest

/-- Puts a value under a name, in place of an older one. -/
def insert (map : Keyed α) (name : String) (value : α) : Keyed α :=
  ⟨insertEntry name value map.entries⟩

/-- The entries put in one after the other, so that the last one of a name counts. -/
def ofList (entries : List (String × α)) : Keyed α :=
  entries.foldl (fun map entry => map.insert entry.1 entry.2) empty

def get? (map : Keyed α) (name : String) : Option α :=
  map.entries.lookup name

def size (map : Keyed α) : Nat :=
  map.entries.length

end Keyed

end QueryTree
