import QueryTree.Bindings
import QueryTree.Proofs.Keyed

/-! What a binding changes: the constant of its key and no other one. -/

namespace QueryTree

namespace Bindings

theorem get?_bind (bindings : Bindings) (key : String) (value : Value) (k : String) :
    (bindings.bind key value).get? k = if k = key then some value else bindings.get? k :=
  Keyed.lookup_insertEntry key value bindings.values.entries k

/-- Both bind the same keys. -/
def SameKeys (bindings other : Bindings) : Prop :=
  ∀ key, (bindings.get? key).isSome = (other.get? key).isSome

/-- The bindings have different constants under one key at most, and both have one there. -/
structure DifferAt (key : String) (bindings other : Bindings) : Prop where
  bound : (bindings.get? key).isSome = true
  bound' : (other.get? key).isSome = true
  same : ∀ k, k ≠ key → bindings.get? k = other.get? k

theorem DifferAt.sameKeys {key : String} {bindings other : Bindings}
    (h : bindings.DifferAt key other) : bindings.SameKeys other := by
  intro k
  by_cases hkey : k = key
  · rw [hkey, h.bound, h.bound']
  · rw [h.same k hkey]

/-- Two constants for one key, beside the same others. -/
theorem differAt_bind (bindings : Bindings) (key : String) (value value' : Value) :
    (bindings.bind key value).DifferAt key (bindings.bind key value') where
  bound := by rw [get?_bind, if_pos rfl]; rfl
  bound' := by rw [get?_bind, if_pos rfl]; rfl
  same k hk := by rw [get?_bind, get?_bind, if_neg hk, if_neg hk]

end Bindings

end QueryTree
