import Mathlib.Data.List.Sort
import Mathlib.Data.String.Basic
import QueryTree.Proofs.Tree.Copy
import QueryTree.Tree.Placeholders

/-!
The keys of a tree. An environment depends on which keys there are, and what a query puts out holds
no key that the query does not hold in its SELECT list or in its sources.
-/

namespace QueryTree

namespace Env

theorem mem_insertKey_iff {key k : String} (keys : List String) :
    k ∈ insertKey key keys ↔ k = key ∨ k ∈ keys := by
  induction keys with
  | nil => simp [insertKey]
  | cons other rest ih =>
    simp only [insertKey]
    split
    · simp
    · split
      next heq => simp [heq]
      next => rw [List.mem_cons, ih, List.mem_cons, or_left_comm]

/-- A key is put where it belongs in the order. -/
theorem pairwise_insertKey {keys : List String} (h : keys.Pairwise (· < ·)) (key : String) :
    (insertKey key keys).Pairwise (· < ·) := by
  induction keys with
  | nil => exact List.pairwise_singleton _ _
  | cons other rest ih =>
    obtain ⟨hother, hrest⟩ := List.pairwise_cons.mp h
    rw [insertKey]
    split
    next hlt =>
      refine List.pairwise_cons.mpr ⟨fun k hk => ?_, h⟩
      rcases List.mem_cons.mp hk with rfl | hk
      · exact hlt
      · exact hlt.trans (hother k hk)
    next hge =>
      split
      next => exact h
      next hne =>
        have hgt : other < key := lt_of_le_of_ne (not_lt.mp hge) (Ne.symm hne)
        refine List.pairwise_cons.mpr ⟨fun k hk => ?_, ih hrest⟩
        rcases (mem_insertKey_iff rest).mp hk with rfl | hk
        · exact hgt
        · exact hother k hk

theorem mem_foldl_insertKey_iff {keys found : List String} {k : String} :
    k ∈ keys.foldl (fun found key => insertKey key found) found ↔ k ∈ keys ∨ k ∈ found := by
  induction keys generalizing found with
  | nil => simp
  | cons key rest ih =>
    rw [List.foldl_cons, ih, mem_insertKey_iff, List.mem_cons, or_left_comm, or_assoc]

theorem mem_ofKeys_iff {keys : List String} {k : String} : k ∈ (ofKeys keys).keys ↔ k ∈ keys := by
  simp [ofKeys, mem_foldl_insertKey_iff]

theorem contains_ofKeys_iff {keys : List String} {k : String} :
    (ofKeys keys).contains k = true ↔ k ∈ keys := by
  rw [contains, List.contains_iff_mem, mem_ofKeys_iff]

theorem pairwise_ofKeys (keys : List String) : (ofKeys keys).keys.Pairwise (· < ·) := by
  suffices h : ∀ found : List String, found.Pairwise (· < ·) →
      (keys.foldl (fun found key => insertKey key found) found).Pairwise (· < ·) from h [] .nil
  induction keys with
  | nil => exact fun _ h => h
  | cons key rest ih => exact fun found h => ih _ (pairwise_insertKey h key)

/-- An environment depends on which keys there are, and not on how often or in what order. -/
theorem ofKeys_congr {keys keys' : List String} (h : ∀ k, k ∈ keys ↔ k ∈ keys') :
    ofKeys keys = ofKeys keys' := by
  have hkeys : (ofKeys keys).keys = (ofKeys keys').keys :=
    (pairwise_ofKeys keys).eq_of_mem_iff (pairwise_ofKeys keys') fun k => by
      rw [mem_ofKeys_iff, mem_ofKeys_iff, h]
  exact congrArg Env.mk hkeys

end Env

@[simp] theorem exprsKeys_map_column (columns : List Column) :
    exprsKeys (columns.map .column) = [] := by
  induction columns with
  | nil => rfl
  | cons c rest ih => rw [List.map_cons, exprsKeys, ih, Expr.keys, List.append_nil]

/-- Items with the same keys have the same keys together. -/
theorem exprsKeys_map {f : Expr → Expr} (hf : ∀ e, (f e).keys = e.keys) (es : List Expr) :
    exprsKeys (es.map f) = exprsKeys es := by
  induction es with
  | nil => rfl
  | cons e rest ih => rw [List.map_cons, exprsKeys, exprsKeys, hf, ih]

namespace Query

theorem mem_keys_iff {q : Query} {k : String} :
    k ∈ q.keys ↔ k ∈ exprsKeys q.selectList ∨ k ∈ sourcesKeys q.sources ∨
      ∃ es ∈ q.trailingLists, k ∈ exprsKeys es := by
  cases q
  simp [keys, trailingLists]

end Query

mutual

theorem keys_unionProjection : (sources : List Source) →
    ∀ items ∈ unionProjection sources, exprsKeys items ⊆ sourcesKeys sources
  | [], _, h => nomatch h
  | .relation r :: rest, items, h =>
    List.subset_append_of_subset_right _ (keys_unionProjection rest items h)
  | .join _ _ _ _ :: rest, items, h =>
    List.subset_append_of_subset_right _ (keys_unionProjection rest items h)
  | .union op left right :: rest, items, h => by
    obtain rfl : left.projection = items := Option.some.inj h
    rw [sourcesKeys, Source.keys, List.append_assoc]
    exact List.subset_append_of_subset_left _ left.keys_projection

/-- What a query puts out holds no key that the query does not hold. -/
theorem Query.keys_projection : (q : Query) → exprsKeys q.projection ⊆ q.keys
  | ⟨select, sub, sources, filter, group, having, order, limit, id⟩ => by
    intro k hk
    rw [Query.mem_keys_iff]
    rw [Query.projection] at hk
    split at hk
    · split at hk
      next items hitems => exact Or.inr (Or.inl (keys_unionProjection sources items hitems hk))
      next => simp at hk
    · exact Or.inl hk

end

mutual

theorem Source.keys_unnumbered (source : Source) : source.unnumbered.keys = source.keys := by
  cases source with
  | relation r => rw [Source.unnumbered]
  | join kind left right on =>
    rw [Source.unnumbered, Source.keys, Source.keys, left.keys_unnumbered, right.keys_unnumbered]
  | union op left right =>
    rw [Source.unnumbered, Source.keys, Source.keys, left.keys_unnumbered, right.keys_unnumbered]

theorem sourcesKeys_unnumbered : (sources : List Source) →
    sourcesKeys (sourcesUnnumbered sources) = sourcesKeys sources
  | [] => rfl
  | source :: rest => by
    rw [sourcesUnnumbered, sourcesKeys, sourcesKeys, source.keys_unnumbered,
      sourcesKeys_unnumbered rest]

theorem Query.keys_unnumbered : (q : Query) → q.unnumbered.keys = q.keys
  | ⟨select, sub, sources, filter, group, having, order, limit, id⟩ => by
    rw [Query.unnumbered, Query.keys, Query.keys, sourcesKeys_unnumbered]

end

end QueryTree
