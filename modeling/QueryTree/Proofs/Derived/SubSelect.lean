import QueryTree.Proofs.Derived.FlatNames
import QueryTree.Proofs.Tree.Keys
import QueryTree.Proofs.Union.ReadBack

/-!
The table form of a query as a rewriting. It changes the columns without a label that the query puts
out and nothing else, and done once more it changes nothing at all.
-/

namespace QueryTree

namespace Expr

/-- What becomes of an item in the table form of a query, which is fed by a union or not. -/
structure Respelled (fed : Bool) (e e' : Expr) : Prop where
  kept : (∀ c, e = .column c → c.label ≠ none) → e' = e
  relabeled : ∀ c, e = .column c → c.label = none →
    e'.outputName? = some (c.owner.name ++ "_" ++ c.name) ∧
      e' = if fed then .labeled (.column c) (c.owner.name ++ "_" ++ c.name)
        else .column (c.aliased (c.owner.name ++ "_" ++ c.name))

/-- An item of the table form of a query. -/
def respelled (fed : Bool) (e : Expr) : Expr :=
  if fed then e.overUnion else e.flattened

variable {fed : Bool}

theorem respelled_spec (e : Expr) : Respelled fed e (e.respelled fed) := by
  cases e with
  | column c =>
    obtain ⟨owner, field, label, correlated⟩ := c
    cases label with
    | none =>
      refine ⟨fun h => absurd rfl (h _ rfl), ?_⟩
      rintro c ⟨⟩ -
      cases fed <;> exact ⟨rfl, rfl⟩
    | some l =>
      refine ⟨fun _ => by cases fed <;> rfl, ?_⟩
      rintro c ⟨⟩ ⟨⟩
  | _ => exact ⟨fun _ => by cases fed <;> rfl, by rintro c ⟨⟩⟩

@[simp] theorem respelled_respelled (e : Expr) :
    (e.respelled fed).respelled fed = e.respelled fed := by
  cases e with
  | column c =>
    obtain ⟨owner, field, label, correlated⟩ := c
    cases label <;> cases fed <;> rfl
  | _ => cases fed <;> rfl

@[simp] theorem keys_respelled (e : Expr) : (e.respelled fed).keys = e.keys := by
  cases e with
  | column c =>
    obtain ⟨owner, field, label, correlated⟩ := c
    cases label <;> cases fed <;> rfl
  | _ => cases fed <;> rfl

end Expr

namespace Query

variable (q : Query)

theorem selectList_subSelect_eq :
    q.subSelect.selectList = q.projection.map (Expr.respelled q.isUnionFed) := by
  cases hfed : q.isUnionFed with
  | true => exact selectList_subSelect_of_isUnionFed hfed
  | false => exact selectList_subSelect hfed

theorem projection_subSelect_eq :
    q.subSelect.projection = q.projection.map (Expr.respelled q.isUnionFed) :=
  projection_subSelect_of_selectList q.selectList_subSelect_eq

theorem isUnionFed_subSelect : q.subSelect.isUnionFed = q.isUnionFed :=
  rfl

theorem subSelect_subSelect : q.subSelect.subSelect = q.subSelect := by
  have hselect : q.subSelect.subSelect.selectList = q.subSelect.selectList := by
    rw [selectList_subSelect_eq, projection_subSelect_eq, isUnionFed_subSelect, List.map_map,
      selectList_subSelect_eq]
    exact List.map_congr_left fun e _ => e.respelled_respelled
  calc q.subSelect.subSelect
      = { q.subSelect with selectList := q.subSelect.subSelect.selectList } := rfl
    _ = q.subSelect := by rw [hselect]; rfl

/-- What is put out is all that the table form adds to the SELECT list, and it brings no new
key. -/
theorem mem_keys_subSelect_iff {k : String} : k ∈ q.subSelect.keys ↔ k ∈ q.keys := by
  have hitems : exprsKeys q.subSelect.selectList = exprsKeys q.projection := by
    rw [selectList_subSelect_eq]
    exact exprsKeys_map (fun e => e.keys_respelled) q.projection
  have hselected : k ∈ exprsKeys q.selectList → k ∈ exprsKeys q.projection := by
    intro hk
    by_cases hselect : q.selectList = []
    · rw [hselect] at hk
      cases hk
    · rwa [projection_of_selectList hselect]
  rw [mem_keys_iff, hitems]
  constructor
  · rintro (hk | hk)
    · exact q.keys_projection hk
    · exact mem_keys_iff.mpr (Or.inr hk)
  · intro hk
    exact (mem_keys_iff.mp hk).imp_left hselected

theorem env_subSelect : q.subSelect.env = q.env :=
  Env.ofKeys_congr fun _ => q.mem_keys_subSelect_iff

theorem subSelect_overCopies (registry : Registry) (id : Nat) :
    (q.overCopies registry id).subSelect = q.subSelect.overCopies registry id := by
  have hselect : (q.overCopies registry id).subSelect.selectList = q.subSelect.selectList := by
    rw [selectList_subSelect_eq, projection_overCopies, isUnionFed_overCopies,
      selectList_subSelect_eq]
  calc (q.overCopies registry id).subSelect
      = { (q.overCopies registry id).subSelect with
          selectList := (q.overCopies registry id).subSelect.selectList } := rfl
    _ = q.subSelect.overCopies registry id := by rw [hselect]; rfl

theorem unnumbered_overCopies (registry : Registry) (id : Nat) :
    (q.overCopies registry id).unnumbered = q.unnumbered := by
  cases q
  simp only [overCopies, unnumbered, sourcesUnnumbered_copy]

/-- The table form of a query is its own table form. It has as many outputs, the keys, the sources
and the trailing clauses of the query, and its items are those that the query puts out, except that
a column without a label goes by its owner and name. So it is with the query inside a derived table,
which is the table form in a new object. -/
theorem subSelect_conservative :
    q.subSelect.subSelect = q.subSelect ∧
      q.subSelect.arity = q.arity ∧
      q.subSelect.env = q.env ∧
      q.subSelect.fromClause = q.fromClause ∧
      q.subSelect.trailingClauses = q.trailingClauses ∧
      q.subSelect.selectClause.kind = .subSelect ∧
      List.Forall₂ (Expr.Respelled q.isUnionFed) q.projection q.subSelect.projection ∧
      ∀ (name : String) (registry : Registry), let inner := (q.derive name registry).1.query
        inner.unnumbered = q.subSelect.unnumbered ∧ inner.subSelect = inner ∧
          inner.env = q.env := by
  have hitems : List.Forall₂ (Expr.Respelled q.isUnionFed) q.projection q.subSelect.projection := by
    rw [projection_subSelect_eq, List.forall₂_map_right_iff, List.forall₂_same]
    exact fun e _ => e.respelled_spec
  have harity : q.subSelect.arity = q.arity := hitems.length_eq.symm
  refine ⟨q.subSelect_subSelect, harity, q.env_subSelect, rfl, rfl, rfl, hitems, ?_⟩
  intro name registry inner
  have hinner : inner = q.subSelect.overCopies registry
      (Registry.fresh (copySources q.subSelect.sources registry).2).1 :=
    anew_eq_overCopies _ _
  have hnumbers : inner.unnumbered = q.subSelect.unnumbered := by
    rw [hinner, unnumbered_overCopies]
  refine ⟨hnumbers, ?_, ?_⟩
  · rw [hinner, subSelect_overCopies, subSelect_subSelect]
  · rw [env, ← keys_unnumbered, hnumbers, keys_unnumbered]
    exact q.env_subSelect

end Query

end QueryTree
