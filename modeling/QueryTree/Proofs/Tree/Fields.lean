import Mathlib.Data.List.Basic
import Mathlib.Data.List.Induction
import QueryTree.Proofs.Tree.Known

/-!
The fields of a relation. What a relation finds for a field and what it lists are two views of the
same columns, however deep the relation is nested; the fields of a declared table are the given
names, each where it occurs first.
-/

namespace QueryTree

namespace Relation

/-- The relation that is seen through all projections. -/
def innermost : Relation → Relation
  | .projected _ source => source.innermost
  | r => r

/-- The fields that a relation lists, in the order of its columns. -/
def fields (r : Relation) : List String :=
  r.columns.map Column.field

@[simp] theorem fields_table (t : Table) : (table t).fields = t.fields := by
  rw [fields, columns, List.map_map]
  exact List.map_id _

@[simp] theorem fields_alias (a : TableAlias) : (alias_ a).fields = a.table.fields := by
  rw [fields, columns, List.map_map]
  exact List.map_id _

/-- From outside of a subquery the fields are those from inside. -/
@[simp] theorem fields_projected (scope : Scope) (source : Relation) :
    (projected scope source).fields = source.fields := by
  rw [fields, columns, List.map_map]
  rfl

@[simp] theorem fields_derived (d : Derived) : (derived d).fields = d.query.outputNames := by
  obtain ⟨name, query, given⟩ := d
  rw [fields, columns, List.map_map]
  exact List.map_id _

theorem columns_eq_map_fields (r : Relation) : r.columns = r.fields.map (.plain r) := by
  have hplain : r.columns.map id = r.columns.map (Column.plain r ∘ Column.field) :=
    List.map_congr_left fun c hc => eq_plain_of_mem_columns hc
  rwa [List.map_id, ← List.map_map] at hplain

/-- A relation finds the fields that it lists. For every other one it fails, by the name of the
relation that is seen through all projections. -/
theorem column_eq : (r : Relation) → (field : String) → r.column field =
    if field ∈ r.fields then .ok (.plain r field)
    else .error (.unknownAttribute r.innermost.name field)
  | .table t, field => by simp [column, innermost, Table.hasField, name]
  | .alias_ a, field => by simp [column, innermost, Table.hasField, name]
  | .projected scope source, field => by
    rw [column, source.column_eq field, fields_projected]
    split <;> rfl
  | .derived d, field => by simp [column, innermost, name]

theorem column_ok_iff {r : Relation} {field : String} {c : Column} :
    r.column field = .ok c ↔ c ∈ r.columns ∧ c.field = field := by
  rw [column_eq, columns_eq_map_fields, List.mem_map]
  constructor
  · intro h
    split at h
    next hfield =>
      cases h
      exact ⟨⟨field, hfield, rfl⟩, rfl⟩
    next => cases h
  · rintro ⟨⟨other, hother, rfl⟩, rfl⟩
    exact if_pos hother

theorem column_error_iff {r : Relation} {field : String} :
    r.column field = .error (.unknownAttribute r.innermost.name field) ↔
      ∀ c ∈ r.columns, c.field ≠ field := by
  have hlisted : (∀ c ∈ r.columns, c.field ≠ field) ↔ field ∉ r.fields := by
    simp [fields]
  rw [hlisted, column_eq]
  split <;> simp_all

end Relation

section

variable {α : Type} [BEq α] [LawfulBEq α]

/-- Without repeats the items of a list stand in the order in which they occur first. -/
theorem pairwise_idxOf_eraseDups (items : List α) :
    items.eraseDups.Pairwise fun a b => items.idxOf a < items.idxOf b := by
  induction items using List.reverseRecOn with
  | nil => exact .nil
  | append_singleton earlier last ih =>
    have hkept : ∀ a ∈ earlier.eraseDups, (earlier ++ [last]).idxOf a = earlier.idxOf a :=
      fun a ha => List.idxOf_append_of_mem (List.mem_eraseDups.mp ha)
    have hearlier : earlier.eraseDups.Pairwise fun a b =>
        (earlier ++ [last]).idxOf a < (earlier ++ [last]).idxOf b :=
      ih.imp_of_mem fun ha hb hlt => by rwa [hkept _ ha, hkept _ hb]
    by_cases hlast : last ∈ earlier
    · -- a repeat adds nothing
      have hsame : (earlier ++ [last]).eraseDups = earlier.eraseDups := by
        simp [List.eraseDups_append, List.removeAll, hlast]
      rwa [hsame]
    · have hnew : (earlier ++ [last]).eraseDups = earlier.eraseDups ++ [last] := by
        simp [List.eraseDups_append, List.eraseDups_cons, List.removeAll, hlast]
      rw [hnew, List.pairwise_append]
      refine ⟨hearlier, List.pairwise_singleton _ _, fun a ha b hb => ?_⟩
      obtain rfl := List.mem_singleton.mp hb
      rw [hkept a ha, List.idxOf_append_of_notMem hlast]
      exact Nat.lt_add_right _ (List.idxOf_lt_length_of_mem (List.mem_eraseDups.mp ha))

end

/-- What a relation finds for a field is the column of that field that it lists; for a field of none
of its columns it fails, by the name of the relation that is seen through all projections. A
declared table has the given names as its fields, each of them once and in the order in which they
occur first. -/
theorem Relation.lookup_agrees (r : Relation) (field name : String) (given : List String)
    (registry : Registry) :
    (∀ c, r.column field = .ok c ↔ c ∈ r.columns ∧ c.field = field) ∧
      (r.column field = .error (.unknownAttribute r.innermost.name field) ↔
        ∀ c ∈ r.columns, c.field ≠ field) ∧
      let declared := (Relation.table (declareTable name given registry).1).columns
      (declared.map Column.field).Nodup ∧
        (∀ f, f ∈ declared.map Column.field ↔ f ∈ given) ∧
        (declared.map Column.field).Pairwise fun a b => given.idxOf a < given.idxOf b := by
  refine ⟨fun c => column_ok_iff, column_error_iff, ?_⟩
  intro declared
  have hfields : declared.map Column.field = given.eraseDups := fields_table _
  have hordered := pairwise_idxOf_eraseDups given
  rw [hfields]
  refine ⟨hordered.imp fun hlt heq => ?_, fun f => List.mem_eraseDups, hordered⟩
  rw [heq] at hlt
  exact Nat.lt_irrefl _ hlt

/-- A table under another name, declared with a repeated field. -/
def sailors : Relation := .alias_ ⟨"s", (declareTable "Sailors" ["id", "name", "id"] {}).1⟩

/-- Everything that a relation has. -/
def Relation.everything (r : Relation) (id : Nat) : Query :=
  ⟨[], false, [.relation r], [], [], [], [], [], id⟩

/-- The table inside a scalar subquery. -/
def scalarSailors : Relation :=
  .projected (.unfolded ⟨"o", sailors.everything 1⟩) sailors

/-- The same, inside a subquery in turn. -/
def sailorsTable : Derived :=
  ⟨"d", (scalarSailors.everything 2).subSelect, scalarSailors.everything 3⟩

def seenSailors : Relation :=
  .projected (.derived sailorsTable) scalarSailors

theorem lookup_agrees_seenSailors :
    (Scope.project (.derived sailorsTable) "o" {}).1 = .ok seenSailors ∧
      seenSailors.columns = [.plain seenSailors "id", .plain seenSailors "name"] ∧
      seenSailors.column "name" = .ok (.plain seenSailors "name") ∧
      (Column.plain seenSailors "name").name = "o_s_name" ∧
      seenSailors.column "o_s_name" = .error (.unknownAttribute "s" "o_s_name") := by
  have hcolumns : seenSailors.columns = [.plain seenSailors "id", .plain seenSailors "name"] := by
    rw [Relation.columns_eq_map_fields]
    rfl
  obtain ⟨hfound, -, -⟩ := Relation.lookup_agrees seenSailors "name" "Sailors" [] {}
  obtain ⟨-, hunknown, -⟩ := Relation.lookup_agrees seenSailors "o_s_name" "Sailors" [] {}
  refine ⟨rfl, hcolumns, (hfound _).mpr ⟨by simp [hcolumns], rfl⟩, by decide, hunknown.mpr ?_⟩
  simp [hcolumns, Column.plain]

end QueryTree
