import QueryTree.Keyed
import QueryTree.Proofs.Tree.Keys

/-! Look-up in maps by name: the last entry of a name counts, and no name occurs twice. -/

namespace QueryTree.Keyed

variable {α : Type}

theorem lookup_cons (entry : String × α) (rest : List (String × α)) (name : String) :
    (entry :: rest).lookup name = if name = entry.1 then some entry.2 else rest.lookup name := by
  by_cases hname : name = entry.1
  · rw [List.lookup_cons, if_pos hname, beq_iff_eq.mpr hname]
  · rw [List.lookup_cons, if_neg hname, beq_false_of_ne hname]

theorem lookup_insertEntry (name : String) (value : α) (entries : List (String × α)) (k : String) :
    (insertEntry name value entries).lookup k =
      if k = name then some value else entries.lookup k := by
  induction entries with
  | nil => exact lookup_cons (name, value) [] k
  | cons entry rest ih =>
    obtain ⟨other, old⟩ := entry
    rw [insertEntry]
    split
    · exact lookup_cons (name, value) _ k
    · split
      next hsame =>
        subst hsame
        rw [lookup_cons, lookup_cons]
        exact ite_congr rfl (fun _ => rfl) fun hk => (if_neg hk).symm
      next hne =>
        rw [lookup_cons, ih, lookup_cons]
        by_cases hk : k = name
        · rw [if_pos hk, if_pos hk, if_neg (hk ▸ hne)]
        · rw [if_neg hk, if_neg hk]

/-- The names of a map are put in order like the keys of an environment. -/
theorem names_insertEntry (name : String) (value : α) (entries : List (String × α)) :
    (insertEntry name value entries).map Prod.fst = Env.insertKey name (entries.map Prod.fst) := by
  induction entries with
  | nil => rfl
  | cons entry rest ih =>
    obtain ⟨other, old⟩ := entry
    rw [insertEntry, List.map_cons, Env.insertKey]
    split
    · rfl
    · split
      next hsame =>
        subst hsame
        rfl
      next => rw [List.map_cons, ih]

theorem pairwise_ofList (entries : List (String × α)) :
    ((ofList entries).entries.map Prod.fst).Pairwise (· < ·) := by
  suffices h : ∀ map : Keyed α, (map.entries.map Prod.fst).Pairwise (· < ·) →
      ((entries.foldl (fun map entry => map.insert entry.1 entry.2) map).entries.map
        Prod.fst).Pairwise (· < ·) from h empty .nil
  induction entries with
  | nil => exact fun _ h => h
  | cons entry rest ih =>
    refine fun map h => ih (map.insert entry.1 entry.2) ?_
    rw [Keyed.insert, names_insertEntry]
    exact Env.pairwise_insertKey h entry.1

/-- Of several entries under one name the last one counts. -/
theorem get?_ofList (entries : List (String × α)) (name : String) :
    (ofList entries).get? name = entries.reverse.lookup name := by
  suffices h : ∀ map : Keyed α,
      (entries.foldl (fun map entry => map.insert entry.1 entry.2) map).get? name =
        (entries.reverse.lookup name).or (map.get? name) by
    rw [ofList, h empty]
    exact Option.or_none
  induction entries with
  | nil => exact fun _ => rfl
  | cons entry rest ih =>
    intro map
    have hinsert : (map.insert entry.1 entry.2).get? name =
        ([entry].lookup name).or (map.get? name) := by
      rw [Keyed.insert, get?, lookup_insertEntry, lookup_cons]
      split <;> rfl
    rw [List.foldl_cons, ih, hinsert, List.reverse_cons, List.lookup_append, Option.or_assoc]

/-- Under distinct names the entries are those that are found. -/
theorem lookup_eq_some_iff {entries : List (String × α)} (h : (entries.map Prod.fst).Nodup)
    {name : String} {value : α} :
    entries.lookup name = some value ↔ (name, value) ∈ entries := by
  induction entries with
  | nil => simp
  | cons entry rest ih =>
    obtain ⟨other, old⟩ := entry
    obtain ⟨hother, hrest⟩ := List.nodup_cons.mp h
    rw [lookup_cons, List.mem_cons, Prod.mk.injEq]
    by_cases hname : name = other
    · subst hname
      have hnew : (name, value) ∉ rest := fun hmem => hother (List.mem_map.mpr ⟨_, hmem, rfl⟩)
      simp [hnew, eq_comm]
    · rw [if_neg hname, ih hrest]
      simp [hname]

theorem nodup_ofList (entries : List (String × α)) :
    ((ofList entries).entries.map Prod.fst).Nodup :=
  (pairwise_ofList entries).imp fun hlt => hlt.ne

theorem mem_ofList_iff {entries : List (String × α)} {name : String} {value : α} :
    (name, value) ∈ (ofList entries).entries ↔ entries.reverse.lookup name = some value := by
  rw [← lookup_eq_some_iff (nodup_ofList entries), ← get?_ofList, get?]

/-- Entries under distinct names are all found. -/
theorem get?_ofList_of_nodup {entries : List (String × α)} (h : (entries.map Prod.fst).Nodup)
    {name : String} {value : α} :
    (ofList entries).get? name = some value ↔ (name, value) ∈ entries := by
  have hreverse : (entries.reverse.map Prod.fst).Nodup := by
    rwa [List.map_reverse, List.nodup_reverse]
  rw [get?_ofList, lookup_eq_some_iff hreverse, List.mem_reverse]

end QueryTree.Keyed
