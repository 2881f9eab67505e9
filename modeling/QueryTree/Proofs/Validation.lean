import QueryTree.Proofs.Tree.Equality

/-!
What the checks of a level ask of it. The checks look at every distinct column once, which is the
same as looking at every reference, because equal columns are reached and exposed alike.
-/

namespace QueryTree

/-- What holds of the distinct elements of a list holds of all of them, if equal elements agree
on it. -/
theorem forall_mem_eraseDups_iff {α : Type} [BEq α] {P : α → Prop}
    (hP : ∀ a b, (a == b) = true → P b → P a) :
    (as : List α) → ((∀ a ∈ as.eraseDups, P a) ↔ ∀ a ∈ as, P a)
  | [] => by simp
  | a :: as => by
    rw [List.eraseDups_cons, List.forall_mem_cons, List.forall_mem_cons,
      forall_mem_eraseDups_iff hP (as.filter fun b => !b == a)]
    refine and_congr_right fun ha => ⟨fun h b hb => ?_, fun h b hb => ?_⟩
    · by_cases hba : (b == a) = true
      · exact hP b a hba ha
      · exact h b (List.mem_filter.mpr ⟨hb, by simp [hba]⟩)
    · exact h b (List.mem_filter.mp hb).1
termination_by as => as.length
decreasing_by exact Nat.lt_succ_of_le (List.length_filter_le _ _)

theorem references_eq_flatMap (es : List Expr) : references es = es.flatMap Expr.references := by
  induction es with
  | nil => rfl
  | cons e es ih => rw [references, List.flatMap_cons, ih]

theorem references_append (as bs : List Expr) :
    references (as ++ bs) = references as ++ references bs := by
  simp [references_eq_flatMap]

theorem forall_mem_distinctColumns_iff {P : Column → Prop}
    (hP : ∀ a b : Column, a.same b = true → P b → P a) (es : List Expr) :
    (∀ c ∈ distinctColumns es, P c) ↔ ∀ c ∈ references es, P c :=
  forall_mem_eraseDups_iff hP _

theorem firstRepeated_eq_none_iff {seen names : List String} :
    firstRepeated seen names = none ↔ names.Nodup ∧ ∀ n ∈ names, n ∉ seen := by
  induction names generalizing seen with
  | nil => simp [firstRepeated]
  | cons name rest ih =>
    rw [List.nodup_cons, List.forall_mem_cons]
    by_cases hname : name ∈ seen
    · simp [firstRepeated, hname]
    · have hstep : firstRepeated seen (name :: rest) = firstRepeated (name :: seen) rest := by
        simp [firstRepeated, hname]
      rw [hstep, ih]
      constructor
      · rintro ⟨hrest, hseen⟩
        refine ⟨⟨fun hmem => hseen name hmem List.mem_cons_self, hrest⟩, hname, ?_⟩
        intro n hn hmem
        exact hseen n hn (List.mem_cons_of_mem _ hmem)
      · rintro ⟨⟨hnew, hrest⟩, -, hseen⟩
        refine ⟨hrest, fun n hn hmem => ?_⟩
        rcases List.mem_cons.mp hmem with rfl | hmem
        · exact hnew hn
        · exact hseen n hn hmem

theorem Column.sameField_iff {a b : Column} :
    a.sameField b = true ↔ (a.owner == b.owner) = true ∧ a.name = b.name := by
  rw [sameField, Bool.and_eq_true, beq_iff_eq (a := a.name)]

namespace Query

/-- What the checks of a level ask for. -/
structure Valid (q : Query) : Prop where
  distinct : q.reachableNames.Nodup
  reached : ∀ c ∈ references (q.selectList ++ q.whereList), c.isLocal = true → q.reaches c = true
  exposed : q.isUnionFed = false →
    ∀ c ∈ references (q.selectList ++ sourcesOnPredicates q.sources), c.isLocal = true →
      c.name ∈ sourcesColumnNames q.sources

theorem reaches_iff {q : Query} (hfed : q.isUnionFed = false) {c : Column} :
    q.reaches c = true ↔ c.owner.name ∈ q.reachableNames := by
  have hnone : q.unionOutputs = none := by
    rw [unionOutputs, List.findSome?_eq_none_iff]
    intro source hsource
    have hunion : source.isUnion = false := by
      simpa [isUnionFed] using (List.any_eq_false.mp hfed) source hsource
    cases source with
    | union op left right => cases hunion
    | _ => rfl
  simp [reaches, hnone]

theorem reaches_of_same {q : Query} {a b : Column} (h : a.same b = true)
    (hb : q.reaches b = true) : q.reaches a = true := by
  obtain ⟨howner, -, -, -⟩ := Column.same_iff.mp h
  unfold reaches at *
  split at hb
  next outputs _ =>
    simp only [List.any_eq_true, Column.sameField_iff] at *
    obtain ⟨o, ho, howner', hname⟩ := hb
    have hba : (b.owner == a.owner) = true := BEq.symm howner
    exact ⟨o, ho, BEq.trans howner' hba, hname.trans (Column.name_eq_of_same h).symm⟩
  next => rwa [Relation.name_eq_of_same howner]

theorem checkOwners_ok_iff {q : Query} (place : Place) {exprs : List Expr} :
    q.checkOwners place exprs = .ok () ↔
      ∀ c ∈ references exprs, c.isLocal = true → q.reaches c = true := by
  rw [← forall_mem_distinctColumns_iff (P := fun c => c.isLocal = true → q.reaches c = true)]
  · unfold checkOwners
    split
    next c hc =>
      have hfailed := List.find?_some hc
      have hmem := List.mem_of_find?_eq_some hc
      simp only [Bool.and_eq_true, Bool.not_eq_true'] at hfailed
      constructor
      · intro h
        cases h
      · intro h
        rw [h c hmem hfailed.1] at hfailed
        cases hfailed.2
    next hnone => simpa [List.find?_eq_none] using hnone
  · intro a b hab hb hlocal
    rw [Column.isLocal_eq_of_same hab] at hlocal
    exact reaches_of_same hab (hb hlocal)

theorem checkTables_ok_iff {q : Query} :
    q.checkTables = .ok () ↔ q.reachableNames.Nodup ∧
      ∀ c ∈ references (q.selectList ++ q.whereList), c.isLocal = true → q.reaches c = true := by
  have hnodup := @firstRepeated_eq_none_iff [] q.reachableNames
  simp only [List.not_mem_nil, not_false_eq_true, implies_true, and_true] at hnodup
  rw [references_append, List.forall_mem_append, ← checkOwners_ok_iff .select,
    ← checkOwners_ok_iff .filter, ← hnodup]
  unfold checkTables
  cases firstRepeated [] q.reachableNames with
  | some name =>
    constructor
    · intro h
      cases h
    · rintro ⟨h, -⟩
      cases h
  | none =>
    cases q.checkOwners .select q.selectList with
    | error e =>
      constructor
      · intro h
        cases h
      · rintro ⟨-, h, -⟩
        cases h
    | ok _ => exact ⟨fun h => ⟨rfl, rfl, h⟩, fun h => h.2.2⟩

theorem forall_mem_exposureReferences_iff {q : Query} {P : Column → Prop}
    (hP : ∀ a b : Column, a.same b = true → P b → P a) :
    (∀ c ∈ q.exposureReferences, P c) ↔
      ∀ c ∈ references (q.selectList ++ sourcesOnPredicates q.sources), P c := by
  rw [exposureReferences, references_append, List.forall_mem_append, List.forall_mem_append,
    forall_mem_distinctColumns_iff hP, references_eq_flatMap (sourcesOnPredicates q.sources)]
  simp only [List.forall_mem_flatMap, forall_mem_distinctColumns_iff hP]
  simp [references]

theorem checkColumns_ok_iff {q : Query} :
    q.checkColumns = .ok () ↔ (q.isUnionFed = false →
      ∀ c ∈ references (q.selectList ++ sourcesOnPredicates q.sources), c.isLocal = true →
        c.name ∈ sourcesColumnNames q.sources) := by
  rw [← forall_mem_exposureReferences_iff
    (P := fun c => c.isLocal = true → c.name ∈ sourcesColumnNames q.sources)]
  · unfold checkColumns
    cases q.isUnionFed with
    | true => simp
    | false =>
      simp only [Bool.false_eq_true, if_false, forall_const]
      split
      next c hc =>
        have hfailed := List.find?_some hc
        have hmem := List.mem_of_find?_eq_some hc
        simp only [Bool.and_eq_true, Bool.not_eq_true', List.contains_eq_mem,
          decide_eq_false_iff_not] at hfailed
        constructor
        · intro h
          cases h
        · intro h
          exact absurd (h c hmem hfailed.1) hfailed.2
      next hnone => simpa [List.find?_eq_none] using hnone
  · intro a b hab hb hlocal
    rw [Column.isLocal_eq_of_same hab] at hlocal
    rw [Column.name_eq_of_same hab]
    exact hb hlocal

/-- The checks of a level pass exactly if it is valid. -/
theorem validate_ok_iff {q : Query} : q.validate = .ok () ↔ q.Valid := by
  have htables := @checkTables_ok_iff q
  have hcolumns := @checkColumns_ok_iff q
  unfold validate
  constructor
  · intro h
    cases ht : q.checkTables with
    | error e =>
      rw [ht] at h
      cases h
    | ok _ =>
      rw [ht] at h
      obtain ⟨hdistinct, hreached⟩ := htables.mp ht
      exact ⟨hdistinct, hreached, hcolumns.mp h⟩
  · rintro ⟨hdistinct, hreached, hexposed⟩
    rw [htables.mpr ⟨hdistinct, hreached⟩]
    exact hcolumns.mpr hexposed

end Query

end QueryTree
