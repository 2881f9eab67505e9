import QueryTree.Proofs.Render.Outcomes
import QueryTree.Proofs.Tree.Keys

/-!
What the environment of a query is worth for binding its placeholders. It has every key that stands
in the tree, and each of them is needed. But a column that stands for a subquery is written as that
subquery, and the keys in there are not counted.
-/

namespace QueryTree

mutual

/-- The keys behind the columns of an expression that stand for a subquery. -/
def Expr.columnKeys : Expr → List String
  | .value _ => []
  | .param _ => []
  | .star => []
  | .column ⟨owner, _, _, _⟩ => owner.columnKeys
  | .unary _ operand => operand.columnKeys
  | .binary _ left right => left.columnKeys ++ right.columnKeys
  | .between subject low high => subject.columnKeys ++ low.columnKeys ++ high.columnKeys
  | .call _ args => exprsColumnKeys args
  | .list items => exprsColumnKeys items
  | .labeled e _ => e.columnKeys
  | .subquery ⟨_, query⟩ => query.columnKeys

def exprsColumnKeys : List Expr → List String
  | [] => []
  | e :: rest => e.columnKeys ++ exprsColumnKeys rest

/-- The keys behind a column of a relation. One seen through a scalar subquery brings along all of
the subquery but its SELECT list. -/
def Relation.columnKeys : Relation → List String
  | .projected (.unfolded ⟨_, query⟩) source => source.columnKeys ++ query.narrowedKeys
  | _ => []

/-- The keys of a query outside of its SELECT list. -/
def Query.narrowedKeys : Query → List String
  | ⟨_, _, sources, filter, group, having, order, limit, _⟩ =>
    sourcesKeys sources ++ exprsKeys filter ++ exprsKeys group ++ exprsKeys having ++
      exprsKeys order ++ exprsKeys limit ++ sourcesColumnKeys sources ++ exprsColumnKeys filter ++
      exprsColumnKeys group ++ exprsColumnKeys having ++ exprsColumnKeys order ++
      exprsColumnKeys limit

def Query.columnKeys : Query → List String
  | ⟨select, _, sources, filter, group, having, order, limit, _⟩ =>
    exprsColumnKeys select ++ sourcesColumnKeys sources ++ exprsColumnKeys filter ++
      exprsColumnKeys group ++ exprsColumnKeys having ++ exprsColumnKeys order ++
      exprsColumnKeys limit

def Source.columnKeys : Source → List String
  | .relation (.derived ⟨_, query, _⟩) => query.columnKeys
  | .relation _ => []
  | .join _ left right on => left.columnKeys ++ right.columnKeys ++ exprsColumnKeys on
  | .union _ left right => left.columnKeys ++ right.columnKeys

def sourcesColumnKeys : List Source → List String
  | [] => []
  | source :: rest => source.columnKeys ++ sourcesColumnKeys rest

end

namespace Render

/-- A placeholder of the key is among the sites. -/
def Holds (sites : List Site) (key : String) : Prop :=
  ∃ scopes, .marker scopes key ∈ sites

variable {key : String}

@[simp] theorem holds_nil : ¬Holds [] key := by
  simp [Holds]

@[simp] theorem holds_append {a b : List Site} :
    Holds (a ++ b) key ↔ Holds a key ∨ Holds b key := by
  simp [Holds, exists_or]

@[simp] theorem holds_level {q : Query} {sites : List Site} :
    Holds (.level q :: sites) key ↔ Holds sites key := by
  simp [Holds]

@[simp] theorem holds_column {scopes : Scopes} {c : Column} : ¬Holds [.column scopes c] key := by
  simp [Holds]

@[simp] theorem holds_marker {scopes : Scopes} {k : String} :
    Holds [.marker scopes k] key ↔ key = k := by
  simp [Holds]

-- By induction on the tree. A level narrowed to one column is a case of its own, as it takes over
-- what stands behind that column and drops its SELECT list.
mutual

theorem holds_expr : (e : Expr) → ∀ scopes,
    Holds (exprSites scopes e) key ↔ key ∈ e.keys ∨ key ∈ e.columnKeys
  | .value _, _ => by simp [exprSites, Expr.keys, Expr.columnKeys]
  | .param _, _ => by simp [exprSites, Expr.keys, Expr.columnKeys]
  | .star, _ => by simp [exprSites, Expr.keys, Expr.columnKeys]
  | .column ⟨owner, field, label, correlated⟩, scopes => by
    simp [exprSites, Expr.keys, Expr.columnKeys, holds_columnOf owner]
  | .unary _ operand, scopes => by
    simp [exprSites, Expr.keys, Expr.columnKeys, holds_expr operand]
  | .binary _ left right, scopes => by
    simp only [exprSites, Expr.keys, Expr.columnKeys, holds_append, List.mem_append,
      holds_expr left, holds_expr right]
    grind
  | .between subject low high, scopes => by
    simp only [exprSites, Expr.keys, Expr.columnKeys, holds_append, List.mem_append,
      holds_expr subject, holds_expr low, holds_expr high]
    grind
  | .call _ args, scopes => by
    simp [exprSites, Expr.keys, Expr.columnKeys, holds_exprs args]
  | .list items, scopes => by
    simp [exprSites, Expr.keys, Expr.columnKeys, holds_exprs items]
  | .labeled e _, scopes => by
    simp [exprSites, Expr.keys, Expr.columnKeys, holds_expr e]
  | .subquery ⟨name, q⟩, scopes => by
    simp [exprSites, Expr.keys, Expr.columnKeys, holds_query q]

theorem holds_exprs : (es : List Expr) → ∀ scopes,
    Holds (exprsSites scopes es) key ↔ key ∈ exprsKeys es ∨ key ∈ exprsColumnKeys es
  | [], _ => by simp [exprsSites, exprsKeys, exprsColumnKeys]
  | e :: rest, scopes => by
    simp only [exprsSites, exprsKeys, exprsColumnKeys, holds_append, List.mem_append,
      holds_expr e, holds_exprs rest]
    grind

theorem holds_columnOf : (owner : Relation) → ∀ scopes c,
    Holds (columnSites scopes c owner) key ↔ key ∈ owner.columnKeys
  | .projected (.unfolded ⟨name, q⟩) source, scopes, c => by
    rw [columnSites, Relation.columnKeys, List.mem_append,
      holds_narrowed q (fun scopes => holds_columnOf source scopes _)]
  | .projected (.derived d) source, _, _ => by simp [columnSites, Relation.columnKeys]
  | .table t, _, _ => by simp [columnSites, Relation.columnKeys]
  | .alias_ a, _, _ => by simp [columnSites, Relation.columnKeys]
  | .derived d, _, _ => by simp [columnSites, Relation.columnKeys]

theorem holds_narrowed : (q : Query) → ∀ {P : Prop} {c : Narrowing Site} {scopes alias_},
    (∀ scopes, Holds (c.2 scopes) key ↔ P) →
    (Holds (querySites scopes alias_ (some c) q) key ↔ P ∨ key ∈ q.narrowedKeys)
  | ⟨select, sub, sources, filter, group, having, order, limit, id⟩, P, c, scopes, alias_, hc => by
    simp only [querySites, Query.narrowedKeys, Option.elim_some, holds_level, holds_append,
      List.mem_append, hc, holds_sources sources, holds_exprs filter, holds_exprs group,
      holds_exprs having, holds_exprs order, holds_exprs limit]
    grind

theorem holds_query : (q : Query) → ∀ {scopes alias_},
    Holds (querySites scopes alias_ none q) key ↔ key ∈ q.keys ∨ key ∈ q.columnKeys
  | ⟨select, sub, sources, filter, group, having, order, limit, id⟩, scopes, alias_ => by
    simp only [querySites, Query.keys, Query.columnKeys, Option.elim_none, holds_level,
      holds_append, List.mem_append, holds_exprs select, holds_sources sources,
      holds_exprs filter, holds_exprs group, holds_exprs having, holds_exprs order,
      holds_exprs limit]
    grind

theorem holds_sources : (sources : List Source) → ∀ scopes,
    Holds (sourcesSites scopes sources) key ↔
      key ∈ sourcesKeys sources ∨ key ∈ sourcesColumnKeys sources
  | [], _ => by simp [sourcesSites, sourcesKeys, sourcesColumnKeys]
  | source :: rest, scopes => by
    simp only [sourcesSites, sourcesKeys, sourcesColumnKeys, holds_append, List.mem_append,
      holds_source source, holds_sources rest]
    grind

theorem holds_source : (source : Source) → ∀ scopes,
    Holds (sourceSites scopes source) key ↔ key ∈ source.keys ∨ key ∈ source.columnKeys
  | .relation (.table _), _ => by simp [sourceSites, Source.keys, Source.columnKeys]
  | .relation (.alias_ _), _ => by simp [sourceSites, Source.keys, Source.columnKeys]
  | .relation (.projected _ _), _ => by simp [sourceSites, Source.keys, Source.columnKeys]
  | .relation (.derived ⟨name, q, _⟩), scopes => by
    simp [sourceSites, Source.keys, Source.columnKeys, holds_query q]
  | .join kind left right on, scopes => by
    simp only [sourceSites, Source.keys, Source.columnKeys, holds_append, List.mem_append,
      holds_source left, holds_source right, holds_exprs on]
    grind
  | .union op left right, scopes => by
    simp only [sourceSites, Source.keys, Source.columnKeys, holds_append, List.mem_append,
      holds_query left, holds_query right]
    grind

end

/-- The placeholders of a query have the keys of its environment and those behind its columns. -/
theorem holds_sites_iff {q : Query} :
    Holds q.sites key ↔ q.env.contains key = true ∨ key ∈ q.columnKeys := by
  rw [Query.sites, holds_query, Query.env, Env.contains_ofKeys_iff]

theorem holds_iff_occurrence {sites : List Site} :
    Holds sites key ↔ ∃ o ∈ occurrences sites, o.key = key := by
  constructor
  · rintro ⟨scopes, hsite⟩
    exact ⟨⟨scopes.names, key⟩, List.mem_filterMap.mpr ⟨_, hsite, rfl⟩, rfl⟩
  · rintro ⟨o, ho, rfl⟩
    obtain ⟨site, hsite, hocc⟩ := List.mem_filterMap.mp ho
    cases site with
    | marker scopes k =>
      cases hocc
      exact ⟨scopes, hsite⟩
    | _ => cases hocc

variable {bindings : Bindings} {options : Options} {q : Query}

theorem isSome_value?_of_bare {o : Occurrence} (h : (bindings.get? o.key).isSome = true) :
    (o.value? bindings).isSome = true := by
  simp only [Occurrence.value?]
  split
  · exact h
  · simp [Option.isSome_or, h]

/-- Constants for some keys, and for no others. -/
def nulls (keys : List String) : Bindings :=
  ⟨⟨keys.map fun key => (key, .null)⟩⟩

theorem isSome_nulls_iff {keys : List String} :
    ((nulls keys).get? key).isSome = true ↔ key ∈ keys := by
  rw [nulls, Bindings.get?, Keyed.get?, List.lookup_isSome_iff]
  constructor
  · rintro ⟨entry, hentry, hkey⟩
    obtain ⟨k, hk, rfl⟩ := List.mem_map.mp hentry
    rwa [beq_iff_eq.mp hkey]
  · intro hkey
    exact ⟨(key, .null), List.mem_map_of_mem hkey, beq_self_eq_true key⟩

/-- Constants for the environment are enough for any query whose columns stand for no other keys,
whatever its keys are spelled like. -/
theorem not_unbound_of_env (h : ∀ key ∈ q.columnKeys, q.env.contains key = true)
    {registry last : Registry}
    (hbound : ∀ key, q.env.contains key = true → (bindings.get? key).isSome = true) (key : String) :
    q.statement bindings options registry ≠ (.error (.unboundParameter key), last) := by
  intro hfails
  obtain ⟨o, ho, hvalue⟩ := exists_unbound_of_statement hfails
  have henv : q.env.contains o.key = true := by
    rcases holds_sites_iff.mp (holds_iff_occurrence.mpr ⟨o, ho, rfl⟩) with henv | hcolumn
    · exact henv
    · exact h o.key hcolumn
  have hsome := isSome_value?_of_bare (hbound o.key henv)
  rw [hvalue] at hsome
  cases hsome

/-- If no key of the environment holds a dot, then constants for the environment are enough exactly
if it has the keys behind the columns too. -/
theorem env_suffices_iff (hdotless : ∀ key, q.env.contains key = true → '.' ∉ key.toList) :
    (∀ (bindings : Bindings) (options : Options) (registry : Registry),
      (∀ key, q.env.contains key = true → (bindings.get? key).isSome = true) →
        ∀ key last, q.statement bindings options registry ≠
          (.error (.unboundParameter key), last)) ↔
      ∀ key ∈ q.columnKeys, q.env.contains key = true := by
  constructor
  · intro h key hkey
    refine Classical.byContradiction fun hmissing => ?_
    -- With the environment bound and nothing else, the key behind the column stays unbound: no key
    -- that is bound could be its path.
    have hbound : ∀ k, ((nulls q.env.keys).get? k).isSome = true ↔ q.env.contains k = true := by
      simp [isSome_nulls_iff, Env.contains]
    obtain ⟨o, ho, rfl⟩ := holds_iff_occurrence.mp (holds_sites_iff.mpr (Or.inr hkey))
    have hvalue : o.value? (nulls q.env.keys) = none := by
      rw [value?_of_dotless]
      · exact Option.not_isSome_iff_eq_none.mp (mt (hbound o.key).mp hmissing)
      · intro k value hk
        exact hdotless k ((hbound k).mp (by simp [hk]))
    have hunchecked : (unchecked {}).validate = false := rfl
    obtain ⟨unbound, last, hfails⟩ := exists_error_of_unbound hunchecked ho hvalue {}
    exact h _ _ _ (fun k => (hbound k).mpr) unbound last hfails
  · intro h bindings options registry hbound key last
    exact not_unbound_of_env h hbound key

def shifts : Table := ⟨0, "Shifts", ["worker", "day"]⟩

/-- The shifts of one day. -/
def shiftsOfDay : Query :=
  ⟨[], false, [.relation (.table shifts)],
    [.binary .eq (.column (.plain (.table shifts) "day")) (.param "day")], [], [], [], [], 1⟩

/-- The workers of that day, as a scalar in place of a column. -/
def workersOfDay : Query :=
  ⟨[.column (.plain (.projected (.unfolded ⟨"s", shiftsOfDay⟩) (.table shifts)) "worker")], false,
    [], [], [], [], [], [], 2⟩

/-- The placeholder behind the column is not in the environment, and it is asked for. -/
theorem workersOfDay_env_insufficient :
    workersOfDay.env = ⟨[]⟩ ∧ workersOfDay.columnKeys = ["day"] ∧
      (∃ last, workersOfDay.statement .empty {} {} = (.error (.unboundParameter "s.day"), last)) ∧
      ¬∀ (bindings : Bindings) (options : Options) (registry : Registry),
        (∀ key, workersOfDay.env.contains key = true → (bindings.get? key).isSome = true) →
          ∀ key last, workersOfDay.statement bindings options registry ≠
            (.error (.unboundParameter key), last) := by
  have henv : workersOfDay.env = ⟨[]⟩ := rfl
  have hkeys : workersOfDay.columnKeys = ["day"] := rfl
  have hdotless : ∀ key, workersOfDay.env.contains key = true → '.' ∉ key.toList := by
    simp [henv, Env.contains]
  refine ⟨henv, hkeys, ⟨_, rfl⟩, fun h => ?_⟩
  have hcovered := (env_suffices_iff hdotless).mp h
  exact absurd (hcovered "day" (by simp [hkeys])) (by simp [henv, Env.contains])

/-- Neither the key nor a path that ends in it is bound. -/
def Unserved (bindings : Bindings) (key : String) : Prop :=
  bindings.get? key = none ∧ ∀ scope, bindings.get? (scope ++ "." ++ key) = none

theorem Unserved.value? {o : Occurrence} (h : Unserved bindings o.key) :
    o.value? bindings = none := by
  obtain ⟨hbare, hscoped⟩ := h
  simp only [Occurrence.value?, hbare, hscoped, Option.none_or, ite_self]

/-- Each key of the environment is that of a placeholder that is written. So without a constant for
it, bare or behind some path, there is no statement; and if nothing is checked, what fails is a
placeholder. -/
theorem env_key_needed (hkey : q.env.contains key = true) :
    (∃ o ∈ occurrences q.sites, o.key = key) ∧
      ∀ (bindings : Bindings) (options : Options) (registry : Registry), Unserved bindings key →
        ∃ e last, q.statement bindings options registry = (.error e, last) ∧
          (options.validate = false → ∃ unbound, e = .unboundParameter unbound) := by
  obtain ⟨o, ho, rfl⟩ := holds_iff_occurrence.mp (holds_sites_iff.mpr (Or.inl hkey))
  refine ⟨⟨o, ho, rfl⟩, fun bindings options registry hunserved => ?_⟩
  cases hresult : q.statement bindings options registry with
  | mk result last =>
    cases result with
    | ok result =>
      have hbound := ((exists_statement_iff registry).mp ⟨result, last, hresult⟩).2 o ho
      rw [hunserved.value?] at hbound
      cases hbound
    | error e =>
      refine ⟨e, last, rfl, fun hunchecked => ?_⟩
      obtain ⟨unbound, _, hfails⟩ :=
        exists_error_of_unbound hunchecked ho hunserved.value? registry
      rw [hresult] at hfails
      exact ⟨unbound, Except.error.inj (Prod.mk.inj hfails).1⟩

def nightShifts : Query :=
  ⟨[], false, [.relation (.table shifts)], [.param "night"], [], [], [], [], 3⟩

/-- The shifts of one day and those at night. -/
def allShifts (id : Nat) : Query :=
  ⟨[], false, [.union .union shiftsOfDay nightShifts], [], [], [], [], [], id⟩

/-- The same shifts as a table, whose outputs are labeled. -/
def shiftsTable : Query :=
  ⟨[], false, [.relation (.derived ⟨"d", (allShifts 4).subSelect, allShifts 5⟩)], [], [], [], [],
    [], 6⟩

/-- The operand of the union that has its constant is not enough. -/
theorem env_key_needed_night :
    shiftsTable.env.contains "night" = true ∧ Unserved (nulls ["day", "tonight"]) "night" ∧
      (∃ o ∈ occurrences shiftsTable.sites, o.key = "night") ∧
      ∃ e last, shiftsTable.statement (nulls ["day", "tonight"]) {} {} = (.error e, last) := by
  have hkey : shiftsTable.env.contains "night" = true := by decide
  have hunserved : Unserved (nulls ["day", "tonight"]) "night" := by
    refine ⟨by decide, fun scope => Option.not_isSome_iff_eq_none.mp fun hbound => ?_⟩
    have hkeys : ∀ k ∈ ["day", "tonight"], '.' ∉ k.toList := by decide
    exact hkeys _ (isSome_nulls_iff.mp hbound) (by simp)
  obtain ⟨hoccurs, hneeded⟩ := env_key_needed hkey
  obtain ⟨e, last, hfails, -⟩ := hneeded (nulls ["day", "tonight"]) {} {} hunserved
  exact ⟨hkey, hunserved, hoccurs, e, last, hfails⟩

end Render

end QueryTree
