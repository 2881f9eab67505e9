import QueryTree.Proofs.Render.Runs
import QueryTree.Proofs.Render.Sites

/-!
What the checks add to writing. A statement that is checked is the statement that is not, provided
that each of its levels passes and that each correlated column has its owner in a level around its
own.
-/

namespace QueryTree.Render

/-- What a check asks of a site. Correlated columns are looked up in the levels around theirs,
unless columns are bare. -/
def Site.Passes : Site → Prop
  | .level q => q.validate = .ok ()
  | .column scopes c => c.correlated = true → scopes.isBare = false →
      ∃ frame ∈ scopes.tail, c.owner.name ∈ frame.tables
  | .marker _ _ => True

variable {bindings : Bindings} {options : Options} {numbers : List Nat} {state after : State}

def checked (options : Options) : Options :=
  { options with validate := true }

def unchecked (options : Options) : Options :=
  { options with validate := false }

@[simp] theorem checked_validate : (checked options).validate = true :=
  rfl

@[simp] theorem unchecked_validate : (unchecked options).validate = false :=
  rfl

@[simp] theorem checked_oneTable : (checked options).oneTable = (unchecked options).oneTable :=
  rfl

@[simp] theorem checked_separator : (checked options).separator = (unchecked options).separator :=
  rfl

theorem outerReaches_iff {scopes : Scopes} {table : String} :
    scopes.outerReaches table = true ↔ ∃ frame ∈ scopes.tail, table ∈ frame.tables := by
  simp [Scopes.outerReaches]

theorem column_checked_iff {scopes : Scopes} {c : Column} {text : String} :
    Setting.column ⟨bindings, checked options, scopes⟩ c = .ok text ↔
      Setting.column ⟨bindings, unchecked options, scopes⟩ c = .ok text ∧
        (Site.column scopes c).Passes := by
  simp only [Setting.column, Site.Passes, checked_oneTable, checked_validate, unchecked_validate,
    ← outerReaches_iff]
  cases scopes.isBare with
  | true => simp
  | false =>
    cases c.correlated with
    | false => exact ⟨fun h => ⟨h, fun hfalse => absurd hfalse Bool.false_ne_true⟩, And.left⟩
    | true => cases scopes.outerReaches c.owner.name <;> simp

theorem write_checked_iff {f : Fragment} {r : String × List Nat} :
    f.write bindings (checked options) numbers state = (.ok r, after) ↔
      f.write bindings (unchecked options) numbers state = (.ok r, after) ∧
        ∀ site ∈ f.sites, site.Passes := by
  rw [write_ok_iff, write_ok_iff]
  cases f with
  | check q =>
    simp only [checked_validate, unchecked_validate, Fragment.sites, List.mem_singleton, forall_eq,
      Site.Passes, forall_const]
    constructor
    · rintro ⟨hcheck, hr, hafter⟩
      exact ⟨⟨fun hvalidate => absurd hvalidate Bool.false_ne_true, hr, hafter⟩, hcheck⟩
    · rintro ⟨⟨-, hr, hafter⟩, hcheck⟩
      exact ⟨hcheck, hr, hafter⟩
  | column scopes c =>
    simp only [column_checked_iff, Fragment.sites, List.mem_singleton, forall_eq]
    constructor
    · rintro ⟨text, ⟨htext, hpasses⟩, hr⟩
      exact ⟨⟨text, htext, hr⟩, hpasses⟩
    · rintro ⟨⟨text, htext, hr⟩, hpasses⟩
      exact ⟨text, ⟨htext, hpasses⟩, hr⟩
  | marker scopes key => simp [Site.Passes]
  | _ => simp

theorem writeAll_checked_iff {fs : List Fragment} {r : String × List Nat} :
    writeAll bindings (checked options) fs numbers state = (.ok r, after) ↔
      writeAll bindings (unchecked options) fs numbers state = (.ok r, after) ∧
        ∀ site ∈ fs.flatMap Fragment.sites, site.Passes := by
  induction fs generalizing numbers state r with
  | nil => simp
  | cons f fs ih =>
    simp only [writeAll_cons_ok_iff, write_checked_iff, ih, List.flatMap_cons,
      List.forall_mem_append]
    constructor
    · rintro ⟨first, between, ⟨hfirst, hf⟩, others, ⟨hothers, hfs⟩, hr⟩
      exact ⟨⟨first, between, hfirst, others, hothers, hr⟩, hf, hfs⟩
    · rintro ⟨⟨first, between, hfirst, others, hothers, hr⟩, hf, hfs⟩
      exact ⟨first, between, ⟨hfirst, hf⟩, others, ⟨hothers, hfs⟩, hr⟩

/-- A statement of a query that passes every check is its checked statement too. -/
theorem statement_of_passes (options : Options) {q : Query} {registry last : Registry}
    {result : Statement}
    (h : q.statement bindings { options with validate := false } registry = (.ok result, last))
    (hpasses : ∀ site ∈ q.sites, site.Passes) :
    q.statement bindings { options with validate := true } registry = (.ok result, last) := by
  obtain ⟨numbers, hrun⟩ := statement_ok_iff.mp h
  rw [← q.sites_fragments] at hpasses
  exact statement_ok_iff.mpr ⟨numbers, writeAll_checked_iff.mpr ⟨hrun, hpasses⟩⟩

/-- Checking decides only on whether there is a statement, not on what the statement is. -/
theorem statement_checked_iff (q : Query) (bindings : Bindings) (options : Options)
    (registry last : Registry) (result : Statement) :
    q.statement bindings { options with validate := true } registry = (.ok result, last) ↔
      q.statement bindings { options with validate := false } registry = (.ok result, last) ∧
        ∀ site ∈ q.sites, site.Passes := by
  have hiff := fun numbers => @writeAll_checked_iff bindings options [] ⟨[], registry⟩
    ⟨result.params, last⟩ q.fragments (result.sql, numbers)
  simp only [statement_ok_iff, ← q.sites_fragments]
  constructor
  · rintro ⟨numbers, hrun⟩
    obtain ⟨hrun, hpasses⟩ := (hiff numbers).mp hrun
    exact ⟨⟨numbers, hrun⟩, hpasses⟩
  · rintro ⟨⟨numbers, hrun⟩, hpasses⟩
    exact ⟨numbers, (hiff numbers).mpr ⟨hrun, hpasses⟩⟩

end QueryTree.Render
