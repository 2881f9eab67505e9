import QueryTree.Proofs.Render.Checks
import QueryTree.Proofs.Render.Parameters

/-!
How writing fails. A statement fails with the error of the first site that has one, and otherwise it
succeeds. Neither the registry nor what has been written so far plays a part.
-/

namespace QueryTree

theorem Query.isValidation_of_checkOwners {q : Query} {place : Place} {exprs : List Expr}
    {e : QueryError} (h : q.checkOwners place exprs = .error e) : e.isValidation = true := by
  unfold checkOwners at h
  split at h
  · cases h
    rfl
  · cases h

theorem Query.isValidation_of_validate {q : Query} {e : QueryError}
    (h : q.validate = .error e) : e.isValidation = true := by
  unfold validate at h
  cases htables : q.checkTables with
  | error e' =>
    rw [htables] at h
    cases h
    unfold checkTables at htables
    split at htables
    · cases htables
      rfl
    · cases hselect : q.checkOwners .select q.selectList with
      | error e' =>
        rw [hselect] at htables
        cases htables
        exact isValidation_of_checkOwners hselect
      | ok _ =>
        rw [hselect] at htables
        exact isValidation_of_checkOwners htables
  | ok _ =>
    rw [htables] at h
    change q.checkColumns = .error e at h
    unfold checkColumns at h
    split at h
    · cases h
    · dsimp only at h
      split at h
      · cases h
        rfl
      · cases h

namespace Render

/-- The error of an outcome. -/
def failure? {ε α : Type} : Except ε α → Option ε
  | .error e => some e
  | .ok _ => none

theorem failure?_eq_none_iff {ε α : Type} {x : Except ε α} :
    failure? x = none ↔ ∃ a, x = .ok a := by
  cases x <;> simp [failure?]

theorem failure?_eq_some_iff {ε α : Type} {x : Except ε α} {e : ε} :
    failure? x = some e ↔ x = .error e := by
  cases x <;> simp [failure?]

section
variable {α β : Type}

/-- A writer fails with its first step, or else with what follows. -/
theorem failure?_bind (x : Writer α) (f : α → Writer β) (later : Option QueryError)
    (hf : ∀ a state, failure? (f a state).1 = later) (state : State) :
    failure? ((x >>= f) state).1 = (failure? (x state).1).or later := by
  rw [bind_run]
  cases x state with
  | mk result between =>
    cases result with
    | error e => rfl
    | ok a => exact hf a between

theorem failure?_map (f : α → β) (x : Writer α) (state : State) :
    failure? ((f <$> x) state).1 = failure? (x state).1 := by
  rw [map_eq_pure_bind, failure?_bind x (fun a => pure (f a)) none fun _ _ => rfl]
  simp

theorem failure?_lift (x : Except QueryError α) (state : State) :
    failure? ((liftM x : Writer α) state).1 = failure? x := by
  cases x <;> rfl

end

variable {bindings : Bindings} {options : Options}

/-- The error that a site raises. -/
def Site.failure? (bindings : Bindings) (options : Options) : Site → Option QueryError
  | .level q => Render.failure? (Setting.check ⟨bindings, options, []⟩ q)
  | .column scopes c => Render.failure? (Setting.column ⟨bindings, options, scopes⟩ c)
  | .marker scopes key => Render.failure? (scopes.lookUp bindings key)

theorem failure?_write (f : Fragment) (numbers : List Nat) (state : State) :
    failure? (f.write bindings options numbers state).1 =
      f.sites.findSome? (Site.failure? bindings options) := by
  have hsingle : ∀ site, [site].findSome? (Site.failure? bindings options) =
      (site.failure? bindings options).or none := by
    intro site
    cases h : site.failure? bindings options <;> simp [List.findSome?, h]
  cases f with
  | marker scopes key =>
    rw [Fragment.sites, hsingle]
    simp only [Fragment.write, Setting.placeholder, bind_assoc]
    rw [failure?_bind _ _ none fun _ _ => rfl, failure?_lift]
    rfl
  | column scopes c =>
    rw [Fragment.sites, hsingle, Fragment.write,
      failure?_bind _ _ none fun _ _ => rfl, failure?_lift]
    rfl
  | check q =>
    rw [Fragment.sites, hsingle, Fragment.write,
      failure?_bind _ _ none fun _ _ => rfl, failure?_lift]
    rfl
  | _ => rfl

/-- Writing fails with the first error among the sites. -/
theorem failure?_writeAll (fs : List Fragment) (numbers : List Nat) (state : State) :
    failure? (writeAll bindings options fs numbers state).1 =
      (fs.flatMap Fragment.sites).findSome? (Site.failure? bindings options) := by
  induction fs generalizing numbers state with
  | nil => rfl
  | cons f fs ih =>
    rw [writeAll, List.flatMap_cons, List.findSome?_append, ← failure?_write f numbers state]
    refine failure?_bind _ _ _ (fun first between => ?_) state
    rw [failure?_bind _ _ none fun _ _ => rfl, Option.or_none, ih]

theorem failure?_statement (bindings : Bindings) (options : Options) (q : Query)
    (registry : Registry) :
    failure? (q.statement bindings options registry).1 =
      q.sites.findSome? (Site.failure? bindings options) := by
  have hquery : failure? (query ⟨bindings, options, []⟩ none .own none q ⟨[], registry⟩).1 =
      q.sites.findSome? (Site.failure? bindings options) := by
    rw [query_eq_writeAll, failure?_map, failure?_writeAll]
    rw [← q.sites_fragments]
    rfl
  rw [← hquery, statement_run]
  cases query ⟨bindings, options, []⟩ none .own none q ⟨[], registry⟩ with
  | mk result state => cases result <;> rfl

theorem column_ok_iff {scopes : Scopes} {c : Column} :
    (∃ text, Setting.column ⟨bindings, options, scopes⟩ c = .ok text) ↔
      (options.validate = true → (Site.column scopes c).Passes) := by
  simp only [Setting.column, Site.Passes, ← outerReaches_iff]
  cases scopes.isBare with
  | true => simp
  | false =>
    cases c.correlated with
    | false => cases options.oneTable <;> simp
    | true =>
      cases options.validate with
      | false => simp
      | true => cases scopes.outerReaches c.owner.name <;> simp

/-- A site raises no error if its check passes and its placeholder is bound. -/
theorem Site.failure?_eq_none_iff {site : Site} :
    site.failure? bindings options = none ↔
      (options.validate = true → site.Passes) ∧
        ∀ o, site.occurrence? = some o → (o.value? bindings).isSome = true := by
  rw [Site.failure?.eq_def]
  cases site with
  | level q =>
    have hunit : (∃ a, Setting.check ⟨bindings, options, []⟩ q = .ok a) ↔
        Setting.check ⟨bindings, options, []⟩ q = .ok () := by
      constructor
      · rintro ⟨⟨⟩, h⟩
        exact h
      · exact fun h => ⟨(), h⟩
    simp only [Render.failure?_eq_none_iff, hunit, check_ok_iff]
    simp [Site.Passes, Site.occurrence?]
  | column scopes c => simp [Render.failure?_eq_none_iff, column_ok_iff, Site.occurrence?]
  | marker scopes key =>
    simp [Render.failure?_eq_none_iff, lookUp_ok_iff, Site.Passes, Site.occurrence?,
      Option.isSome_iff_exists]

/-- Sites raise no error if their checks, where they are made, pass and their placeholders are
bound. -/
theorem findSome?_failure_eq_none_iff {sites : List Site} :
    sites.findSome? (Site.failure? bindings options) = none ↔
      (options.validate = true → ∀ site ∈ sites, site.Passes) ∧
        ∀ o ∈ occurrences sites, (o.value? bindings).isSome = true := by
  rw [List.findSome?_eq_none_iff]
  simp only [Site.failure?_eq_none_iff, occurrences, List.mem_filterMap]
  constructor
  · intro h
    refine ⟨fun hchecked site hsite => (h site hsite).1 hchecked, ?_⟩
    rintro o ⟨site, hsite, ho⟩
    exact (h site hsite).2 o ho
  · rintro ⟨hpasses, hbound⟩ site hsite
    exact ⟨fun hchecked => hpasses hchecked site hsite, fun o ho => hbound o ⟨site, hsite, ho⟩⟩

/-- A query has a statement exactly if its checks, where they are made, pass and its placeholders
are bound. -/
theorem exists_statement_iff {q : Query} (registry : Registry) :
    (∃ result last, q.statement bindings options registry = (.ok result, last)) ↔
      (options.validate = true → ∀ site ∈ q.sites, site.Passes) ∧
        ∀ o ∈ occurrences q.sites, (o.value? bindings).isSome = true := by
  have hok : (∃ result last, q.statement bindings options registry = (.ok result, last)) ↔
      failure? (q.statement bindings options registry).1 = none := by
    rw [failure?_eq_none_iff]
    constructor
    · rintro ⟨result, last, h⟩
      exact ⟨result, by rw [h]⟩
    · rintro ⟨result, h⟩
      exact ⟨result, _, Prod.ext h rfl⟩
  rw [hok, failure?_statement, findSome?_failure_eq_none_iff]

/-- A site fails for a name, or for a placeholder that has no constant. -/
theorem Site.failure?_cases {site : Site} {e : QueryError}
    (h : site.failure? bindings options = some e) :
    e.isValidation = true ∨ (∃ key, e = .unboundParameter key) ∧
      ∃ o, site.occurrence? = some o ∧ o.value? bindings = none := by
  cases site with
  | level q =>
    rw [Site.failure?, failure?_eq_some_iff] at h
    unfold Setting.check at h
    split at h
    · exact .inl (Query.isValidation_of_validate h)
    · cases h
  | column scopes c =>
    rw [Site.failure?, failure?_eq_some_iff] at h
    simp only [Setting.column] at h
    split at h
    · cases h
    · split at h
      · split at h <;> cases h
        exact .inl rfl
      · split at h <;> cases h
  | marker scopes key =>
    rw [Site.failure?, failure?_eq_some_iff] at h
    refine .inr ⟨?_, _, rfl, ?_⟩
    · rw [Scopes.lookUp] at h
      split at h <;> cases h
      exact ⟨_, rfl⟩
    · refine Option.eq_none_iff_forall_ne_some.mpr fun value hvalue => ?_
      rw [lookUp_ok_iff.mpr hvalue] at h
      cases h

/-- A statement fails for a placeholder only if one of its placeholders is not bound. -/
theorem exists_unbound_of_statement {q : Query} {registry last : Registry} {key : String}
    (h : q.statement bindings options registry = (.error (.unboundParameter key), last)) :
    ∃ o ∈ occurrences q.sites, o.value? bindings = none := by
  have hfirst := failure?_statement bindings options q registry
  rw [h] at hfirst
  obtain ⟨site, hsite, herror⟩ := List.exists_of_findSome?_eq_some hfirst.symm
  rcases Site.failure?_cases herror with hname | ⟨-, o, ho, hvalue⟩
  · cases hname
  · exact ⟨o, List.mem_filterMap.mpr ⟨site, hsite, ho⟩, hvalue⟩

/-- A site that is not checked raises no error but that of an unbound placeholder. -/
theorem Site.failure?_of_unchecked (hunchecked : options.validate = false) {site : Site}
    {e : QueryError} (h : site.failure? bindings options = some e) :
    ∃ key, e = .unboundParameter key := by
  cases site with
  | level q =>
    have hnone : (Site.level q).failure? bindings options = none :=
      Site.failure?_eq_none_iff.mpr ⟨by simp [hunchecked], by simp [Site.occurrence?]⟩
    rw [hnone] at h
    cases h
  | column scopes c =>
    have hnone : (Site.column scopes c).failure? bindings options = none :=
      Site.failure?_eq_none_iff.mpr ⟨by simp [hunchecked], by simp [Site.occurrence?]⟩
    rw [hnone] at h
    cases h
  | marker scopes key =>
    rw [Site.failure?, failure?_eq_some_iff, Scopes.lookUp] at h
    split at h
    · cases h
    · cases h
    · cases h
      exact ⟨_, rfl⟩

/-- Without checks a query with an unbound placeholder fails for a placeholder. -/
theorem exists_error_of_unbound (hunchecked : options.validate = false) {q : Query}
    {o : Occurrence} (ho : o ∈ occurrences q.sites) (hvalue : o.value? bindings = none)
    (registry : Registry) :
    ∃ key last, q.statement bindings options registry = (.error (.unboundParameter key), last) := by
  cases hresult : q.statement bindings options registry with
  | mk result last =>
    cases result with
    | ok result =>
      have hbound := ((exists_statement_iff registry).mp ⟨result, last, hresult⟩).2 o ho
      rw [hvalue] at hbound
      cases hbound
    | error e =>
      have hfirst := failure?_statement bindings options q registry
      rw [hresult] at hfirst
      obtain ⟨site, -, herror⟩ := List.exists_of_findSome?_eq_some hfirst.symm
      obtain ⟨key, rfl⟩ := Site.failure?_of_unchecked hunchecked herror
      exact ⟨key, last, rfl⟩

/-- Where no key holds a dot, the levels around a placeholder have no say. -/
theorem value?_of_dotless (hdotless : ∀ key value, bindings.get? key = some value →
    '.' ∉ key.toList) (o : Occurrence) : o.value? bindings = bindings.get? o.key := by
  have hscoped : ∀ scope, bindings.get? (scope ++ "." ++ o.key) = none := by
    intro scope
    refine Option.eq_none_iff_forall_ne_some.mpr fun value hvalue => ?_
    exact hdotless _ value hvalue (by simp)
  simp only [Occurrence.value?, hscoped, Option.none_or, ite_self]

end Render

end QueryTree
