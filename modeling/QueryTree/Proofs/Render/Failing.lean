import QueryTree.Proofs.Render.Agreement
import QueryTree.Proofs.Render.Outcomes

/-!
What compiling leaves in a context, and how it fails. A query that can be built leaves the constants
of its placeholders there. It fails with the error of the first site that has one, and then the
context keeps the constants of the placeholders in front of that site.
-/

namespace QueryTree.Render

section
variable {bindings : Bindings} {options : Options}

section
variable {α β : Type} {state after : State} {e : QueryError}

theorem bind_error_iff {x : Writer α} {f : α → Writer β} :
    (x >>= f) state = (.error e, after) ↔ x state = (.error e, after) ∨
      ∃ a between, x state = (.ok a, between) ∧ f a between = (.error e, after) := by
  rw [bind_run]
  cases x state with
  | mk result between =>
    cases result with
    | error e' =>
      constructor
      · intro h
        cases h
        exact .inl rfl
      · rintro (⟨⟨⟩⟩ | ⟨_, _, ⟨⟩, -⟩)
        rfl
    | ok a =>
      constructor
      · intro h
        exact .inr ⟨a, between, rfl, h⟩
      · rintro (⟨⟨⟩⟩ | ⟨_, _, ⟨⟩, h⟩)
        exact h

/-- Where only the first step can fail, and cannot change the state, a failure is one of that step
and leaves the state as it was. -/
theorem lift_bind_error {x : Except QueryError α} {f : α → Writer β}
    (hf : ∀ a, failure? (f a state).1 = none)
    (h : (liftM x >>= f) state = (.error e, after)) : failure? x = some e ∧ state = after := by
  cases x with
  | error e' =>
    cases h
    exact ⟨rfl, rfl⟩
  | ok a =>
    have hrun : f a state = (.error e, after) := h
    have hnone := hf a
    rw [hrun] at hnone
    cases hnone

end

/-- A fragment that fails leaves the state as it was, and its one site has the error. -/
theorem write_error {f : Fragment} {numbers : List Nat} {state after : State} {e : QueryError}
    (h : f.write bindings options numbers state = (.error e, after)) :
    state = after ∧ ∃ site, f.sites = [site] ∧ site.failure? bindings options = some e := by
  cases f with
  | check q =>
    obtain ⟨hcheck, rfl⟩ := lift_bind_error (fun _ => rfl) h
    exact ⟨rfl, _, rfl, hcheck⟩
  | column scopes c =>
    obtain ⟨hcolumn, rfl⟩ := lift_bind_error (fun _ => rfl) h
    exact ⟨rfl, _, rfl, hcolumn⟩
  | marker scopes key =>
    rw [Fragment.write, Setting.placeholder, bind_assoc] at h
    obtain ⟨hvalue, rfl⟩ := lift_bind_error (fun _ => rfl) h
    exact ⟨rfl, _, rfl, hvalue⟩
  | _ => cases h

theorem writeAll_cons_error_iff {f : Fragment} {fs : List Fragment} {numbers : List Nat}
    {state after : State} {e : QueryError} :
    writeAll bindings options (f :: fs) numbers state = (.error e, after) ↔
      f.write bindings options numbers state = (.error e, after) ∨
        ∃ first between, f.write bindings options numbers state = (.ok first, between) ∧
          writeAll bindings options fs first.2 between = (.error e, after) := by
  have hpure : ∀ (r : String × List Nat) (state : State),
      ¬ (pure r : Writer (String × List Nat)) state = (.error e, after) := by
    rintro r state ⟨⟩
  simp only [writeAll, bind_error_iff, hpure, and_false, exists_false, or_false]

/-- Fragments that fail have been written up to the first site with an error, and the constants of
the placeholders in front of it are kept. -/
theorem writeAll_error {fs : List Fragment} {numbers : List Nat} {state after : State}
    {e : QueryError} (h : writeAll bindings options fs numbers state = (.error e, after)) :
    ∃ done site rest, fs.flatMap Fragment.sites = done ++ site :: rest ∧
      (∀ s ∈ done, s.failure? bindings options = none) ∧
      site.failure? bindings options = some e ∧
      after.params.map some =
        state.params.map some ++ (occurrences done).map (Occurrence.value? bindings) := by
  induction fs generalizing numbers state with
  | nil => cases h
  | cons f fs ih =>
    rcases writeAll_cons_error_iff.mp h with hf | ⟨first, between, hf, hfs⟩
    · obtain ⟨rfl, site, hsites, herror⟩ := write_error hf
      refine ⟨[], site, fs.flatMap Fragment.sites, ?_, by simp, herror, by simp⟩
      rw [List.flatMap_cons, hsites]
      rfl
    · obtain ⟨done, site, rest, hsites, hdone, herror, hparams⟩ := ih hfs
      have hwritten : ∀ s ∈ f.sites, s.failure? bindings options = none := by
        rw [← List.findSome?_eq_none_iff, ← failure?_write f numbers state, hf]
        rfl
      refine ⟨f.sites ++ done, site, rest, by simp [hsites], ?_, herror, ?_⟩
      · exact List.forall_mem_append.mpr ⟨hwritten, hdone⟩
      · rw [hparams, write_params hf]
        simp

variable {q : Query} {ctx : Context} {registry : Registry}

/-- Compiling a query that can be built is writing its fragments. -/
theorem compile_run (h : Built (.query q)) (ctx : Context) (options : Options)
    (registry : Registry) :
    ctx.compile options q registry =
      match writeAll ctx.bindings options (queryFragments ctx.scopes none .own none q) []
        ⟨ctx.params, registry⟩ with
      | (result, state) =>
        ((Prod.fst <$> result, { ctx with params := state.params }), state.registry) := by
  rw [compile_eq_write h, Context.write, query_eq_writeAll, map_eq_pure_bind, bind_run]
  cases writeAll ctx.bindings options (queryFragments ctx.scopes none .own none q) []
    ⟨ctx.params, registry⟩ with
  | mk result state => cases result <;> rfl

/-- The sites of a query that is compiled in some scopes. -/
theorem sites_compiled (scopes : Scopes) (q : Query) :
    (queryFragments scopes none .own none q).flatMap Fragment.sites =
      querySites scopes none none q :=
  sites_query scopes none .own none none .none q

theorem exists_run_of_compile (h : Built (.query q)) {result : Except QueryError String}
    {after : Context} {last : Registry}
    (hcompiled : ctx.compile options q registry = ((result, after), last)) :
    ∃ written state, writeAll ctx.bindings options (queryFragments ctx.scopes none .own none q) []
        ⟨ctx.params, registry⟩ = (written, state) ∧
      result = Prod.fst <$> written ∧ after.params = state.params := by
  rw [compile_run h] at hcompiled
  cases hcompiled
  exact ⟨_, _, rfl, rfl, rfl⟩

theorem compile_ok_params (h : Built (.query q)) {text : String} {after : Context} {last : Registry}
    (hcompiled : ctx.compile options q registry = ((.ok text, after), last)) :
    after.params.map some = ctx.params.map some ++
      (occurrences (querySites ctx.scopes none none q)).map (Occurrence.value? ctx.bindings) := by
  obtain ⟨written, state, hrun, hresult, hparams⟩ := exists_run_of_compile h hcompiled
  cases written with
  | error e => cases hresult
  | ok written =>
    rw [hparams, ← sites_compiled]
    exact writeAll_params hrun

theorem compile_error_params (h : Built (.query q)) {e : QueryError} {after : Context}
    {last : Registry} (hfails : ctx.compile options q registry = ((.error e, after), last)) :
    ∃ done site rest, querySites ctx.scopes none none q = done ++ site :: rest ∧
      (∀ s ∈ done, s.failure? ctx.bindings options = none) ∧
      site.failure? ctx.bindings options = some e ∧
      after.params.map some =
        ctx.params.map some ++ (occurrences done).map (Occurrence.value? ctx.bindings) := by
  obtain ⟨written, state, hrun, hresult, hparams⟩ := exists_run_of_compile h hfails
  cases written with
  | ok written => cases hresult
  | error e' =>
    cases hresult
    rw [hparams, ← sites_compiled]
    exact writeAll_error hrun

/-- What a compilation appends to the parameters of the context are the constants of placeholders of
the query in the order of the tree: of all of them if it comes to a text, and otherwise of those in
front of the first site with an error. -/
theorem compile_appends (h : Built (.query q)) (ctx : Context) (options : Options)
    (registry : Registry) :
    let outcome := (ctx.compile options q registry).1
    ∃ done rest, querySites ctx.scopes none none q = done ++ rest ∧
      outcome.2.params.map some =
        ctx.params.map some ++ (occurrences done).map (Occurrence.value? ctx.bindings) ∧
      (∀ text, outcome.1 = .ok text → rest = []) ∧
      ∀ e, outcome.1 = .error e →
        (rest.head?.bind (Site.failure? ctx.bindings options)) = some e := by
  rcases hcompiled : ctx.compile options q registry with ⟨⟨result, after⟩, last⟩
  cases result with
  | ok text =>
    refine ⟨_, [], (List.append_nil _).symm, compile_ok_params h hcompiled, fun _ _ => rfl, ?_⟩
    rintro e ⟨⟩
  | error e =>
    obtain ⟨done, site, rest, hsites, -, herror, hparams⟩ := compile_error_params h hcompiled
    refine ⟨done, site :: rest, hsites, hparams, ?_, ?_⟩
    · rintro text ⟨⟩
    · rintro e' ⟨⟩
      exact herror

theorem failure?_compile (h : Built (.query q)) (ctx : Context) (options : Options)
    (registry : Registry) :
    failure? (ctx.compile options q registry).1.1 =
      (querySites ctx.scopes none none q).findSome? (Site.failure? ctx.bindings options) := by
  rw [compile_run h, ← sites_compiled, ← failure?_writeAll _ [] ⟨ctx.params, registry⟩]
  cases writeAll ctx.bindings options (queryFragments ctx.scopes none .own none q) []
    ⟨ctx.params, registry⟩ with
  | mk result state => cases result <;> rfl

/-- The error of a compilation is that of some site. -/
theorem exists_site_of_compile (h : Built (.query q)) {e : QueryError}
    (he : (ctx.compile options q registry).1.1 = .error e) :
    ∃ site ∈ querySites ctx.scopes none none q, site.failure? ctx.bindings options = some e := by
  have hfirst := failure?_compile h ctx options registry
  rw [he] at hfirst
  exact List.exists_of_findSome?_eq_some hfirst.symm

/-- Without checks a compilation fails exactly if some placeholder has no constant. -/
theorem compile_fails_iff (h : Built (.query q)) (hunchecked : options.validate = false) :
    (∃ e, (ctx.compile options q registry).1.1 = .error e) ↔
      ∃ o ∈ occurrences (querySites ctx.scopes none none q), o.value? ctx.bindings = none := by
  have hbound : failure? (ctx.compile options q registry).1.1 = none ↔
      ∀ o ∈ occurrences (querySites ctx.scopes none none q), (o.value? ctx.bindings).isSome := by
    rw [failure?_compile h, findSome?_failure_eq_none_iff]
    simp [hunchecked]
  have hfails : (∃ e, (ctx.compile options q registry).1.1 = .error e) ↔
      ¬ failure? (ctx.compile options q registry).1.1 = none := by
    cases (ctx.compile options q registry).1.1 <;> simp [failure?]
  rw [hfails, hbound]
  simp

/-- Compiling always comes to a text or to an error. A query that can be built has no error but
that of a conflicting or missing name or of an unbound placeholder, whatever it is compiled into:
the column behind one that stands for a subquery is always found. Without checks it fails exactly
if, in the walk over the query, derived tables, scalar subqueries, operands of unions and the
subqueries that columns stand for included, some placeholder has a constant neither under its path
nor under its bare key. -/
theorem compile_errors (h : Built (.query q)) (ctx : Context) (options : Options)
    (registry : Registry) :
    let outcome := (ctx.compile options q registry).1.1
    (∀ e, outcome = .error e → (∃ name conflict, e = .conflictingName name conflict) ∨
      (∃ name place, e = .missingName name place) ∨ ∃ key, e = .unboundParameter key) ∧
    (options.validate = false →
      ((∃ e, outcome = .error e) ↔
        ∃ o ∈ occurrences (querySites ctx.scopes none none q), o.value? ctx.bindings = none) ∧
      ∀ e, outcome = .error e → ∃ key, e = .unboundParameter key) := by
  intro outcome
  refine ⟨fun e he => ?_, fun hunchecked => ⟨compile_fails_iff h hunchecked, fun e he => ?_⟩⟩
  · obtain ⟨site, -, herror⟩ := exists_site_of_compile h he
    rcases Site.failure?_cases herror with hname | ⟨hkey, -⟩
    · cases e with
      | conflictingName name conflict => exact .inl ⟨name, conflict, rfl⟩
      | missingName name place => exact .inr (.inl ⟨name, place, rfl⟩)
      | _ => cases hname
    · exact .inr (.inr hkey)
  · obtain ⟨site, -, herror⟩ := exists_site_of_compile h he
    exact Site.failure?_of_unchecked hunchecked herror

/-- The first site with an error ends a compilation. The constants of the placeholders in front of
it stay in the context, so the parameters are those from before only if there is no placeholder
there. -/
theorem compile_error_keeps (h : Built (.query q)) {e : QueryError} {after : Context}
    {last : Registry} (hfails : ctx.compile options q registry = ((.error e, after), last)) :
    ∃ done site rest, querySites ctx.scopes none none q = done ++ site :: rest ∧
      (∀ s ∈ done, s.failure? ctx.bindings options = none) ∧
      site.failure? ctx.bindings options = some e ∧
      after.params.map some =
        ctx.params.map some ++ (occurrences done).map (Occurrence.value? ctx.bindings) ∧
      (after.params = ctx.params ↔ occurrences done = []) := by
  obtain ⟨done, site, rest, hsites, hdone, herror, hparams⟩ := compile_error_params h hfails
  refine ⟨done, site, rest, hsites, hdone, herror, hparams, ?_⟩
  constructor
  · intro hkept
    rw [hkept, List.self_eq_append_right] at hparams
    exact List.map_eq_nil_iff.mp hparams
  · intro hnone
    rw [hnone, List.map_nil, List.append_nil] at hparams
    exact (List.map_inj_right fun _ _ => Option.some.inj).mp hparams

end

/-! Two queries that fail behind a placeholder: one for a level with a conflict, the other for a
placeholder without a constant, behind a column that stands for a subquery. -/

def visitors : Table := ⟨0, "Visitors", ["id", "since"]⟩

theorem built_visitors : Built (.source (.relation (.table visitors))) :=
  .relation (.table visitors)

theorem built_field {field : String} (h : visitors.hasField field = true) :
    Built (.expr (.column (.plain (.table visitors) field))) := by
  have hcolumn : (Relation.table visitors).column field = .ok (.plain (.table visitors) field) := by
    rw [Relation.column, if_pos h]
  exact .column (.lookedUp (.table visitors) hcolumn)

theorem built_over_visitors {select : List Expr} (hselect : ∀ e ∈ select, Built (.expr e))
    {predicate : Expr} (hpredicate : Built (.expr predicate)) (id : Nat) :
    Built (.query ⟨select, false, [.relation (.table visitors)], [predicate], [], [], [], [],
      id⟩) := by
  have hall : Built (.query ⟨[], false, [.relation (.table visitors)], [], [], [], [], [], 1⟩) := by
    refine .step (s := .sources false [.relation (.table visitors)]) ⟨1, []⟩ (.empty {}) ?_
    simpa [BuildStep.parts] using built_visitors
  have hselected : Built (.query ⟨select, false, [.relation (.table visitors)], [], [], [], [], [],
      2⟩) := by
    refine .step (s := .exprs .select true select) ⟨2, []⟩ hall ?_
    simpa [BuildStep.parts] using hselect
  refine .step (s := .exprs .filter true [predicate]) ⟨id, []⟩ hselected ?_
  simpa [BuildStep.parts] using hpredicate

/-- Every visitor beside every other, under one name. -/
def twice : Query :=
  ⟨[], false, [.relation (.table visitors), .relation (.table visitors)], [], [], [], [], [], 1⟩

def twiceTable : Derived := (twice.derive "d" ⟨2, []⟩).1

def everyTwice : Query :=
  ⟨[], false, [.relation (.derived twiceTable)], [], [], [], [], [], 5⟩

/-- A marker for each of them. -/
def markedTwice : Query :=
  { everyTwice with selectList := [.param "k"], id := 6 }

theorem built_markedTwice : Built (.query markedTwice) := by
  have htwice : Built (.query twice) := by
    refine .step (s := .sources false twice.sources) ⟨1, []⟩ (.empty {}) ?_
    simpa [twice, BuildStep.parts] using built_visitors
  have htable : Built (.relation (.derived twiceTable)) := .derived (.derive "d" ⟨2, []⟩ htwice)
  have hevery : Built (.query everyTwice) := by
    refine .step (s := .sources false everyTwice.sources) ⟨5, []⟩ (.empty {}) ?_
    simpa [everyTwice, BuildStep.parts] using Built.relation htable
  refine .step (s := .exprs .select false [.param "k"]) ⟨6, []⟩ hevery ?_
  simpa [BuildStep.parts] using Built.param "k"

def seven : Bindings := .ofList [("k", .int 7)]

/-- The constant of the marker is left behind, though no text comes of it. -/
theorem compile_error_keeps_seven :
    Built (.query markedTwice) ∧ ∃ after last,
      (Context.start seven).compile {} markedTwice {} =
        ((.error (.conflictingName "Visitors" .repeated), after), last) ∧
      after.params = [.int 7] ∧ ∃ done site rest,
        querySites [] none none markedTwice = done ++ site :: rest ∧
        site.failure? seven {} = some (.conflictingName "Visitors" .repeated) ∧
        occurrences done ≠ [] := by
  obtain ⟨after, last, hfails, hparams⟩ : ∃ after last,
      (Context.start seven).compile {} markedTwice {} =
        ((.error (.conflictingName "Visitors" .repeated), after), last) ∧
      after.params = [.int 7] := ⟨_, _, rfl, rfl⟩
  obtain ⟨done, site, rest, hsites, -, herror, -, hkept⟩ :=
    compile_error_keeps built_markedTwice hfails
  refine ⟨built_markedTwice, after, last, hfails, hparams, done, site, rest, hsites, herror, ?_⟩
  rw [Ne, ← hkept, hparams]
  exact List.cons_ne_nil _ _

/-- The visitors since a day. -/
def recently : Query :=
  ⟨[.column (.plain (.table visitors) "id")], false, [.relation (.table visitors)],
    [.binary .gte (.column (.plain (.table visitors) "since")) (.param "first")], [], [], [], [], 9⟩

def recentlyScalar : Unfolded := (recently.unfold (some "s") ⟨10, []⟩).1

/-- The day since which they have been visitors, out of the scalar subquery. -/
def recentDay : Column :=
  .plain (.projected (.unfolded recentlyScalar) (.table visitors)) "since"

def besideRecent : Query :=
  ⟨[.column recentDay], false, [.relation (.table visitors)],
    [.binary .eq (.column (.plain (.table visitors) "id")) (.param "last")], [], [], [], [], 13⟩

theorem built_besideRecent : Built (.query besideRecent) := by
  have hid : Built (.expr (.column (.plain (.table visitors) "id"))) := built_field rfl
  have hsince : Built (.expr (.column (.plain (.table visitors) "since"))) := built_field rfl
  have hrecently : Built (.query recently) := by
    refine built_over_visitors ?_ (.binary .gte hsince (.param "first")) 9
    simpa using hid
  have hscalar : Built (.scope (.unfolded recentlyScalar)) := .unfold (some "s") ⟨10, []⟩ hrecently
  have hproject : (Scope.unfolded recentlyScalar).project "Visitors" {} =
      (.ok recentDay.owner, {}) := rfl
  have hcolumn : recentDay.owner.column "since" = .ok recentDay := rfl
  have hday : Built (.column recentDay) := .lookedUp (.projected hscalar hproject) hcolumn
  refine built_over_visitors ?_ (.binary .eq hid (.param "last")) 13
  simpa using hday.column

def sinceThree : Bindings := .ofList [("first", .int 3)]

/-- The subquery is written, with a marker for its day; then the last visitor is not bound. -/
theorem compile_errors_besideRecent :
    Built (.query besideRecent) ∧ ∃ o ∈ occurrences (querySites [] none none besideRecent),
      o.value? sinceThree = none ∧ ∃ key,
        ((Context.start sinceThree).compile { validate := false } besideRecent {}).1.1 =
          .error (.unboundParameter key) := by
  obtain ⟨-, hunchecked⟩ := compile_errors built_besideRecent (.start sinceThree)
    { validate := false } {}
  obtain ⟨hiff, hkind⟩ := hunchecked rfl
  have hlast : ⟨[], "last"⟩ ∈ occurrences (querySites [] none none besideRecent) := by decide
  have hvalue : (Occurrence.mk [] "last").value? sinceThree = none := rfl
  obtain ⟨e, he⟩ := hiff.mpr ⟨_, hlast, hvalue⟩
  obtain ⟨key, rfl⟩ := hkind e he
  exact ⟨built_besideRecent, _, hlast, hvalue, key, he⟩

end QueryTree.Render
