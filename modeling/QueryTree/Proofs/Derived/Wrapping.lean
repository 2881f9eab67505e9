import QueryTree.Proofs.Derived.FlatNames
import QueryTree.Proofs.Render.Carrying
import QueryTree.Proofs.Render.Outcomes
import QueryTree.Proofs.Tree.Known
import QueryTree.Proofs.Union.ReadBack

/-!
A query inside another one that takes all of its columns as a table. If the query has a statement,
so has the one around it, with the same parameters, as long as no constant is bound to the path of
a scope.
-/

namespace QueryTree

theorem Relation.of_mem_columns {r : Relation} {c : Column} (h : c ∈ r.columns) :
    c.owner = r ∧ c.correlated = false := by
  rw [eq_plain_of_mem_columns h]
  exact ⟨rfl, rfl⟩

theorem of_mem_sourcesColumns {sources : List Source} {c : Column}
    (h : c ∈ sourcesColumns sources) :
    c.owner ∈ sourcesRelations sources ∧ c.correlated = false := by
  rw [sourcesColumns_eq_flatMap] at h
  obtain ⟨r, hr, hc⟩ := List.mem_flatMap.mp h
  obtain ⟨rfl, hcorrelated⟩ := Relation.of_mem_columns hc
  exact ⟨hr, hcorrelated⟩

theorem unionProjection_eq_none {sources : List Source}
    (h : sources.any Source.isUnion = false) : unionProjection sources = none := by
  induction sources with
  | nil => rfl
  | cons source rest ih =>
    rw [List.any_cons, Bool.or_eq_false_iff] at h
    cases source with
    | union op left right => cases h.1
    | _ => rw [unionProjection, ih h.2]

theorem Expr.exists_of_mem_flattened {e : Expr} {c : Column} (h : c ∈ e.flattened.references) :
    ∃ d ∈ e.references, ∃ label, c = { d with label := label } := by
  cases e with
  | column d =>
    simp only [Expr.flattened, Expr.references, List.mem_singleton] at h
    exact ⟨d, by simp [Expr.references], _, h⟩
  | _ =>
    obtain ⟨owner, field, label, correlated⟩ := c
    exact ⟨_, h, label, rfl⟩

namespace Query

variable {q : Query}

theorem projection_of_sources (hfed : q.isUnionFed = false) (hselect : q.selectList = []) :
    q.projection = (sourcesColumns q.sources).map .column := by
  have hnone := unionProjection_eq_none hfed
  cases q
  cases hselect
  simp only [projection, hnone, List.isEmpty_nil, if_true]

/-- What the table form of a query selects are columns that the query selects or that FROM exposes,
up to their labels. -/
theorem exists_of_mem_subSelect (hfed : q.isUnionFed = false) {c : Column}
    (hc : c ∈ references q.subSelect.selectList) :
    ∃ d ∈ references q.selectList ++ sourcesColumns q.sources, ∃ label,
      c = { d with label := label } := by
  rw [selectList_subSelect hfed, references_eq_flatMap, List.flatMap_map] at hc
  obtain ⟨e, he, hc⟩ := List.mem_flatMap.mp hc
  obtain ⟨d, hd, hlabel⟩ := Expr.exists_of_mem_flattened hc
  refine ⟨d, ?_, hlabel⟩
  by_cases hselect : q.selectList = []
  · rw [projection_of_sources hfed hselect] at he
    obtain ⟨column, hcolumn, rfl⟩ := List.mem_map.mp he
    obtain rfl : d = column := by simpa [Expr.references] using hd
    exact List.mem_append_right _ hcolumn
  · rw [projection_of_selectList hselect] at he
    refine List.mem_append_left _ ?_
    rw [references_eq_flatMap]
    exact List.mem_flatMap.mpr ⟨e, he, hd⟩

/-- The table form of a query passes the checks if the query does. -/
theorem Valid.subSelect (h : q.Valid) (hfed : q.isUnionFed = false) : q.subSelect.Valid := by
  obtain ⟨hdistinct, hreached, hexposed⟩ := h
  have hselected : ∀ c ∈ references q.subSelect.selectList, c.isLocal = true →
      q.reaches c = true ∧ c.name ∈ sourcesColumnNames q.sources := by
    intro c hc hlocal
    obtain ⟨d, hd, label, rfl⟩ := exists_of_mem_subSelect hfed hc
    rcases List.mem_append.mp hd with hd | hd
    · exact ⟨hreached d (by simp [references_append, hd]) hlocal,
        hexposed hfed d (by simp [references_append, hd]) hlocal⟩
    · obtain ⟨howner, -⟩ := of_mem_sourcesColumns hd
      have hname : d.name ∈ sourcesColumnNames q.sources := List.mem_map_of_mem hd
      exact ⟨(reaches_iff hfed).mpr (List.mem_map_of_mem howner), hname⟩
  refine ⟨hdistinct, ?_, ?_⟩
  · intro c hc hlocal
    rw [references_append, List.mem_append] at hc
    rcases hc with hc | hc
    · exact (hselected c hc hlocal).1
    · exact hreached c (by rw [references_append]; exact List.mem_append_right _ hc) hlocal
  · intro _ c hc hlocal
    rw [references_append, List.mem_append] at hc
    rcases hc with hc | hc
    · exact (hselected c hc hlocal).2
    · exact hexposed hfed c (by rw [references_append]; exact List.mem_append_right _ hc) hlocal

/-- The query that takes everything from a query as a table. -/
def wrapped (q : Query) (name : String) : Naming Query := do
  let d ← q.derive name
  let outer ← Query.empty.anew
  (outer.build (.sources false [.relation (.derived d)])).anew

end Query

namespace Render

variable {q : Query}

theorem columnSites_of_not_isUnfolded {c : Column} (h : c.isUnfolded = false) (scopes : Scopes) :
    columnSites scopes c c.owner = [.column scopes c] := by
  obtain ⟨owner, field, label, correlated⟩ := c
  cases owner with
  | projected scope source =>
    cases scope with
    | derived d => rfl
    | unfolded u => cases h
  | _ => rfl

/-- A label decides nothing for the sites of a column. -/
theorem carried_flattened (scopes : Scopes) (e : Expr) :
    Carried (exprSites scopes e) (exprSites scopes e.flattened) := by
  cases e with
  | column c =>
    obtain ⟨owner, field, label, correlated⟩ := c
    cases hunfolded : (Column.mk owner field label correlated).isUnfolded with
    | false =>
      simp only [Expr.flattened, Column.aliased, exprSites]
      rw [columnSites_of_not_isUnfolded (c := ⟨owner, field, label, correlated⟩) hunfolded,
        columnSites_of_not_isUnfolded (c := ⟨owner, field, some _, correlated⟩) hunfolded]
      exact ⟨by simp [Site.Passes], rfl⟩
    | true =>
      obtain ⟨⟨name, query⟩, source, rfl⟩ := Column.isUnfolded_iff.mp hunfolded
      exact .refl _
  | _ => exact .refl _

theorem carried_map_flattened (scopes : Scopes) (es : List Expr) :
    Carried (exprsSites scopes es) (exprsSites scopes (es.map Expr.flattened)) := by
  induction es with
  | nil => exact .refl _
  | cons e rest ih => exact (carried_flattened scopes e).append ih

/-- Columns that FROM exposes pass wherever they are spelled out, and hold no placeholder. -/
theorem carried_sourcesColumns (scopes : Scopes) {columns : List Column}
    (hcolumns : ∀ c ∈ columns, c.isUnfolded = false ∧ c.correlated = false) :
    Carried [] (exprsSites scopes (columns.map .column)) := by
  induction columns with
  | nil => exact .refl _
  | cons c rest ih =>
    rw [List.forall_mem_cons] at hcolumns
    obtain ⟨⟨hunfolded, hcorrelated⟩, hrest⟩ := hcolumns
    have hsites : exprSites scopes (.column c) = [.column scopes c] := by
      rw [← columnSites_of_not_isUnfolded hunfolded scopes]
      cases c
      rfl
    have hc : Carried [] (exprSites scopes (.column c)) := by
      rw [hsites]
      exact ⟨by simp [Site.Passes, hcorrelated], rfl⟩
    exact hc.append (ih hrest)

theorem isUnfolded_of_mem_sourcesColumns {sources : List Source}
    (hscalar : ∀ u source, .projected (.unfolded u) source ∉ sourcesRelations sources)
    {c : Column} (h : c ∈ sourcesColumns sources) : c.isUnfolded = false := by
  obtain ⟨howner, -⟩ := of_mem_sourcesColumns h
  rw [← Bool.not_eq_true, Column.isUnfolded_iff]
  rintro ⟨u, source, hu⟩
  exact hscalar u source (hu ▸ howner)

theorem carried_selectList (scopes : Scopes) (hfed : q.isUnionFed = false)
    (hscalar : ∀ u source, .projected (.unfolded u) source ∉ sourcesRelations q.sources) :
    Carried (exprsSites scopes q.selectList) (exprsSites scopes q.subSelect.selectList) := by
  rw [Query.selectList_subSelect hfed]
  by_cases hselect : q.selectList = []
  -- A SELECT list that was left out is spelled out, which adds columns but no placeholder.
  · rw [Query.projection_of_sources hfed hselect, hselect]
    refine (carried_sourcesColumns scopes fun c hc => ?_).trans (carried_map_flattened scopes _)
    exact ⟨isUnfolded_of_mem_sourcesColumns hscalar hc, (of_mem_sourcesColumns hc).2⟩
  · rw [Query.projection_of_selectList hselect]
    exact carried_map_flattened scopes _

theorem frame_of_not_isUnionFed (alias_ : Option String) (hfed : q.isUnionFed = false) :
    Query.frame alias_ q = ⟨alias_, q.reachableNames, false⟩ := by
  have hbare : q.isBareUnion = false := by simp [Query.isBareUnion, hfed]
  simp [Query.frame, hbare, hfed]

/-- The table form of a query under a name in a level has the sites of the query on its own. -/
theorem carried_subSelect (hfed : q.isUnionFed = false)
    (hscalar : ∀ u source, .projected (.unfolded u) source ∉ sourcesRelations q.sources)
    (name : String) (outer : Scopes) :
    Carried q.sites (querySites outer (some name) none q.subSelect) := by
  have hfed' : q.subSelect.isUnionFed = false := hfed
  have hin := carried_exprs none (some name) q.reachableNames false outer
  have hsources := carried_sources none (some name) q.reachableNames false outer q.sources
  rw [Query.sites, querySites_none, querySites_none, frame_of_not_isUnionFed _ hfed,
    frame_of_not_isUnionFed _ hfed']
  refine .level (fun h => ?_) ?_
  · exact Query.validate_ok_iff.mpr ((Query.validate_ok_iff.mp h).subSelect hfed)
  · have hselect := (hin q.selectList).trans (carried_selectList _ hfed hscalar)
    exact (((((hselect.append hsources).append (hin _)).append (hin _)).append (hin _)).append
      (hin _)).append (hin _)

theorem sites_everything (d : Derived) (id : Nat) :
    Query.sites ⟨[], false, [.relation (.derived d)], [], [], [], [], [], id⟩ =
      .level ⟨[], false, [.relation (.derived d)], [], [], [], [], [], id⟩ ::
        querySites [⟨none, [d.name], false⟩] (some d.name) none d.query := by
  obtain ⟨name, query, given⟩ := d
  rw [Query.sites, querySites_none, frame_of_not_isUnionFed none rfl]
  simp [exprsSites, sourcesSites, sourceSites, Query.reachableNames, sourcesRelations,
    Source.relations, Relation.name]

theorem validate_everything (d : Derived) (id : Nat) :
    Query.validate ⟨[], false, [.relation (.derived d)], [], [], [], [], [], id⟩ = .ok () := by
  refine Query.validate_ok_iff.mpr ⟨?_, ?_, ?_⟩
  · simp [Query.reachableNames, sourcesRelations, Source.relations]
  · simp [references]
  · simp [references, sourcesOnPredicates, Source.onPredicates]

/-- The query around another one has that one's sites behind its own level, which always passes. -/
theorem carried_wrapped (hfed : q.isUnionFed = false)
    (hscalar : ∀ u source, .projected (.unfolded u) source ∉ sourcesRelations q.sources)
    (name : String) (registry : Registry) :
    Carried q.sites (q.wrapped name registry).1.sites := by
  obtain ⟨number, given, id, hw⟩ : ∃ number given id, (q.wrapped name registry).1 =
      ⟨[], false, [.relation (.derived ⟨name, q.subSelect.overCopies registry number, given⟩)],
        [], [], [], [], [], id⟩ := ⟨_, _, _, rfl⟩
  have hcopy := kept_overCopies [⟨none, [name], false⟩] (some name) q.subSelect registry number
    fun scopes => kept_copySources _ scopes registry
  rw [hw, sites_everything]
  exact .behind (validate_everything _ _)
    ((carried_subSelect hfed hscalar name _).trans hcopy.carried)

variable {bindings : Bindings} {options : Options}

theorem Carried.values_eq {a b : List Site} (h : Carried a b)
    (hdotless : ∀ key value, bindings.get? key = some value → '.' ∉ key.toList) :
    (occurrences b).map (Occurrence.value? bindings) =
      (occurrences a).map (Occurrence.value? bindings) := by
  have hvalue : Occurrence.value? bindings = bindings.get? ∘ Occurrence.key :=
    funext (value?_of_dotless hdotless)
  rw [hvalue, ← List.map_map, ← List.map_map, h.keys]

/-- A query that is not fed by a union, reads no relation through a scalar subquery and passes its
checks keeps its parameters if everything is taken from it as a table. -/
theorem wrapped_statement_params (hfed : q.isUnionFed = false)
    (hscalar : ∀ u source, .projected (.unfolded u) source ∉ sourcesRelations q.sources)
    (hdotless : ∀ key value, bindings.get? key = some value → '.' ∉ key.toList)
    (hchecked : options.validate = true) {registry last : Registry} {result : Statement}
    (h : q.statement bindings options registry = (.ok result, last))
    (name : String) (before after : Registry) :
    ∃ result' last', (q.wrapped name before).1.statement bindings options after =
      (.ok result', last') ∧ result'.params = result.params := by
  have hcarried := carried_wrapped hfed hscalar name before
  have hvalues := hcarried.values_eq hdotless
  obtain ⟨hpasses, hbound⟩ := (exists_statement_iff registry).mp ⟨result, last, h⟩
  have hbound' : ∀ value ∈ (occurrences q.sites).map (Occurrence.value? bindings),
      value.isSome = true := List.forall_mem_map.mpr hbound
  rw [← hvalues, List.forall_mem_map] at hbound'
  obtain ⟨result', last', h'⟩ := (exists_statement_iff after).mpr
    ⟨fun _ => hcarried.passes (hpasses hchecked), hbound'⟩
  refine ⟨result', last', h', ?_⟩
  have hparams : result'.params.map some = result.params.map some := by
    rw [params_eq_of_statement h', params_eq_of_statement h, hvalues]
  exact (List.map_inj_right fun _ _ => Option.some.inj).mp hparams

def visits : Table := ⟨0, "Visits", ["id", "day"]⟩

/-- The visits since a day. -/
def recent : Query :=
  ⟨[.column (.plain (.table visits) "id")], false, [.relation (.table visits)],
    [.binary .gte (.column (.plain (.table visits) "day")) (.param "first")], [], [], [], [], 1⟩

def recentTable : Relation :=
  .derived ⟨"r", recent.subSelect, recent⟩

/-- The visits of one day, each beside every recent one. -/
def recentBeside : Query :=
  ⟨[], false, [.join .cross (.relation (.table visits)) (.relation recentTable) []],
    [.binary .eq (.column (.plain (.table visits) "day")) (.param "last")], [], [], [], [], 2⟩

def days : Bindings := .ofList [("first", .int 3), ("last", .int 5)]

theorem wrapped_statement_params_recentBeside :
    ∃ result last result' last', recentBeside.statement days {} {} = (.ok result, last) ∧
      (recentBeside.wrapped "w" {}).1.statement days {} last = (.ok result', last') ∧
      result.params = [.int 3, .int 5] ∧ result'.params = [.int 3, .int 5] := by
  have h : recentBeside.statement days {} {} = (.ok ⟨"SELECT * FROM Visits CROSS JOIN " ++
      "(SELECT Visits.id as Visits_id FROM Visits WHERE (Visits.day >= ?)) as r " ++
      "WHERE (Visits.day = ?)", [.int 3, .int 5]⟩, ⟨0, []⟩) := rfl
  have hscalar : ∀ u source,
      .projected (.unfolded u) source ∉ sourcesRelations recentBeside.sources := by
    simp [recentBeside, recentTable, sourcesRelations, Source.relations]
  have hdotless : ∀ key value, days.get? key = some value → '.' ∉ key.toList := by
    intro key value hvalue
    obtain ⟨before, later, hentries, -⟩ := List.lookup_eq_some_iff.mp hvalue
    have hdays : ∀ entry ∈ days.values.entries, '.' ∉ entry.1.toList := by decide
    exact hdays (key, value) (by simp [hentries])
  obtain ⟨result', last', h', hparams⟩ :=
    wrapped_statement_params rfl hscalar hdotless rfl h "w" {} ⟨0, []⟩
  exact ⟨_, _, result', last', h, h', rfl, hparams⟩

end Render

end QueryTree
