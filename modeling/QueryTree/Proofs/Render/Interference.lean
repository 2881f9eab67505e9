import QueryTree.Proofs.Render.Rebinding

/-!
Constants bound under a path of scopes. Where neither the names of scopes nor the keys of
placeholders hold a dot, a path and a key can be read off the two joined by dots. So a constant that
is bound in this way goes to the placeholders of the key in that one scope.
-/

namespace QueryTree

mutual

/-- The names of the derived tables and subqueries that are written, and the keys of the
placeholders. -/
def Expr.segments : Expr → List String
  | .value _ => []
  | .param key => [key]
  | .star => []
  | .column ⟨owner, _, _, _⟩ => owner.segments
  | .unary _ operand => operand.segments
  | .binary _ left right => left.segments ++ right.segments
  | .between subject low high => subject.segments ++ low.segments ++ high.segments
  | .call _ args => exprsSegments args
  | .list items => exprsSegments items
  | .labeled e _ => e.segments
  | .subquery ⟨name, q⟩ => name :: q.segments

def exprsSegments : List Expr → List String
  | [] => []
  | e :: rest => e.segments ++ exprsSegments rest

/-- The segments behind a column of a relation. It has some if it stands for a subquery. -/
def Relation.segments : Relation → List String
  | .projected (.unfolded ⟨name, q⟩) source => name :: (q.segments ++ source.segments)
  | _ => []

def Query.segments : Query → List String
  | ⟨select, _, sources, filter, group, having, order, limit, _⟩ =>
    exprsSegments select ++ sourcesSegments sources ++ exprsSegments filter ++
      exprsSegments group ++ exprsSegments having ++ exprsSegments order ++ exprsSegments limit

def sourcesSegments : List Source → List String
  | [] => []
  | source :: rest => source.segments ++ sourcesSegments rest

def Source.segments : Source → List String
  | .relation (.derived ⟨name, q, _⟩) => name :: q.segments
  | .relation _ => []
  | .join _ left right on => left.segments ++ right.segments ++ exprsSegments on
  | .union _ left right => left.segments ++ right.segments

end

namespace Render

/-- The keys of the placeholders among some sites, and the names of the levels around them, have a
property. -/
def Spelled (P : String → Prop) (sites : List Site) : Prop :=
  ∀ o ∈ occurrences sites, P o.key ∧ ∀ name ∈ o.path, P name

section
variable {P : String → Prop}

@[simp] theorem spelled_nil : Spelled P [] := by
  simp [Spelled]

@[simp] theorem spelled_append {a b : List Site} :
    Spelled P (a ++ b) ↔ Spelled P a ∧ Spelled P b := by
  simp only [Spelled, occurrences_append, List.forall_mem_append]

@[simp] theorem spelled_level {q : Query} {sites : List Site} :
    Spelled P (.level q :: sites) ↔ Spelled P sites := by
  simp [Spelled, occurrences, Site.occurrence?]

@[simp] theorem spelled_column {scopes : Scopes} {c : Column} :
    Spelled P [.column scopes c] := by
  simp [Spelled, occurrences, Site.occurrence?]

@[simp] theorem spelled_marker {scopes : Scopes} {key : String} :
    Spelled P [.marker scopes key] ↔ P key ∧ ∀ name ∈ scopes.names, P name := by
  simp [Spelled, occurrences, Site.occurrence?]

theorem names_frame {scopes : Scopes} (h : ∀ name ∈ scopes.names, P name) {frame : Frame}
    (hframe : ∀ name ∈ frame.alias_, P name) : ∀ name ∈ Scopes.names (frame :: scopes), P name := by
  simp only [Scopes.names, List.reverse_cons, List.filterMap_append, List.forall_mem_append]
  refine ⟨h, ?_⟩
  cases halias : frame.alias_ with
  | none => simp [halias]
  | some name => simpa [halias] using hframe name halias

theorem alias_frame {alias_ : Option String} {q : Query} (h : ∀ name ∈ alias_, P name) :
    ∀ name ∈ (Query.frame alias_ q).alias_, P name := by
  unfold Query.frame
  split <;> exact h

-- A level narrowed to one column has the sites behind that column in place of its SELECT list, so
-- these are passed in with the property.
mutual

theorem spelled_expr : (e : Expr) → (∀ s ∈ e.segments, P s) → ∀ scopes : Scopes,
    (∀ name ∈ scopes.names, P name) → Spelled P (exprSites scopes e)
  | .value _, _, _, _ => by simp [exprSites]
  | .param key, h, scopes, hscopes => by
    rw [Expr.segments, List.forall_mem_singleton] at h
    exact spelled_marker.mpr ⟨h, hscopes⟩
  | .star, _, _, _ => by simp [exprSites]
  | .column ⟨owner, field, label, correlated⟩, h, scopes, hscopes =>
    spelled_columnOf owner h scopes hscopes _
  | .unary _ operand, h, scopes, hscopes => spelled_expr operand h scopes hscopes
  | .binary _ left right, h, scopes, hscopes => by
    rw [Expr.segments, List.forall_mem_append] at h
    obtain ⟨hleft, hright⟩ := h
    exact spelled_append.mpr
      ⟨spelled_expr left hleft scopes hscopes, spelled_expr right hright scopes hscopes⟩
  | .between subject low high, h, scopes, hscopes => by
    rw [Expr.segments, List.forall_mem_append, List.forall_mem_append] at h
    obtain ⟨⟨hsubject, hlow⟩, hhigh⟩ := h
    rw [exprSites, spelled_append, spelled_append]
    exact ⟨⟨spelled_expr subject hsubject scopes hscopes, spelled_expr low hlow scopes hscopes⟩,
      spelled_expr high hhigh scopes hscopes⟩
  | .call _ args, h, scopes, hscopes => spelled_exprs args h scopes hscopes
  | .list items, h, scopes, hscopes => spelled_exprs items h scopes hscopes
  | .labeled e _, h, scopes, hscopes => spelled_expr e h scopes hscopes
  | .subquery ⟨name, q⟩, h, scopes, hscopes => by
    rw [Expr.segments, List.forall_mem_cons] at h
    obtain ⟨hname, hq⟩ := h
    exact spelled_query q hq scopes hscopes (some name) (by simpa using hname) none (by simp)

theorem spelled_exprs : (es : List Expr) → (∀ s ∈ exprsSegments es, P s) → ∀ scopes : Scopes,
    (∀ name ∈ scopes.names, P name) → Spelled P (exprsSites scopes es)
  | [], _, _, _ => by simp [exprsSites]
  | e :: rest, h, scopes, hscopes => by
    rw [exprsSegments, List.forall_mem_append] at h
    exact spelled_append.mpr
      ⟨spelled_expr e h.1 scopes hscopes, spelled_exprs rest h.2 scopes hscopes⟩

theorem spelled_columnOf : (owner : Relation) → (∀ s ∈ owner.segments, P s) → ∀ scopes : Scopes,
    (∀ name ∈ scopes.names, P name) → ∀ c, Spelled P (columnSites scopes c owner)
  | .projected (.unfolded ⟨name, q⟩) source, h, scopes, hscopes, c => by
    rw [Relation.segments, List.forall_mem_cons, List.forall_mem_append] at h
    obtain ⟨hname, hq, hsource⟩ := h
    refine spelled_query q hq scopes hscopes (some name) (by simpa using hname) _ ?_
    rintro _ ⟨⟩ inside hinside
    exact spelled_columnOf source hsource inside hinside _
  | .projected (.derived d) source, _, _, _, _ => by simp [columnSites]
  | .table t, _, _, _, _ => by simp [columnSites]
  | .alias_ a, _, _, _, _ => by simp [columnSites]
  | .derived d, _, _, _, _ => by simp [columnSites]

theorem spelled_query : (q : Query) → (∀ s ∈ q.segments, P s) → ∀ scopes : Scopes,
    (∀ name ∈ scopes.names, P name) → ∀ alias_ : Option String, (∀ name ∈ alias_, P name) →
    ∀ only : Option (Narrowing Site), (∀ c ∈ only, ∀ inside : Scopes,
      (∀ name ∈ inside.names, P name) → Spelled P (c.2 inside)) →
    Spelled P (querySites scopes alias_ only q)
  | ⟨select, sub, sources, filter, group, having, order, limit, id⟩, h, scopes, hscopes, alias_,
      halias, only, honly => by
    simp only [Query.segments, List.forall_mem_append] at h
    obtain ⟨⟨⟨⟨⟨⟨hselect, hsources⟩, hfilter⟩, hgroup⟩, hhaving⟩, horder⟩, hlimit⟩ := h
    have hframe := fun q => names_frame hscopes (alias_frame (q := q) halias)
    rw [querySites, spelled_level]
    simp only [spelled_append]
    refine ⟨⟨⟨⟨⟨⟨?_, spelled_sources sources hsources _ (hframe _)⟩,
      spelled_exprs filter hfilter _ (hframe _)⟩, spelled_exprs group hgroup _ (hframe _)⟩,
      spelled_exprs having hhaving _ (hframe _)⟩, spelled_exprs order horder _ (hframe _)⟩,
      spelled_exprs limit hlimit _ (hframe _)⟩
    cases only with
    | none => exact spelled_exprs select hselect _ (hframe _)
    | some c => exact honly c rfl _ (hframe _)

theorem spelled_sources : (sources : List Source) → (∀ s ∈ sourcesSegments sources, P s) →
    ∀ scopes : Scopes, (∀ name ∈ scopes.names, P name) → Spelled P (sourcesSites scopes sources)
  | [], _, _, _ => by simp [sourcesSites]
  | source :: rest, h, scopes, hscopes => by
    rw [sourcesSegments, List.forall_mem_append] at h
    exact spelled_append.mpr
      ⟨spelled_source source h.1 scopes hscopes, spelled_sources rest h.2 scopes hscopes⟩

theorem spelled_source : (source : Source) → (∀ s ∈ source.segments, P s) → ∀ scopes : Scopes,
    (∀ name ∈ scopes.names, P name) → Spelled P (sourceSites scopes source)
  | .relation (.table _), _, _, _ => by simp [sourceSites]
  | .relation (.alias_ _), _, _, _ => by simp [sourceSites]
  | .relation (.projected _ _), _, _, _ => by simp [sourceSites]
  | .relation (.derived ⟨name, q, _⟩), h, scopes, hscopes => by
    rw [Source.segments, List.forall_mem_cons] at h
    exact spelled_query q h.2 scopes hscopes (some name) (by simpa using h.1) none (by simp)
  | .join _ left right on, h, scopes, hscopes => by
    rw [Source.segments, List.forall_mem_append, List.forall_mem_append] at h
    obtain ⟨⟨hleft, hright⟩, hon⟩ := h
    rw [sourceSites, spelled_append, spelled_append]
    exact ⟨⟨spelled_source left hleft scopes hscopes, spelled_source right hright scopes hscopes⟩,
      spelled_exprs on hon scopes hscopes⟩
  | .union _ left right, h, scopes, hscopes => by
    rw [Source.segments, List.forall_mem_append] at h
    exact spelled_append.mpr
      ⟨spelled_query left h.1 scopes hscopes none (by simp) none (by simp),
        spelled_query right h.2 scopes hscopes none (by simp) none (by simp)⟩

end

/-- The placeholders of a query are spelled with its segments. -/
theorem spelled_sites {q : Query} (h : ∀ s ∈ q.segments, P s) : Spelled P q.sites :=
  spelled_query q h [] (by simp [Scopes.names]) none (by simp) none (by simp)

end

/-- Texts without dots can be read off their line with dots in between. -/
theorem eq_of_dotted {texts others : List String} (hne : texts ≠ []) (hne' : others ≠ [])
    (hdotless : ∀ text ∈ texts, '.' ∉ text.toList) (hdotless' : ∀ text ∈ others, '.' ∉ text.toList)
    (h : ".".intercalate texts = ".".intercalate others) : texts = others := by
  have hread : ∀ {texts : List String}, texts ≠ [] → (∀ text ∈ texts, '.' ∉ text.toList) →
      (".".intercalate texts).toList.splitOn '.' = texts.map String.toList := by
    intro texts hne hdotless
    rw [String.toList_intercalate]
    exact List.splitOn_intercalate '.' (List.forall_mem_map.mpr hdotless) (by simpa using hne)
  have hlists : texts.map String.toList = others.map String.toList := by
    rw [← hread hne hdotless, ← hread hne' hdotless', h]
  exact (List.map_inj_right fun _ _ => String.toList_inj.mp).mp hlists

namespace Occurrence

/-- The key with its path in front. -/
def scopedKey (o : Occurrence) : String :=
  ".".intercalate (o.path ++ [o.key])

/-- Whether neither the key nor a name of the path holds a dot. -/
def Dotless (o : Occurrence) : Prop :=
  '.' ∉ o.key.toList ∧ ∀ name ∈ o.path, '.' ∉ name.toList

variable {o target : Occurrence}

theorem dotless_iff : o.Dotless ↔ ∀ text ∈ o.path ++ [o.key], '.' ∉ text.toList := by
  rw [List.forall_mem_append, List.forall_mem_singleton, and_comm]
  rfl

theorem scopedKey_of_ne_nil (h : o.path ≠ []) :
    o.scopedKey = ".".intercalate o.path ++ "." ++ o.key := by
  rw [scopedKey, String.intercalate_append_of_ne_nil h (by simp), String.intercalate_singleton]

theorem eq_of_scopedKey (h : o.Dotless) (htarget : target.Dotless)
    (hkey : o.scopedKey = target.scopedKey) : o = target := by
  have hlists : o.path ++ [o.key] = target.path ++ [target.key] :=
    eq_of_dotted (by simp) (by simp) (dotless_iff.mp h) (dotless_iff.mp htarget) hkey
  obtain ⟨hpath, hlast⟩ := List.append_inj' hlists rfl
  cases o
  cases target
  simp_all

/-- A bare key is the scoped key of a placeholder outside of all scopes. -/
theorem key_ne_scopedKey (h : o.Dotless) (htarget : target.Dotless) (hinside : target.path ≠ []) :
    o.key ≠ target.scopedKey := by
  intro hkey
  have houtside : (Occurrence.mk [] o.key).scopedKey = target.scopedKey := by
    rw [← hkey, scopedKey, List.nil_append, String.intercalate_singleton]
  have hsame := eq_of_scopedKey (o := ⟨[], o.key⟩) ⟨h.1, by simp⟩ htarget houtside
  exact hinside (hsame ▸ rfl)

end Occurrence

variable {bindings other : Bindings} {options : Options}

/-- A constant that is bound under a path is that of one placeholder alone. -/
theorem value?_eq_of_ne {o target : Occurrence} (h : o.Dotless) (htarget : target.Dotless)
    (hinside : target.path ≠ []) (hdiffer : bindings.DifferAt target.scopedKey other)
    (hne : o ≠ target) : o.value? bindings = o.value? other := by
  have hbare : bindings.get? o.key = other.get? o.key :=
    hdiffer.same _ (Occurrence.key_ne_scopedKey h htarget hinside)
  simp only [Occurrence.value?]
  split
  · exact hbare
  next hscope =>
    have hpath : o.path ≠ [] := by
      intro hnil
      simp [hnil] at hscope
    have hscoped : bindings.get? o.scopedKey = other.get? o.scopedKey :=
      hdiffer.same _ fun hkey => hne (Occurrence.eq_of_scopedKey h htarget hkey)
    rw [Occurrence.scopedKey_of_ne_nil hpath] at hscoped
    rw [hscoped, hbare]

/-- Where no name of a scope and no key holds a dot: bindings that differ in the constant of one
scoped key give the same text or the same error, and as many parameters as there are placeholders.
Only the parameters of the placeholders with that key in that scope may differ. -/
theorem statement_scoped_key {q : Query} (hdotless : ∀ s ∈ q.segments, '.' ∉ s.toList)
    {target : Occurrence} (htarget : target.Dotless) (hinside : target.path ≠ [])
    (hdiffer : bindings.DifferAt target.scopedKey other) (options : Options)
    (registry : Registry) :
    (∃ e last, q.statement bindings options registry = (.error e, last) ∧
        q.statement other options registry = (.error e, last)) ∨
      ∃ (sql : String) (params params' : List Value) (last : Registry),
        q.statement bindings options registry = (.ok ⟨sql, params⟩, last) ∧
        q.statement other options registry = (.ok ⟨sql, params'⟩, last) ∧
        params.length = (occurrences q.sites).length ∧ params'.length = params.length ∧
        ∀ i : Nat, params[i]? ≠ params'[i]? → (occurrences q.sites)[i]? = some target := by
  rcases statement_rebound hdiffer.sameKeys q registry with
    hfails | ⟨sql, params, params', last, h, h'⟩
  · exact .inl hfails
  · refine .inr ⟨sql, params, params', last, h, h', ?_, ?_, ?_⟩
    · simpa using congrArg List.length (params_eq_of_statement h)
    · have hlength := congrArg List.length (params_eq_of_statement h)
      have hlength' := congrArg List.length (params_eq_of_statement h')
      rw [List.length_map, List.length_map] at hlength hlength'
      exact hlength'.trans hlength.symm
    · intro i hne
      rw [getElem?_params h, getElem?_params h'] at hne
      cases ho : (occurrences q.sites)[i]? with
      | none => simp [ho] at hne
      | some o =>
        have hspelled : o.Dotless := spelled_sites hdotless o (List.mem_of_getElem? ho)
        rw [ho] at hne
        refine congrArg some (Decidable.byContradiction fun hother => ?_)
        exact hne (value?_eq_of_ne hspelled htarget hinside hdiffer hother)

/-- The owner of the accounts in the scalar, that of those beside it and that of the table. -/
def ownersWith (scalarOwner : Value) : Bindings :=
  (Bindings.ofList [("owner", .int 1), ("d.owner", .int 3)]).bind "s.owner" scalarOwner

/-- Another owner in the scalar changes the first parameter. The key is the same in all three
places. -/
theorem statement_scoped_key_ownedTwice :
    ∃ (sql : String) (params params' : List Value) (last : Registry),
      ownedTwice.statement (ownersWith (.int 2)) {} {} = (.ok ⟨sql, params⟩, last) ∧
      ownedTwice.statement (ownersWith (.int 9)) {} {} = (.ok ⟨sql, params'⟩, last) ∧
      params = [.int 2, .int 1, .int 3] ∧ params' = [.int 9, .int 1, .int 3] ∧
      ∀ i : Nat, params[i]? ≠ params'[i]? →
        (occurrences ownedTwice.sites)[i]? = some ⟨["s"], "owner"⟩ := by
  have hdotless : ∀ s ∈ ownedTwice.segments, '.' ∉ s.toList := by decide
  have htarget : (Occurrence.mk ["s"] "owner").Dotless := by
    constructor <;> decide
  have hkey : (Occurrence.mk ["s"] "owner").scopedKey = "s.owner" := by decide
  have hdiffer : (ownersWith (.int 2)).DifferAt (Occurrence.mk ["s"] "owner").scopedKey
      (ownersWith (.int 9)) := by
    rw [hkey]
    exact Bindings.differAt_bind _ _ _ _
  rcases statement_scoped_key hdotless htarget (by simp) hdiffer {} {} with
    ⟨e, last, h, -⟩ | ⟨sql, params, params', last, h, h', -, -, hplaces⟩
  · have hok : ∃ result last', ownedTwice.statement (ownersWith (.int 2)) {} {} =
        (.ok result, last') := ⟨_, _, rfl⟩
    obtain ⟨result, last', hok⟩ := hok
    rw [h] at hok
    cases hok
  · exact ⟨sql, params, params', last, h, h', by cases h; rfl, by cases h'; rfl, hplaces⟩

end Render

end QueryTree
