import QueryTree.Proofs.Render.Picking
import QueryTree.Proofs.Union.Basic

/-!
The places of a query at which writing depends on more than the tree: the levels that are checked,
the columns whose owners are looked for in the scopes, and the placeholders whose constants are.
They are listed in the order of the tree, which is that of the text.
-/

namespace QueryTree.Render

inductive Site where
  /-- A level, before anything of it is written. -/
  | level (q : Query)
  /-- A column that does not stand for a subquery. -/
  | column (scopes : Scopes) (c : Column)
  | marker (scopes : Scopes) (key : String)

/-- The frame of a level. A bare union has no FROM of its own. -/
def Query.frame (alias_ : Option String) (q : Query) : Frame :=
  if q.isBareUnion then ⟨alias_, [], false⟩ else ⟨alias_, q.reachableNames, q.isUnionFed⟩

mutual

def exprSites (scopes : Scopes) : Expr → List Site
  | .value _ => []
  | .param key => [.marker scopes key]
  | .star => []
  | .column ⟨owner, field, label, correlated⟩ =>
    columnSites scopes ⟨owner, field, label, correlated⟩ owner
  | .unary _ operand => exprSites scopes operand
  | .binary _ left right => exprSites scopes left ++ exprSites scopes right
  | .between subject low high =>
    exprSites scopes subject ++ exprSites scopes low ++ exprSites scopes high
  | .call _ args => exprsSites scopes args
  | .list items => exprsSites scopes items
  | .labeled e _ => exprSites scopes e
  | .subquery ⟨name, q⟩ => querySites scopes (some name) none q

def exprsSites (scopes : Scopes) : List Expr → List Site
  | [] => []
  | e :: rest => exprSites scopes e ++ exprsSites scopes rest

/-- The sites of a column, given with its owner. One seen through a scalar subquery has those of the
subquery, with the column of its source in place of the SELECT list. -/
def columnSites (scopes : Scopes) (c : Column) : Relation → List Site
  | .projected (.unfolded ⟨name, q⟩) source =>
    let inner := Column.plain source c.field
    querySites scopes (some name) (some (inner, fun scopes => columnSites scopes inner source)) q
  | _ => [.column scopes c]

/-- The sites of a query, given with the name that it has in the level around it. -/
def querySites (scopes : Scopes) (alias_ : Option String) (only : Option (Narrowing Site)) :
    Query → List Site
  | ⟨select, sub, sources, filter, group, having, order, limit, id⟩ =>
    let q := Query.narrowed only ⟨select, sub, sources, filter, group, having, order, limit, id⟩
    let inside := Query.frame alias_ q :: scopes
    .level q :: (only.elim (exprsSites inside select) (·.2 inside) ++ sourcesSites inside sources ++
      exprsSites inside filter ++ exprsSites inside group ++ exprsSites inside having ++
      exprsSites inside order ++ exprsSites inside limit)

def sourcesSites (scopes : Scopes) : List Source → List Site
  | [] => []
  | source :: rest => sourceSites scopes source ++ sourcesSites scopes rest

/-- The sites of a source: its sides from left to right, then what joins them. -/
def sourceSites (scopes : Scopes) : Source → List Site
  | .relation (.derived ⟨name, q, _⟩) => querySites scopes (some name) none q
  | .relation _ => []
  | .join _ left right on =>
    sourceSites scopes left ++ sourceSites scopes right ++ exprsSites scopes on
  | .union _ left right => querySites scopes none none left ++ querySites scopes none none right

end

@[simp] def Fragment.sites : Fragment → List Site
  | .check q => [.level q]
  | .column scopes c => [.column scopes c]
  | .marker scopes key => [.marker scopes key]
  | _ => []

@[simp] theorem passingNames_sites : PassingNames Fragment.sites :=
  ⟨⟨fun _ => rfl, rfl⟩, fun _ => rfl⟩

@[simp] theorem passing_sites : Passing Fragment.sites :=
  passingNames_sites.toPassing

theorem narrowed_none {α : Type} (q : Query) :
    Query.narrowed (none : Option (Narrowing α)) q = q :=
  rfl

theorem narrowed_some {α : Type} (c : Narrowing α) (q : Query) :
    Query.narrowed (some c) q = { q with selectList := [.column c.1] } := by
  cases hsub : q.isSubSelect <;>
    simp [Query.narrowed, Query.extend, Query.withItems, Query.clause, Query.selectClause,
      Clause.extendedExprs, Clause.extended, ClauseKind.isPredicate, hsub]

theorem isBareUnion_narrowed {α : Type} (c : Narrowing α) (q : Query) :
    (Query.narrowed (some c) q).isBareUnion = false := by
  simp [narrowed_some, Query.isBareUnion]

/-- The sites of a narrowing are those of the fragments in place of a SELECT list. -/
structure SameColumn (written : Narrowing Fragment) (walked : Narrowing Site) : Prop where
  column : written.1 = walked.1
  sites : ∀ scopes, (written.2 scopes).flatMap Fragment.sites = walked.2 scopes

mutual

theorem sites_expr (scopes : Scopes) : (e : Expr) →
    (exprFragments scopes e).flatMap Fragment.sites = exprSites scopes e
  | .value v => rfl
  | .param key => rfl
  | .star => rfl
  | .column ⟨owner, field, label, correlated⟩ => by
    simp [exprFragments, exprSites, sites_column scopes _ owner]
  | .unary op operand => by
    have h := sites_expr scopes operand
    cases hop : op.isPostfix <;> simp [exprFragments, exprSites, hop, h]
  | .binary op left right => by
    have hl := sites_expr scopes left
    have hr := sites_expr scopes right
    simp [exprFragments, exprSites, hl, hr]
  | .between subject low high => by
    have hs := sites_expr scopes subject
    have hl := sites_expr scopes low
    have hh := sites_expr scopes high
    simp [exprFragments, exprSites, hs, hl, hh]
  | .call name args => by
    have h := sites_exprs scopes args
    simp [exprFragments, exprSites, h]
  | .list items => by
    have h := sites_exprs scopes items
    simp [exprFragments, exprSites, h]
  | .labeled e _ => by simpa [exprFragments, exprSites] using sites_expr scopes e
  | .subquery ⟨name, q⟩ => by
    have h := sites_query scopes (some name) .own none none .none q
    simp [exprFragments, exprSites, h]

theorem sites_exprs (scopes : Scopes) : (es : List Expr) →
    (exprsFragments scopes es).flatMap (List.flatMap Fragment.sites) = exprsSites scopes es
  | [] => rfl
  | e :: rest => by
    have h := sites_expr scopes e
    have hs := sites_exprs scopes rest
    simp [exprsFragments, exprsSites, h, hs]

theorem sites_column (scopes : Scopes) (c : Column) : (owner : Relation) →
    (columnFragments scopes c owner).flatMap Fragment.sites = columnSites scopes c owner
  | .projected (.unfolded ⟨name, q⟩) source => by
    have h := sites_query scopes (some name) .made
      (some (Column.plain source c.field,
        fun scopes => columnFragments scopes (Column.plain source c.field) source))
      (some (Column.plain source c.field,
        fun scopes => columnSites scopes (Column.plain source c.field) source))
      (.some ⟨rfl, fun scopes => sites_column scopes _ source⟩) q
    simp [columnFragments, columnSites, h]
  | .projected (.derived d) source => rfl
  | .table t => rfl
  | .alias_ a => rfl
  | .derived d => rfl

theorem sites_query (scopes : Scopes) (alias_ : Option String) (identity : Identity)
    (written : Option (Narrowing Fragment)) (walked : Option (Narrowing Site))
    (h : Option.Rel SameColumn written walked) : (q : Query) →
    (queryFragments scopes alias_ identity written q).flatMap Fragment.sites =
      querySites scopes alias_ walked q
  | ⟨select, sub, sources, filter, group, having, order, limit, id⟩ => by
    have hselect := fun scopes => sites_exprs scopes select
    have hsources := fun scopes => sites_sources scopes identity sources
    have hfilter := fun scopes => sites_exprs scopes filter
    have hgroup := fun scopes => sites_exprs scopes group
    have hhaving := fun scopes => sites_exprs scopes having
    have horder := fun scopes => sites_exprs scopes order
    have hlimit := fun scopes => sites_exprs scopes limit
    have hunion := fun scopes => sites_bareUnion scopes identity sources
    rw [queryFragments, querySites, List.flatMap_cons]
    cases h with
    | none =>
      by_cases hbare : Query.isBareUnion
        ⟨select, sub, sources, filter, group, having, order, limit, id⟩
      · -- a bare union has no clause but FROM, so its walk is that of its operands
        obtain ⟨op, left, right, hsource, rfl, rfl, rfl, rfl, rfl, rfl⟩ :=
          (Query.isBareUnion_iff _).mp hbare
        simp [narrowed_none, Query.frame, hbare, hunion _ ⟨op, left, right, hsource⟩, exprsSites]
      · simp [narrowed_none, Query.frame, hbare, narrowedItems, hselect, hsources, hfilter, hgroup,
          hhaving, horder, hlimit]
    | @some written walked h =>
      have hnarrowed : ∀ q, Query.narrowed (some written) q = Query.narrowed (some walked) q := by
        simp [narrowed_some, h.column]
      simp [hnarrowed, Query.frame, isBareUnion_narrowed, narrowedItems, h.sites, hsources, hfilter,
        hgroup, hhaving, horder, hlimit]

theorem sites_bareUnion (scopes : Scopes) (identity : Identity) : (sources : List Source) →
    (∃ op left right, sources = [.union op left right]) →
    (bareUnionFragments scopes identity sources).flatMap Fragment.sites =
      sourcesSites scopes sources
  | .union op left right :: rest, hunion => by
    have hl := sites_query scopes none identity.ofOperands none none .none left
    have hr := sites_query scopes none identity.ofOperands none none .none right
    obtain ⟨_, _, _, hrest⟩ := hunion
    rw [List.cons.injEq] at hrest
    simp [bareUnionFragments, sourcesSites, sourceSites, hl, hr, hrest.2]

theorem sites_sources (scopes : Scopes) (identity : Identity) : (sources : List Source) →
    (sourcesFragments scopes identity sources).flatMap (List.flatMap Fragment.sites) =
      sourcesSites scopes sources
  | [] => rfl
  | source :: rest => by
    have h := sites_source scopes identity source
    have hs := sites_sources scopes identity rest
    simp [sourcesFragments, sourcesSites, h, hs]

theorem sites_source (scopes : Scopes) (identity : Identity) : (source : Source) →
    (sourceFragments scopes identity source).flatMap Fragment.sites = sourceSites scopes source
  | .relation (.table t) => rfl
  | .relation (.alias_ a) => rfl
  | .relation (.projected scope _) => rfl
  | .relation (.derived ⟨name, q, _⟩) => by
    have h := sites_query scopes (some name) .own none none .none q
    simp [sourceFragments, sourceSites, h]
  | .join kind left right on => by
    have hl := sites_source scopes identity left
    have hr := sites_source scopes identity right
    have hon := sites_exprs scopes on
    cases hj : right.isJoin <;>
      simp [sourceFragments, sourceSites, hj, hl, hr, hon]
  | .union op left right => by
    have hl := sites_query scopes none identity.ofOperands none none .none left
    have hr := sites_query scopes none identity.ofOperands none none .none right
    simp [sourceFragments, sourceSites, hl, hr]

end

end QueryTree.Render

namespace QueryTree

/-- The sites of a query that is written on its own. -/
def Query.sites (q : Query) : List Render.Site :=
  Render.querySites [] none none q

theorem Query.sites_fragments (q : Query) :
    q.fragments.flatMap Render.Fragment.sites = q.sites :=
  Render.sites_query [] none .own none none .none q

end QueryTree
