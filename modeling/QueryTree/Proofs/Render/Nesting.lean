import QueryTree.Proofs.Render.Sites
import QueryTree.Proofs.Tree.Copy

/-!
What the surroundings of a tree have to do with its sites. The scopes around it are passed on to
every site and decide on nothing else.
-/

namespace QueryTree.Render

/-- A site seen from further out, with more scopes around it. -/
def Site.within (outer : Scopes) : Site → Site
  | .level q => .level q
  | .column scopes c => .column (scopes ++ outer) c
  | .marker scopes key => .marker (scopes ++ outer) key

variable (scopes outer : Scopes)

mutual

theorem exprSites_append : (e : Expr) → ∀ scopes : Scopes,
    exprSites (scopes ++ outer) e = (exprSites scopes e).map (Site.within outer)
  | .value _, _ => rfl
  | .param _, _ => rfl
  | .star, _ => rfl
  | .column ⟨owner, field, label, correlated⟩, scopes => by
    simp [exprSites, columnSites_append owner]
  | .unary _ operand, scopes => by simp [exprSites, exprSites_append operand]
  | .binary _ left right, scopes => by
    simp [exprSites, exprSites_append left, exprSites_append right]
  | .between subject low high, scopes => by
    simp [exprSites, exprSites_append subject, exprSites_append low, exprSites_append high]
  | .call _ args, scopes => by simp [exprSites, exprsSites_append args]
  | .list items, scopes => by simp [exprSites, exprsSites_append items]
  | .labeled e _, scopes => by simp [exprSites, exprSites_append e]
  | .subquery ⟨name, q⟩, scopes => by
    simp [exprSites, querySites_append q (some name) none (by simp)]

theorem exprsSites_append : (es : List Expr) → ∀ scopes : Scopes,
    exprsSites (scopes ++ outer) es = (exprsSites scopes es).map (Site.within outer)
  | [], _ => rfl
  | e :: rest, scopes => by
    simp [exprsSites, exprSites_append e, exprsSites_append rest]

theorem columnSites_append : (owner : Relation) → ∀ (scopes : Scopes) (c : Column),
    columnSites (scopes ++ outer) c owner = (columnSites scopes c owner).map (Site.within outer)
  | .projected (.unfolded ⟨name, q⟩) source, scopes, c => by
    have hsource := fun scopes => columnSites_append source scopes (.plain source c.field)
    simp [columnSites, querySites_append q (some name) (some (Column.plain source c.field,
      fun scopes => columnSites scopes (Column.plain source c.field) source))
      (by rintro _ ⟨⟩; exact hsource)]
  | .projected (.derived d) source, _, _ => rfl
  | .table t, _, _ => rfl
  | .alias_ a, _, _ => rfl
  | .derived d, _, _ => rfl

theorem querySites_append : (q : Query) → ∀ (alias_ : Option String)
    (only : Option (Narrowing Site)),
    (∀ c, only = some c → ∀ scopes, c.2 (scopes ++ outer) = (c.2 scopes).map (Site.within outer)) →
    ∀ scopes : Scopes, querySites (scopes ++ outer) alias_ only q =
      (querySites scopes alias_ only q).map (Site.within outer)
  | ⟨select, sub, sources, filter, group, having, order, limit, id⟩, alias_, only, honly,
    scopes => by
    have hselect := fun frame => exprsSites_append select (frame :: scopes)
    have hsources := fun frame => sourcesSites_append sources (frame :: scopes)
    have hfilter := fun frame => exprsSites_append filter (frame :: scopes)
    have hgroup := fun frame => exprsSites_append group (frame :: scopes)
    have hhaving := fun frame => exprsSites_append having (frame :: scopes)
    have horder := fun frame => exprsSites_append order (frame :: scopes)
    have hlimit := fun frame => exprsSites_append limit (frame :: scopes)
    simp only [List.cons_append] at hselect hsources hfilter hgroup hhaving horder hlimit
    cases only with
    | none =>
      simp [querySites, Site.within, hselect, hsources, hfilter, hgroup, hhaving, horder, hlimit]
    | some c =>
      have hcolumn := fun frame => honly c rfl (frame :: scopes)
      simp only [List.cons_append] at hcolumn
      simp [querySites, Site.within, hcolumn, hsources, hfilter, hgroup, hhaving, horder, hlimit]

theorem sourcesSites_append : (sources : List Source) → ∀ scopes : Scopes,
    sourcesSites (scopes ++ outer) sources = (sourcesSites scopes sources).map (Site.within outer)
  | [], _ => rfl
  | source :: rest, scopes => by
    simp [sourcesSites, sourceSites_append source, sourcesSites_append rest]

theorem sourceSites_append : (source : Source) → ∀ scopes : Scopes,
    sourceSites (scopes ++ outer) source = (sourceSites scopes source).map (Site.within outer)
  | .relation (.table _), _ => rfl
  | .relation (.alias_ _), _ => rfl
  | .relation (.projected _ _), _ => rfl
  | .relation (.derived ⟨name, q, _⟩), scopes => by
    simp [sourceSites, querySites_append q (some name) none (by simp)]
  | .join kind left right on, scopes => by
    simp [sourceSites, sourceSites_append left, sourceSites_append right, exprsSites_append on]
  | .union op left right, scopes => by
    simp [sourceSites, querySites_append left none none (by simp),
      querySites_append right none none (by simp)]

end

end QueryTree.Render
