import QueryTree.Proofs.Render.Checks
import QueryTree.Proofs.Render.Nesting
import QueryTree.Proofs.Render.Parameters
import QueryTree.Proofs.Tree.Copy

/-!
Sites that stand for others: their checks pass if those of the others do, and they hold the same
placeholders. A copy of a query has such sites, and so has a query further in. In a copy the
placeholders have the same levels around them, further in they have more.
-/

namespace QueryTree.Render

/-- The second sites pass their checks if the first ones do, and both hold the same keys. -/
structure Carried (given others : List Site) : Prop where
  passes : (∀ site ∈ given, site.Passes) → ∀ site ∈ others, site.Passes
  keys : (occurrences others).map Occurrence.key = (occurrences given).map Occurrence.key

namespace Carried

theorem refl (sites : List Site) : Carried sites sites :=
  ⟨id, rfl⟩

theorem trans {a b c : List Site} (hab : Carried a b) (hbc : Carried b c) : Carried a c :=
  ⟨hbc.passes ∘ hab.passes, hbc.keys.trans hab.keys⟩

theorem append {a b c d : List Site} (hab : Carried a b) (hcd : Carried c d) :
    Carried (a ++ c) (b ++ d) := by
  refine ⟨fun h => ?_, by simp [hab.keys, hcd.keys]⟩
  rw [List.forall_mem_append] at *
  exact ⟨hab.passes h.1, hcd.passes h.2⟩

theorem level {q q' : Query} {a b : List Site} (hlevel : q.validate = .ok () → q'.validate = .ok ())
    (hrest : Carried a b) : Carried (.level q :: a) (.level q' :: b) := by
  refine ⟨fun h => ?_, hrest.keys⟩
  rw [List.forall_mem_cons] at *
  exact ⟨hlevel h.1, hrest.passes h.2⟩

theorem behind {q : Query} {a b : List Site} (hlevel : q.validate = .ok ()) (hrest : Carried a b) :
    Carried a (.level q :: b) :=
  ⟨fun h => List.forall_mem_cons.mpr ⟨hlevel, hrest.passes h⟩, hrest.keys⟩

end Carried

/-- The second sites pass their checks if the first ones do, and both hold the same placeholders in
the same levels. -/
structure Kept (given others : List Site) : Prop where
  passes : (∀ site ∈ given, site.Passes) → ∀ site ∈ others, site.Passes
  occurrences : occurrences others = occurrences given

namespace Kept

theorem refl (sites : List Site) : Kept sites sites :=
  ⟨id, rfl⟩

theorem append {a b c d : List Site} (hab : Kept a b) (hcd : Kept c d) :
    Kept (a ++ c) (b ++ d) := by
  refine ⟨fun h => ?_, by simp [hab.occurrences, hcd.occurrences]⟩
  rw [List.forall_mem_append] at *
  exact ⟨hab.passes h.1, hcd.passes h.2⟩

theorem level {q q' : Query} {a b : List Site} (hlevel : q.validate = .ok () → q'.validate = .ok ())
    (hrest : Kept a b) : Kept (.level q :: a) (.level q' :: b) := by
  refine ⟨fun h => ?_, hrest.occurrences⟩
  rw [List.forall_mem_cons] at *
  exact ⟨hlevel h.1, hrest.passes h.2⟩

theorem carried {a b : List Site} (h : Kept a b) : Carried a b :=
  ⟨h.passes, by rw [h.occurrences]⟩

end Kept

theorem querySites_none (scopes : Scopes) (alias_ : Option String) (q : Query) :
    querySites scopes alias_ none q = .level q ::
      (exprsSites (Query.frame alias_ q :: scopes) q.selectList ++
        sourcesSites (Query.frame alias_ q :: scopes) q.sources ++
        exprsSites (Query.frame alias_ q :: scopes) q.whereList ++
        exprsSites (Query.frame alias_ q :: scopes) q.groupList ++
        exprsSites (Query.frame alias_ q :: scopes) q.havingList ++
        exprsSites (Query.frame alias_ q :: scopes) q.orderList ++
        exprsSites (Query.frame alias_ q :: scopes) q.limitList) := by
  cases q
  rfl

theorem frame_overCopies (alias_ : Option String) (q : Query) (registry : Registry) (id : Nat) :
    Query.frame alias_ (q.overCopies registry id) = Query.frame alias_ q := by
  simp only [Query.frame, Query.isBareUnion_overCopies, Query.reachableNames_overCopies,
    Query.isUnionFed_overCopies]

/-- Over copies of its sources a query has the sites that it has over the sources. -/
theorem kept_overCopies (scopes : Scopes) (alias_ : Option String) (q : Query)
    (registry : Registry) (id : Nat)
    (hsources : ∀ scopes, Kept (sourcesSites scopes q.sources)
      (sourcesSites scopes (copySources q.sources registry).1)) :
    Kept (querySites scopes alias_ none q)
      (querySites scopes alias_ none (q.overCopies registry id)) := by
  rw [querySites_none, querySites_none, frame_overCopies]
  refine .level (fun h => (q.validate_overCopies registry id).trans h) ?_
  have hselect := Kept.refl (exprsSites (Query.frame alias_ q :: scopes) q.selectList)
  exact (((((hselect.append (hsources _)).append (.refl _)).append (.refl _)).append
    (.refl _)).append (.refl _)).append (.refl _)

mutual

theorem kept_copySource : (source : Source) → ∀ (scopes : Scopes) (registry : Registry),
    Kept (sourceSites scopes source) (sourceSites scopes (source.copy registry).1)
  | .relation _, _, _ => .refl _
  | .join kind left right on, scopes, registry => by
    have hl := kept_copySource left scopes registry
    have hr := kept_copySource right scopes (left.copy registry).2
    simpa [sourceSites] using (hl.append hr).append (.refl (exprsSites scopes on))
  | .union op left right, scopes, registry => by
    have hl := kept_copy left scopes none registry
    have hr := kept_copy right scopes none (left.copy registry).2
    simpa [sourceSites] using hl.append hr

theorem kept_copySources : (sources : List Source) → ∀ (scopes : Scopes) (registry : Registry),
    Kept (sourcesSites scopes sources) (sourcesSites scopes (copySources sources registry).1)
  | [], _, _ => .refl _
  | source :: rest, scopes, registry => by
    have h := kept_copySource source scopes registry
    have hs := kept_copySources rest scopes (source.copy registry).2
    simpa [sourcesSites] using h.append hs

theorem kept_copy : (q : Query) → ∀ (scopes : Scopes) (alias_ : Option String)
    (registry : Registry), Kept (querySites scopes alias_ none q)
      (querySites scopes alias_ none (q.copy registry).1)
  | ⟨select, sub, sources, filter, group, having, order, limit, id⟩, scopes, alias_, registry => by
    rw [Query.copy_eq_overCopies]
    exact kept_overCopies scopes alias_ _ registry _
      fun scopes => kept_copySources sources scopes registry

end

section
variable {frame frame' : Frame} (htables : frame'.tables = frame.tables)
  (hbare : frame'.bare = false → frame.bare = false)
include htables hbare

/-- What passes in a level passes in one over the same relations, further in, as more levels are
around it. Columns that are bare in the new level ask for nothing. -/
theorem passes_within (outer : Scopes) {site : Site} (h : (site.within [frame]).Passes) :
    (site.within (frame' :: outer)).Passes := by
  cases site with
  | level q => exact h
  | marker scopes key => trivial
  | column scopes c =>
    intro hcorrelated hscopes
    cases scopes with
    | nil =>
      obtain ⟨_, hframe, -⟩ := h hcorrelated (hbare hscopes)
      cases hframe
    | cons first rest =>
      obtain ⟨found, hfound, hname⟩ := h hcorrelated hscopes
      change found ∈ rest ++ [frame] at hfound
      change ∃ found ∈ rest ++ frame' :: outer, c.owner.name ∈ found.tables
      rcases List.mem_append.mp hfound with hfound | hfound
      · exact ⟨found, List.mem_append_left _ hfound, hname⟩
      · obtain rfl := List.mem_singleton.mp hfound
        exact ⟨frame', by simp, htables ▸ hname⟩

/-- A level under the same name keeps what stands in it. -/
theorem kept_within (halias : frame'.alias_ = frame.alias_) (sites : List Site) :
    Kept (sites.map (Site.within [frame])) (sites.map (Site.within [frame'])) := by
  refine ⟨fun h => ?_, ?_⟩
  · simp only [List.forall_mem_map] at *
    exact fun site hsite => passes_within htables hbare [] (h site hsite)
  · simp only [occurrences, List.filterMap_map]
    congr 1
    funext site
    cases site with
    | marker scopes key =>
      simp [Site.within, Site.occurrence?, Scopes.names, List.filterMap_cons, halias]
    | _ => rfl

end

section
variable (alias_ alias_' : Option String) (tables : List String) (bare : Bool) (outer : Scopes)

theorem keys_within (sites : List Site) :
    (occurrences (sites.map (Site.within outer))).map Occurrence.key =
      (occurrences sites).map Occurrence.key := by
  simp only [occurrences, List.filterMap_map, List.map_filterMap]
  congr 1
  funext site
  cases site <;> rfl

/-- The name of the level does not count for the keys. -/
theorem carried_within (sites : List Site) :
    Carried (sites.map (Site.within [⟨alias_, tables, bare⟩]))
      (sites.map (Site.within (⟨alias_', tables, bare⟩ :: outer))) := by
  refine ⟨fun h => ?_, (keys_within _ sites).trans (keys_within _ sites).symm⟩
  simp only [List.forall_mem_map] at *
  have htables : (Frame.mk alias_' tables bare).tables = (Frame.mk alias_ tables bare).tables := rfl
  exact fun site hsite => passes_within htables id outer (h site hsite)

theorem carried_exprs (es : List Expr) :
    Carried (exprsSites [⟨alias_, tables, bare⟩] es)
      (exprsSites (⟨alias_', tables, bare⟩ :: outer) es) := by
  have h := carried_within alias_ alias_' tables bare outer (exprsSites [] es)
  rwa [← exprsSites_append, ← exprsSites_append] at h

theorem carried_sources (sources : List Source) :
    Carried (sourcesSites [⟨alias_, tables, bare⟩] sources)
      (sourcesSites (⟨alias_', tables, bare⟩ :: outer) sources) := by
  have h := carried_within alias_ alias_' tables bare outer (sourcesSites [] sources)
  rwa [← sourcesSites_append, ← sourcesSites_append] at h

end

end QueryTree.Render
