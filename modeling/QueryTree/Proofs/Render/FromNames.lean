import Mathlib.Data.List.Nodup
import Mathlib.Tactic.Ring
import QueryTree.Proofs.Naming.Writing
import QueryTree.Proofs.Render.Correlation

/-!
The names in a FROM list. Those of relations are the names that the checks compare. A union goes by
the generated name of the level that it stands in, whatever else stands there, and the checks do
not see it.
-/

namespace QueryTree

open Render (parenthesized)

theorem perm_append_append {α : Type} {all all' own own' others others' : List α}
    (h : all.Perm (own ++ others)) (h' : all'.Perm (own' ++ others')) :
    (all ++ all').Perm (own ++ own' ++ (others ++ others')) := by
  refine (h.append h').trans ?_
  rw [List.append_assoc, List.append_assoc]
  refine List.Perm.append_left own ?_
  rw [← List.append_assoc, ← List.append_assoc]
  exact List.perm_append_comm.append_right others'

namespace Source

/-- The unions in a source, in joins of any depth. -/
def unions : Source → Nat
  | .relation _ => 0
  | .join _ left right _ => left.unions + right.unions
  | .union .. => 1

/-- The names that a source puts into FROM, in a level whose unions go by the given name. -/
def fromNames (generated : String) : Source → List String
  | .relation r => [r.name]
  | .join _ left right _ => left.fromNames generated ++ right.fromNames generated
  | .union .. => [generated]

/-- How a source is written, up to the queries and predicates inside of it. -/
inductive Written (generated : String) : Source → String → Prop where
  | table (t : Table) : Written generated (.relation (.table t)) t.name
  | alias_ (a : TableAlias) :
    Written generated (.relation (.alias_ a)) (a.table.name ++ " as " ++ a.name)
  | projected (scope : Scope) (r : Relation) :
    Written generated (.relation (.projected scope r)) scope.name
  | derived (d : Derived) (inner : String) :
    Written generated (.relation (.derived d)) (parenthesized inner ++ " as " ++ d.name)
  | join {kind : JoinKind} {left right : Source} {on : List Expr} {l r : String} (condition : String)
    (hleft : Written generated left l) (hright : Written generated right r) :
    Written generated (.join kind left right on) (l ++ " " ++ kind.text ++ " " ++
      (if right.isJoin then parenthesized r else r) ++ condition)
  | union {op : SetOp} {left right : Query} (inner : String) :
    Written generated (.union op left right) (parenthesized inner ++ " as " ++ generated)

theorem fromNames_perm (generated : String) (source : Source) :
    (source.fromNames generated).Perm
      (source.relations.map Relation.name ++ List.replicate source.unions generated) := by
  cases source with
  | relation r =>
    rw [fromNames, relations, unions, List.replicate_zero, List.append_nil]
    exact .refl _
  | join kind left right on =>
    rw [fromNames, relations, unions, List.map_append, List.replicate_add]
    exact perm_append_append (fromNames_perm generated left) (fromNames_perm generated right)
  | union op left right => exact .refl _

end Source

namespace Query

/-- The unions in FROM, in joins of any depth. -/
def fromUnions (q : Query) : Nat :=
  (q.sources.map Source.unions).sum

/-- The names in the FROM list of a query whose unions go by the given name. -/
def fromNames (generated : String) (q : Query) : List String :=
  q.sources.flatMap (Source.fromNames generated)

end Query

theorem fromNames_perm (generated : String) (sources : List Source) :
    (sources.flatMap (Source.fromNames generated)).Perm
      ((sourcesRelations sources).map Relation.name ++
        List.replicate (sources.map Source.unions).sum generated) := by
  induction sources with
  | nil => exact .refl _
  | cons source rest ih =>
    rw [List.flatMap_cons, sourcesRelations, List.map_append, List.map_cons, List.sum_cons,
      List.replicate_add]
    exact perm_append_append (source.fromNames_perm generated) ih

/-- If the relations have distinct names and none of them the generated one, only a second union
can bring a name a second time. -/
theorem Query.nodup_fromNames_iff {q : Query} {generated : String}
    (hdistinct : q.reachableNames.Nodup) (hgenerated : generated ∉ q.reachableNames) :
    (q.fromNames generated).Nodup ↔ q.fromUnions ≤ 1 := by
  have hperm := QueryTree.fromNames_perm generated q.sources
  rw [fromNames, hperm.nodup_iff, List.nodup_append, List.nodup_replicate]
  constructor
  · rintro ⟨-, hunions, -⟩
    exact hunions
  · intro hunions
    refine ⟨hdistinct, hunions, ?_⟩
    rintro name hname _ hrepeated rfl
    rw [List.eq_of_mem_replicate hrepeated] at hname
    exact hgenerated hname

namespace Render

section
variable {s : Setting} {identity : Identity} {id : Nat} {state after : State}

/-- A union asks for the name of its level. -/
theorem exists_name_of_sourceText : {source : Source} → {state after : State} → {text : String} →
    0 < source.unions → sourceText s identity id source state = (.ok text, after) →
    ∃ g, after.registry.name? id = some g
  | .relation _, _, _, _, hunions, _ => absurd hunions (Nat.lt_irrefl 0)
  | .join _ left right on, state, after, text, hunions, h => by
    simp only [sourceText, bind_ok_iff, pure_ok_iff] at h
    obtain ⟨l, afterLeft, hl, r, afterRight, hr, condition, last, hon, -, rfl⟩ := h
    have hkept := keepsNames_exprs s on afterRight
    rw [hon] at hkept
    rw [Source.unions] at hunions
    by_cases hright : 0 < right.unions
    · obtain ⟨g, hg⟩ := exists_name_of_sourceText hright hr
      exact ⟨g, Registry.name?_of_isPrefix hkept hg⟩
    · obtain ⟨g, hg⟩ := exists_name_of_sourceText (by omega) hl
      have hkept' := keepsNames_source s identity id right afterLeft
      rw [hr] at hkept'
      exact ⟨g, Registry.name?_of_isPrefix (hkept'.trans hkept) hg⟩
  | .union op left right, state, after, text, _, h => by
    simp only [sourceText, bind_ok_iff, pure_ok_iff, naming_ok_iff] at h
    obtain ⟨l, _, hl, r, between, hr, name, _, ⟨rfl, rfl⟩, -, rfl⟩ := h
    exact ⟨_, Registry.name?_nameOf id between.registry⟩

/-- A source is written under the name that its level has in the end, if it asks for one. -/
theorem written_of_sourceText {g : String} {final : Registry} : {source : Source} →
    {state after : State} → {text : String} → after.registry.named <+: final.named →
    (0 < source.unions → final.name? id = some g) →
    sourceText s identity id source state = (.ok text, after) → source.Written g text
  | .relation (.table t), _, _, _, _, _, h => by
    obtain ⟨rfl, -⟩ := pure_ok_iff.mp h
    exact .table t
  | .relation (.alias_ a), _, _, _, _, _, h => by
    obtain ⟨rfl, -⟩ := pure_ok_iff.mp h
    exact .alias_ a
  | .relation (.projected scope r), _, _, _, _, _, h => by
    obtain ⟨rfl, -⟩ := pure_ok_iff.mp h
    exact .projected scope r
  | .relation (.derived ⟨name, q, given⟩), _, _, _, _, _, h => by
    simp only [sourceText, bind_ok_iff, pure_ok_iff] at h
    obtain ⟨inner, _, -, rfl, -⟩ := h
    exact .derived ⟨name, q, given⟩ inner
  | .join kind left right on, state, after, text, hfinal, hname, h => by
    simp only [sourceText, bind_ok_iff, pure_ok_iff] at h
    obtain ⟨l, afterLeft, hl, r, afterRight, hr, condition, last, hon, rfl, rfl⟩ := h
    have hkept := keepsNames_exprs s on afterRight
    rw [hon] at hkept
    have hkept' := keepsNames_source s identity id right afterLeft
    rw [hr] at hkept'
    rw [Source.unions] at hname
    have hleft := written_of_sourceText ((hkept'.trans hkept).trans hfinal)
      (fun hunions => hname (by omega)) hl
    have hright := written_of_sourceText (hkept.trans hfinal) (fun hunions => hname (by omega)) hr
    exact .join (onText condition) hleft hright
  | .union op left right, state, after, text, hfinal, hname, h => by
    simp only [sourceText, bind_ok_iff, pure_ok_iff, naming_ok_iff] at h
    obtain ⟨l, _, hl, r, between, hr, name, _, ⟨rfl, rfl⟩, rfl, rfl⟩ := h
    have hgiven := Registry.name?_of_isPrefix hfinal (Registry.name?_nameOf id between.registry)
    rw [hname Nat.one_pos] at hgiven
    rw [← Option.some.inj hgiven]
    exact .union _

theorem exists_name_of_sourceTexts {sources : List Source} {texts : List String}
    (hunions : 0 < (sources.map Source.unions).sum)
    (h : sourceTexts s identity id sources state = (.ok texts, after)) :
    ∃ g, after.registry.name? id = some g := by
  induction sources generalizing state texts with
  | nil => exact absurd hunions (Nat.lt_irrefl 0)
  | cons source rest ih =>
    simp only [sourceTexts, bind_ok_iff, pure_ok_iff] at h
    obtain ⟨text, between, hsource, others, _, hrest, -, rfl⟩ := h
    by_cases hlater : 0 < (rest.map Source.unions).sum
    · exact ih hlater hrest
    · have hfirst : 0 < source.unions := by
        rw [List.map_cons, List.sum_cons] at hunions
        omega
      obtain ⟨g, hg⟩ := exists_name_of_sourceText hfirst hsource
      have hkept := keepsNames_sources s identity id rest between
      rw [hrest] at hkept
      exact ⟨g, Registry.name?_of_isPrefix hkept hg⟩

theorem written_of_sourceTexts {g : String} {sources : List Source} {texts : List String}
    {final : Registry} (hfinal : after.registry.named <+: final.named)
    (hname : 0 < (sources.map Source.unions).sum → final.name? id = some g)
    (h : sourceTexts s identity id sources state = (.ok texts, after)) :
    List.Forall₂ (Source.Written g) sources texts := by
  induction sources generalizing state texts with
  | nil =>
    obtain ⟨rfl, -⟩ := pure_ok_iff.mp h
    exact .nil
  | cons source rest ih =>
    simp only [sourceTexts, bind_ok_iff, pure_ok_iff] at h
    obtain ⟨text, between, hsource, others, _, hrest, rfl, rfl⟩ := h
    have hkept := keepsNames_sources s identity id rest between
    rw [hrest] at hkept
    rw [List.map_cons, List.sum_cons] at hname
    have hfirst := written_of_sourceText (hkept.trans hfinal) (fun hunions => hname (by omega)) hsource
    exact .cons hfirst (ih (fun hunions => hname (by omega)) hrest)

/-- A level that is written, wherever it stands: it passes the checks that are asked for, and all
unions in its FROM list go by one generated name. -/
theorem written_of_query {alias_ : Option String} {only : Option OnlyColumn} {q : Query}
    {text : String} (hlevel : (OnlyColumn.of only q).isBareUnion = false)
    (h : query s alias_ identity only q state = (.ok text, after)) :
    (s.options.validate = true → (OnlyColumn.of only q).validate = .ok ()) ∧
      ∃ parts place, text = Level.text parts s.options.separator ∧
        List.Forall₂ (Source.Written (generatedName place)) q.sources parts.sources := by
  obtain ⟨select, sub, sources, filter, group, having, order, limit, id⟩ := q
  rw [query] at h
  obtain ⟨_, _, hcheck, hrest⟩ := bind_ok_iff.mp h
  rw [if_neg (by rw [hlevel]; exact Bool.false_ne_true)] at hrest
  simp only [bind_ok_iff, pure_ok_iff] at hrest
  obtain ⟨number, _, -, items, _, -, texts, between, hsources, _, _, -, _, _, -, _, _, -, _, _, -,
    _, _, -, rfl, -⟩ := hrest
  refine ⟨check_ok_iff.mp (lift_ok_iff.mp hcheck).1, ?_⟩
  by_cases hunions : 0 < (sources.map Source.unions).sum
  · obtain ⟨g, hg⟩ := exists_name_of_sourceTexts hunions hsources
    obtain ⟨place, -, rfl⟩ := Option.map_eq_some_iff.mp hg
    exact ⟨_, place, rfl, written_of_sourceTexts List.prefix_rfl (fun _ => hg) hsources⟩
  · exact ⟨_, 0, rfl, written_of_sourceTexts List.prefix_rfl (fun h => absurd h hunions) hsources⟩

end

theorem keeping_ok_iff {α : Type} {numbers : List Nat} {w : Writer α} {r : α × List Nat}
    {state after : State} :
    keeping numbers w state = (.ok r, after) ↔
      ∃ a, w state = (.ok a, after) ∧ (a, numbers) = r := by
  simp only [keeping, bind_ok_iff, pure_ok_iff]
  constructor
  · rintro ⟨a, _, ha, rfl, rfl⟩
    exact ⟨a, ha, rfl⟩
  · rintro ⟨a, ha, rfl⟩
    exact ⟨a, after, ha, rfl, rfl⟩

section
variable {bindings : Bindings} {options : Options} {q level : Query} {pre post : List Fragment}
  {scopes : Scopes} {alias_ : Option String} {identity : Identity}
  {only : Option (Narrowing Fragment)} {registry last : Registry} {result : Statement}

theorem reachableNames_narrowed (only : Option (Narrowing Fragment)) (q : Query) :
    (Query.narrowed only q).reachableNames = q.reachableNames := by
  cases only with
  | none => rfl
  | some c =>
    rw [narrowed_some]
    rfl

/-- A query that stands for a scalar column is narrowed to what its source has for the column. -/
def NarrowedToColumn (only : Option (Narrowing Fragment)) : Prop :=
  ∀ c ∈ only, ∃ source, c.2 = fun scopes => columnFragments scopes c.1 source

/-- What a level in some place of a statement writes stands in the text of the statement. -/
theorem exists_level_of_statement (honly : NarrowedToColumn only)
    (hplace : q.fragments = pre ++ queryFragments scopes alias_ identity only level ++ post)
    (h : q.statement bindings options registry = (.ok result, last)) :
    ∃ before text later state after inside,
      (∀ q, OnlyColumn.of inside q = Query.narrowed only q) ∧
      query ⟨bindings, options, scopes⟩ alias_ identity inside level state = (.ok text, after) ∧
      result.sql = before ++ text ++ later := by
  obtain ⟨inside, hinside⟩ : ∃ inside, Option.Rel (Narrows bindings options) inside only := by
    cases only with
    | none => exact ⟨none, .none⟩
    | some c =>
      obtain ⟨source, hsource⟩ := honly c rfl
      refine ⟨some ⟨c.1, fun s => column s c.1 source⟩, .some ⟨rfl, fun scopes numbers => ?_⟩⟩
      rw [hsource]
      exact writeAll_column bindings options scopes numbers c.1 source
  obtain ⟨numbers, hrun⟩ := statement_ok_iff.mp h
  rw [hplace] at hrun
  obtain ⟨first, _, hfirst, later, -, htext⟩ := writeAll_append_ok_iff.mp hrun
  obtain ⟨before, state, -, written, hlevel, rfl⟩ := writeAll_append_ok_iff.mp hfirst
  rw [writeAll_query bindings options scopes alias_ identity inside only hinside] at hlevel
  obtain ⟨text, hquery, rfl⟩ := keeping_ok_iff.mp hlevel
  refine ⟨before.1, text, later.1, state, _, inside, ?_, hquery, ?_⟩
  · exact fun q => (narrowed_eq bindings options hinside q).symm
  · exact (congrArg Prod.fst htext).symm

/-- Any level of a statement that is checked, but for a union that is all of a query. Its FROM list
names its relations, and names every union in it with the one generated name of the level. If no
relation has a name of the generated form, the names are distinct exactly if there is at most one
union. -/
theorem from_names_distinct_iff (honly : NarrowedToColumn only)
    (hplace : q.fragments = pre ++ queryFragments scopes alias_ identity only level ++ post)
    (hchecked : options.validate = true)
    (hlevel : (Query.narrowed only level).isBareUnion = false)
    (hgiven : ∀ place, generatedName place ∉ level.reachableNames)
    (h : q.statement bindings options registry = (.ok result, last)) :
    ∃ before parts later place,
      result.sql = before ++ Level.text parts options.separator ++ later ∧
      List.Forall₂ (Source.Written (generatedName place)) level.sources parts.sources ∧
      ((level.fromNames (generatedName place)).Nodup ↔ level.fromUnions ≤ 1) := by
  obtain ⟨before, text, later, state, after, inside, hinside, hquery, htext⟩ :=
    exists_level_of_statement honly hplace h
  rw [← hinside] at hlevel
  obtain ⟨hvalid, parts, place, rfl, hwritten⟩ := written_of_query hlevel hquery
  refine ⟨before, parts, later, place, htext, hwritten, ?_⟩
  have hdistinct := (Query.validate_ok_iff.mp (hvalid hchecked)).distinct
  rw [hinside, reachableNames_narrowed] at hdistinct
  exact Query.nodup_fromNames_iff hdistinct (hgiven place)

end

/-- What has been paid or sent, beside what has been sent or paid. -/
def bothWays : Query :=
  ⟨[], false, [.union .union (everything paid 1) (everything sent 2),
    .union .unionAll (everything sent 2) (everything paid 1)], [], [], [], [], [], 3⟩

def bothWaysText : String :=
  "SELECT * FROM (SELECT * FROM Paid UNION SELECT * FROM Sent) as _q1, " ++
    "(SELECT * FROM Sent UNION ALL SELECT * FROM Paid) as _q1"

/-- Both unions go by the name `_q1`. -/
theorem from_names_distinct_iff_bothWays :
    bothWays.fragments = [] ++ queryFragments [] none .own none bothWays ++ [] ∧
      bothWays.statement .empty { validate := true } {} = (.ok ⟨bothWaysText, []⟩, ⟨0, [3]⟩) ∧
      (∀ place, generatedName place ∉ bothWays.reachableNames) ∧ bothWays.fromUnions = 2 ∧
      ∃ before parts later place, bothWaysText = before ++ Level.text parts " " ++ later ∧
        List.Forall₂ (Source.Written (generatedName place)) bothWays.sources parts.sources ∧
        ¬(bothWays.fromNames (generatedName place)).Nodup := by
  have hplace : bothWays.fragments =
      [] ++ queryFragments [] none .own none bothWays ++ [] := (List.append_nil _).symm
  have hstatement : bothWays.statement .empty { validate := true } {} =
      (.ok ⟨bothWaysText, []⟩, ⟨0, [3]⟩) := rfl
  have hnone : ∀ place, generatedName place ∉ bothWays.reachableNames :=
    fun _ => List.not_mem_nil
  obtain ⟨before, parts, later, place, htext, hwritten, hdistinct⟩ :=
    from_names_distinct_iff (by simp [NarrowedToColumn]) hplace rfl rfl hnone hstatement
  refine ⟨hplace, hstatement, hnone, rfl, before, parts, later, place, htext, hwritten, ?_⟩
  rw [hdistinct]
  decide

end Render

end QueryTree
