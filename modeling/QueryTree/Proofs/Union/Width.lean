import Mathlib.Tactic.Ring
import QueryTree.Proofs.Union.Basic

/-!
How many columns the rows of a query have, and how many of them the check of a union does not count.
It counts the items of a projection. A star is one item for all columns of FROM. A derived table
shows an output only by its name. A union in FROM stands for all of FROM if it is a source itself,
and for nothing if it is joined.
-/

namespace QueryTree

/-- The columns that an item of a SELECT list stands for, where FROM has so many. -/
def Expr.width (all : Nat) : Expr → Nat
  | .star => all
  | _ => 1

def Expr.isStar : Expr → Bool
  | .star => true
  | _ => false

theorem Expr.sum_width (all : Nat) (es : List Expr) :
    (((es.map (Expr.width all)).sum : Nat) : Int) =
      es.length + es.countP Expr.isStar * ((all : Int) - 1) := by
  induction es with
  | nil => simp
  | cons e es ih =>
    rw [List.map_cons, List.sum_cons, List.length_cons, List.countP_cons]
    cases e with
    | star =>
      simp only [Expr.width, Expr.isStar, if_true]
      rw [Nat.cast_add, ih, Nat.cast_succ es.length, Nat.cast_succ (es.countP _)]
      ring
    | _ =>
      simp only [Expr.width, Expr.isStar, Bool.false_eq_true, if_false]
      rw [Nat.cast_add, ih, Nat.cast_succ es.length, Nat.cast_one, Nat.add_zero]
      ring

mutual

/-- How many columns the rows of a query have. -/
def Query.width : Query → Nat
  | ⟨select, _, sources, _, _, _, _, _, _⟩ =>
    if select.isEmpty then sourcesWidth sources
    else (select.map (Expr.width (sourcesWidth sources))).sum

def sourcesWidth : List Source → Nat
  | [] => 0
  | source :: rest => source.width + sourcesWidth rest

/-- The columns of a union are those of its left side. -/
def Source.width : Source → Nat
  | .relation r => r.width
  | .join _ left right _ => left.width + right.width
  | .union _ left _ => left.width

/-- A derived table has as many columns as its query. -/
def Relation.width : Relation → Nat
  | .table t => t.fields.length
  | .alias_ a => a.table.fields.length
  | .projected _ source => source.width
  | .derived ⟨_, query, _⟩ => query.width

end

/-- The outputs of a query that have no name. -/
def Query.unnamed (q : Query) : Nat :=
  q.projection.countP (·.outputName?.isNone)

mutual

/-- How many columns of a query are not counted. It is negative for a star without a FROM. -/
def Query.missed : Query → Int
  | ⟨select, _, sources, _, _, _, _, _, _⟩ =>
    if select.isEmpty then sourcesMissed sources
    else select.countP Expr.isStar * ((sourcesWidth sources : Int) - 1)

/-- Beside the first union no other source is counted. -/
def sourcesMissed : List Source → Int
  | [] => 0
  | .union _ left _ :: rest => left.missed + sourcesWidth rest
  | .relation r :: rest =>
    (if rest.any Source.isUnion then (r.width : Int) else r.missed) + sourcesMissed rest
  | .join _ left right _ :: rest =>
    (if rest.any Source.isUnion then (left.width + right.width : Int)
      else left.missed + right.missed) + sourcesMissed rest

/-- A union inside a join is not counted at all. -/
def Source.missed : Source → Int
  | .relation r => r.missed
  | .join _ left right _ => left.missed + right.missed
  | .union _ left _ => left.width

def Relation.missed : Relation → Int
  | .table _ => 0
  | .alias_ _ => 0
  | .projected _ source => source.missed
  | .derived ⟨_, query, _⟩ => query.missed + query.unnamed

end

theorem Query.length_outputNames_add_unnamed (q : Query) :
    q.outputNames.length + q.unnamed = q.arity := by
  rw [outputNames, List.length_filterMap_eq_countP, unnamed, arity,
    List.length_eq_countP_add_countP (fun e : Expr => e.outputName?.isSome)]
  simp only [Bool.not_eq_true, Option.isSome_eq_false_iff, Bool.decide_eq_true]

/-- What FROM puts out for an empty SELECT list: the first union if there is one. -/
def sourcesCounted (sources : List Source) : Nat :=
  (unionProjection sources).elim (sourcesColumns sources).length List.length

theorem isSome_unionProjection (sources : List Source) :
    (unionProjection sources).isSome = sources.any Source.isUnion := by
  induction sources with
  | nil => rfl
  | cons source rest ih => cases source <;> simp [unionProjection, Source.isUnion, ih]

/-- A source that is no union is counted if no union follows. -/
theorem sourcesCounted_cons {source : Source} (rest : List Source) (h : source.isUnion = false) :
    sourcesCounted (source :: rest) =
      (if rest.any Source.isUnion then 0 else source.columns.length) + sourcesCounted rest := by
  have hsame : unionProjection (source :: rest) = unionProjection rest := by
    cases source with
    | relation => rfl
    | join => rfl
    | union => cases h
  rw [sourcesCounted, sourcesCounted, hsame, ← isSome_unionProjection]
  cases unionProjection rest with
  | none => simp [sourcesColumns]
  | some items => simp

mutual

/-- The arity of a query and the columns missed make up its columns. -/
theorem Query.width_eq : (q : Query) → (q.width : Int) = q.arity + q.missed
  | ⟨select, sub, sources, filter, group, having, order, limit, id⟩ => by
    have hsources := sourcesWidth_eq sources
    rw [Query.width, Query.missed, Query.arity, Query.projection]
    split
    · rw [hsources, sourcesCounted]
      cases unionProjection sources <;> simp
    · exact Expr.sum_width (sourcesWidth sources) select

theorem sourcesWidth_eq : (sources : List Source) →
    (sourcesWidth sources : Int) = sourcesCounted sources + sourcesMissed sources
  | [] => by simp [sourcesWidth, sourcesMissed, sourcesCounted, unionProjection, sourcesColumns]
  | .union op left right :: rest => by
    have hleft := left.width_eq
    have hcounted : sourcesCounted (.union op left right :: rest) = left.arity := rfl
    rw [hcounted, sourcesWidth, Source.width, sourcesMissed]
    push_cast
    rw [hleft]
    ring
  | .relation r :: rest => by
    have hrelation := r.width_eq
    have hrest := sourcesWidth_eq rest
    rw [sourcesCounted_cons rest rfl, sourcesWidth, Source.width, sourcesMissed, Source.columns]
    push_cast
    split <;> omega
  | .join kind left right on :: rest => by
    have hleft := left.width_eq
    have hright := right.width_eq
    have hrest := sourcesWidth_eq rest
    rw [sourcesCounted_cons rest rfl, sourcesWidth, Source.width, sourcesMissed, Source.columns,
      List.length_append]
    push_cast
    split <;> omega

theorem Source.width_eq : (source : Source) →
    (source.width : Int) = source.columns.length + source.missed
  | .relation r => r.width_eq
  | .join kind left right on => by
    have hleft := left.width_eq
    have hright := right.width_eq
    rw [Source.width, Source.columns, Source.missed, List.length_append]
    push_cast
    rw [hleft, hright]
    ring
  | .union op left right => by simp [Source.width, Source.columns, Source.missed]

theorem Relation.width_eq : (r : Relation) →
    (r.width : Int) = r.columns.length + r.missed
  | .table t => by simp [Relation.width, Relation.columns, Relation.missed]
  | .alias_ a => by simp [Relation.width, Relation.columns, Relation.missed]
  | .projected scope source => by
    have hsource := source.width_eq
    simpa [Relation.width, Relation.columns, Relation.missed] using hsource
  | .derived ⟨name, query, given⟩ => by
    have hquery := query.width_eq
    have hnamed := query.length_outputNames_add_unnamed
    have hcolumns : (Relation.columns (.derived ⟨name, query, given⟩)).length =
        query.outputNames.length := by
      rw [Relation.columns, List.length_map, Query.outputNames]
    rw [hcolumns, Relation.width, Relation.missed]
    omega

end

/-- A union succeeds exactly if both sides have equally many columns, without those that are not
counted. -/
theorem Query.union_succeeds_iff (op : SetOp) (left right : Query) (registry : Registry) :
    (∃ q last, Query.union op left right registry = (.ok q, last)) ↔
      (left.width : Int) - left.missed = right.width - right.missed := by
  have hleft := left.width_eq
  have hright := right.width_eq
  have hcounted : (∃ q last, Query.union op left right registry = (.ok q, last)) ↔
      left.arity = right.arity := by
    simp only [union_ok_iff]
    constructor
    · rintro ⟨_, _, harity, -⟩
      exact harity
    · exact fun harity => ⟨_, _, harity, rfl⟩
  rw [hcounted]
  omega

def tasks : Table := ⟨0, "Tasks", ["id", "title"]⟩

def notes : Table := ⟨1, "Notes", ["id"]⟩

def noteIds : Query :=
  ⟨[], false, [.relation (.table notes)], [], [], [], [], [], 2⟩

/-- The tasks by a star, which is counted as one column. -/
def starredTasks : Query :=
  ⟨[.star], false, [.relation (.table tasks)], [], [], [], [], [], 3⟩

def tally : Query :=
  ⟨[.call "count" [.star]], false, [.relation (.table tasks)], [], [], [], [], [], 4⟩

/-- The number of tasks as a table, whose column has no name and is not counted. -/
def wrappedTally : Query :=
  ⟨[], false, [.relation (.derived ⟨"d", tally.subSelect, tally⟩)], [], [], [], [], [], 5⟩

/-- Two columns are put beside one, and one column is not put beside one. -/
theorem union_succeeds_iff_miscounted :
    starredTasks.width = 2 ∧ wrappedTally.width = 1 ∧ noteIds.width = 1 ∧
      (∃ q last, Query.union .union starredTasks noteIds {} = (.ok q, last)) ∧
      ¬∃ q last, Query.union .unionAll wrappedTally noteIds {} = (.ok q, last) := by
  simp only [Query.union_succeeds_iff]
  decide

end QueryTree
