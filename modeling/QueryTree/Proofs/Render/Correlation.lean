import QueryTree.Proofs.Render.Outcomes
import QueryTree.Proofs.Union.References

/-!
Columns that belong to an enclosing query. Under checks such a column is written qualified, if a
level around the innermost one reaches its owner, and fails otherwise. Where the innermost level is
fed by a union neither of the two happens: there the column is written by its output name alone.
-/

namespace QueryTree.Render

variable {bindings : Bindings} {options : Options}

section
variable {scopes : Scopes} {c : Column} (hcorrelated : c.correlated = true)
  (hchecked : options.validate = true)
include hcorrelated hchecked

theorem column_correlated_ok_iff {text : String} :
    Setting.column ⟨bindings, options, scopes⟩ c = .ok text ↔
      if scopes.isBare then text = c.projectionName
      else text = c.owner.name ++ "." ++ c.name ∧
        ∃ frame ∈ scopes.tail, c.owner.name ∈ frame.tables := by
  simp only [Setting.column, hcorrelated, hchecked, ← outerReaches_iff]
  cases scopes.isBare with
  | true => simp [eq_comm]
  | false => cases scopes.outerReaches c.owner.name <;> simp [eq_comm]

theorem column_correlated_error (hbare : scopes.isBare = false)
    (houtside : ∀ frame ∈ scopes.tail, c.owner.name ∉ frame.tables) :
    Setting.column ⟨bindings, options, scopes⟩ c =
      .error (.missingName c.owner.name .correlated) := by
  have hreaches : scopes.outerReaches c.owner.name = false := by
    rw [← Bool.not_eq_true, outerReaches_iff]
    rintro ⟨frame, hframe, htable⟩
    exact houtside frame hframe htable
  simp [Setting.column, hbare, hcorrelated, hchecked, hreaches]

end

/-- A column of an enclosing query, in any place of a query that is checked. If there is a statement
and the level of the column is not fed by a union, the column is written qualified there, and a
level further out reaches its owner. If no level does, there is no statement, and where nothing in
front of the column has an error, the owner is missing. But a level fed by a union writes the output
name of the column, whatever is reached further out. -/
theorem correlated_column_written {q : Query} {pre post : List Fragment} {scopes : Scopes}
    {c : Column} (hplace : q.fragments = pre ++ .column scopes c :: post)
    (hcorrelated : c.correlated = true) (hchecked : options.validate = true)
    (bindings : Bindings) (registry : Registry) :
    (∀ result last, q.statement bindings options registry = (.ok result, last) →
      ∃ before numbers state text later,
        writeAll bindings options pre [] ⟨[], registry⟩ = (.ok (before, numbers), state) ∧
        result.sql = before ++ text ++ later ∧
        if scopes.isBare then text = c.projectionName
        else text = c.owner.name ++ "." ++ c.name ∧
          ∃ frame ∈ scopes.tail, c.owner.name ∈ frame.tables) ∧
    (scopes.isBare = false → (∀ frame ∈ scopes.tail, c.owner.name ∉ frame.tables) →
      (∃ e last, q.statement bindings options registry = (.error e, last)) ∧
      ((∀ site ∈ pre.flatMap Fragment.sites, site.failure? bindings options = none) →
        ∃ last, q.statement bindings options registry =
          (.error (.missingName c.owner.name .correlated), last))) := by
  constructor
  · intro result last h
    obtain ⟨⟨before, numbers⟩, state, written, _, later, hbefore, hwritten, htext⟩ :=
      exists_text_of_statement hplace h
    obtain ⟨text, hcolumn, rfl, -⟩ := write_ok_iff.mp hwritten
    exact ⟨before, numbers, state, text, later, hbefore, htext,
      (column_correlated_ok_iff hcorrelated hchecked).mp hcolumn⟩
  · intro hbare houtside
    have hcolumn : (Site.column scopes c).failure? bindings options =
        some (.missingName c.owner.name .correlated) := by
      rw [Site.failure?, column_correlated_error hcorrelated hchecked hbare houtside]
      rfl
    have hfirst : failure? (q.statement bindings options registry).1 =
        ((pre.flatMap Fragment.sites).findSome? (Site.failure? bindings options)).or
          (some (.missingName c.owner.name .correlated)) := by
      rw [failure?_statement, ← q.sites_fragments, hplace, List.flatMap_append,
        List.findSome?_append, List.flatMap_cons, Fragment.sites, List.singleton_append,
        List.findSome?_cons, hcolumn]
    have herror : ∀ {e}, failure? (q.statement bindings options registry).1 = some e →
        ∃ last, q.statement bindings options registry = (.error e, last) := fun h =>
      ⟨_, Prod.ext (failure?_eq_some_iff.mp h) rfl⟩
    constructor
    · cases hpre : (pre.flatMap Fragment.sites).findSome? (Site.failure? bindings options) with
      | none => exact ⟨_, herror (by rw [hfirst, hpre]; rfl)⟩
      | some e => exact ⟨e, herror (by rw [hfirst, hpre]; rfl)⟩
    · intro hpre
      refine herror ?_
      rw [hfirst, List.findSome?_eq_none_iff.mpr hpre]
      rfl

def orders : Table := ⟨0, "Orders", ["id"]⟩

def paid : Table := ⟨1, "Paid", ["id"]⟩

def sent : Table := ⟨2, "Sent", ["id"]⟩

def everything (t : Table) (id : Nat) : Query :=
  ⟨[], false, [.relation (.table t)], [], [], [], [], [], id⟩

/-- The order of the enclosing query. -/
def thisOrder : Column := (Column.plain (.table orders) "id").asCorrelated

/-- How often an order has been paid or sent. -/
def timesHandled : Query :=
  ⟨[.call "count" [.star]], false, [.union .union (everything paid 1) (everything sent 2)],
    [.binary .eq (.column (.plain (.table paid) "id")) (.column thisOrder)], [], [], [], [], 3⟩

def handledOnce : Query :=
  { everything orders 4 with
    whereList := [.binary .eq (.value (.int 1)) (.subquery ⟨"s", timesHandled⟩)] }

theorem timesHandled_validate : timesHandled.validate = .ok () := by
  rw [Query.validate_ok_iff]
  refine ⟨by decide, ?_, fun hfed => absurd hfed (by decide)⟩
  intro c hc hlocal
  have hcases : c = .plain (.table paid) "id" ∨ c = thisOrder := by
    simpa [timesHandled, references, Expr.references] using hc
  rcases hcases with rfl | rfl
  · rw [Query.reaches_of_union (q := timesHandled) rfl]
    have hsame : (Relation.table paid == .table paid) = true := by
      change Relation.same _ _ = true
      simp [Relation.same]
    refine ⟨.plain (.table paid) "id", ?_, Column.sameField_iff.mpr ⟨hsame, rfl⟩⟩
    have hleft : (everything paid 1).projection = [.column (.plain (.table paid) "id")] := rfl
    simp [hleft, Expr.column?]
  · cases hlocal

/-- The level of the count and the one around it, which reaches the orders. -/
def countScopes : Scopes :=
  [⟨some "s", [], true⟩, ⟨none, ["Orders"], false⟩]

theorem handledOnce_passes : ∀ site ∈ handledOnce.sites, site.Passes := by
  have hsites : handledOnce.sites = [.level handledOnce, .level timesHandled,
      .level (everything paid 1), .level (everything sent 2),
      .column countScopes (.plain (.table paid) "id"), .column countScopes thisOrder] := rfl
  rw [hsites]
  have hhandled : handledOnce.validate = .ok () := rfl
  have hpaid : (everything paid 1).validate = .ok () := rfl
  have hsent : (everything sent 2).validate = .ok () := rfl
  simp [Site.Passes, hhandled, hpaid, hsent, timesHandled_validate, Column.plain, countScopes,
    Scopes.isBare]

def handledOnceText : String :=
  "SELECT * FROM Orders WHERE (1 = (SELECT COUNT(*) FROM " ++
    "(SELECT * FROM Paid UNION SELECT * FROM Sent) as _q1 WHERE (id = id)))"

theorem handledOnce_statement :
    handledOnce.statement .empty { validate := true } {} = (.ok ⟨handledOnceText, []⟩, ⟨0, [3]⟩) :=
  statement_of_passes {} rfl handledOnce_passes

/-- The count compares the number of a handled order with itself: the owner of the column is lost,
though the enclosing level reaches it. -/
theorem correlated_column_written_unqualified :
    ∃ pre post, handledOnce.fragments = pre ++ .column countScopes thisOrder :: post ∧
      thisOrder.correlated = true ∧ countScopes.isBare = true ∧
      (∃ frame ∈ countScopes.tail, thisOrder.owner.name ∈ frame.tables) ∧
      handledOnce.statement .empty { validate := true } {} =
        (.ok ⟨handledOnceText, []⟩, ⟨0, [3]⟩) ∧
      ∃ before later, handledOnceText = before ++ "id" ++ later := by
  have hplace : handledOnce.fragments = handledOnce.fragments.take 48 ++
      .column countScopes thisOrder :: handledOnce.fragments.drop 49 := rfl
  have hreached : ∃ frame ∈ countScopes.tail, thisOrder.owner.name ∈ frame.tables := by decide
  obtain ⟨before, numbers, state, text, later, -, htext, hbare⟩ :=
    (correlated_column_written hplace rfl rfl .empty {}).1 _ _ handledOnce_statement
  obtain rfl : text = "id" := hbare
  exact ⟨_, _, hplace, rfl, rfl, hreached, handledOnce_statement, before, later, htext⟩

end QueryTree.Render
