import QueryTree.Proofs.Derived.Wrapping
import QueryTree.Proofs.Render.Labels
import QueryTree.Proofs.Tree.Reflexivity

/-!
The output columns of a union, looked up by name and taken from the union. The checks know such a
column again by equality, so they refuse one whose owner holds a NaN. A column that stands for a
subquery is written as the subquery once more. All others are read by their names.
-/

namespace QueryTree

def unionOf (op : SetOp) (left right : Query) (id : Nat) : Query :=
  ⟨[], false, [.union op left right], [], [], [], [], [], id⟩

/-- The query that takes one column from a union. -/
def readOf (op : SetOp) (left right : Query) (c : Column) (id : Nat) : Query :=
  ⟨[.column c], false, [.union op left right], [], [], [], [], [], id⟩

section
variable {op : SetOp} {left right u : Query} {c : Column} {id : Nat}

/-- A union is a query over copies of its sides. They put out what the sides do. -/
theorem Query.exists_of_union {registry last : Registry}
    (h : Query.union op left right registry = (.ok u, last)) :
    ∃ l r id, u = unionOf op l r id ∧
      l.projection = left.projection ∧ r.projection = right.projection := by
  obtain ⟨-, hu⟩ := union_ok_iff.mp h
  cases hu
  exact ⟨_, _, _, rfl, left.projection_copy _, right.projection_copy _⟩

/-- An output column of a union is one of its left side, under the name that was looked up. -/
theorem outputColumn_unionOf {name : String} {before after : Registry}
    (h : (unionOf op left right id).outputColumn name before = (.ok c, after)) :
    .column c ∈ left.projection ∧ c.projectionName = name := by
  have hprojection : (unionOf op left right id).projection = left.projection := by
    simp [unionOf, Query.projection, unionProjection]
  refine ⟨hprojection ▸ Query.mem_of_outputColumn h, ?_⟩
  rw [Query.outputColumn_run] at h
  split at h <;> cases h
  next hfound => simpa using List.find?_some hfound

/-- The checks look for the column among the outputs of the sides. It is one of them, so it is found
if it equals itself. -/
theorem validate_readOf (hc : .column c ∈ left.projection) :
    (readOf op left right c id).validate = .ok () ↔
      (c.isLocal = true → NanFree c.owner.floats) := by
  rw [readOf, Query.validate_read_iff]
  have hself : (∃ o ∈ (left.projection ++ right.projection).filterMap Expr.column?,
      o.sameField c = true) ↔ NanFree c.owner.floats := by
    rw [← c.owner.same_self_iff]
    constructor
    · rintro ⟨o, -, hsame⟩
      obtain ⟨howner, -⟩ := Column.sameField_iff.mp hsame
      have hback : (c.owner == o.owner) = true := BEq.symm howner
      exact BEq.trans hback howner
    · intro hsame
      have hmem : c ∈ (left.projection ++ right.projection).filterMap Expr.column? :=
        List.mem_filterMap.mpr ⟨_, List.mem_append_left _ hc, rfl⟩
      exact ⟨c, hmem, Column.sameField_iff.mpr ⟨hsame, rfl⟩⟩
  rw [hself]

end

namespace Render

section
variable {bindings : Bindings} {options : Options} {op : SetOp} {left right : Query} {c : Column}
  {id : Nat} {name : String} {registry last : Registry} {result : Statement}

/-- What takes a column from a union writes its name, unless the column stands for a subquery. -/
theorem item_readOf_iff (hname : c.projectionName = name) (s : Setting) (alias_ : Option String) :
    item (s.inside alias_ (readOf op left right c id)) (.column c) = pure name ↔
      c.isUnfolded = false := by
  have hbare : (s.inside alias_ (readOf op left right c id)).scopes.isBare = true := rfl
  have hlabel : (s.inside alias_ (readOf op left right c id)).label (.column c) = "" := by
    cases hl : c.label <;> simp [Setting.label, hl, hbare]
  have hbase : ∀ x : Writer String, (· ++ "") <$> x = pure (name ++ "") ↔ x = pure name :=
    fun _ => map_append_eq_pure_iff
  rw [String.append_empty] at hbase
  rw [item, hlabel, hbase]
  cases hc : c.isUnfolded with
  | false => simp [expr_column_of_isBare hbare hc, hname]
  | true => simp [expr_column_ne_pure hc]

theorem behindSelect_readOf (s : Setting) (identity : Identity) (number : Nat) :
    behindSelect s identity number (readOf op left right c id) = (do
      let l ← query s none identity.ofOperands none left
      let r ← query s none identity.ofOperands none right
      let g ← naming (Registry.nameOf number)
      return ["FROM (" ++ l ++ " " ++ op.text ++ " " ++ r ++ ") as " ++ g]) := by
  have hopening : ∀ text, "FROM " ++ ("(" ++ text) = "FROM (" ++ text := by
    intro text
    rw [← String.append_assoc]
    rfl
  simp [behindSelect, readOf, sourceTexts, sourceText, exprs, clauseText, parenthesized,
    ClauseKind.keyword, String.append_assoc, hopening]

/-- The text of a query that takes a column from a union. -/
theorem exists_text_of_readOf (hname : c.projectionName = name) (hc : c.isUnfolded = false)
    (h : (readOf op left right c id).statement bindings options registry = (.ok result, last)) :
    ∃ l r g, result.sql = "SELECT " ++ name ++ options.separator ++
      "FROM (" ++ l ++ " " ++ op.text ++ " " ++ r ++ ") as " ++ g := by
  rw [statement_run] at h
  split at h <;> cases h
  next text state hrun =>
    obtain ⟨-, select, _, others, hitems, hothers, rfl⟩ := (query_ok_iff rfl).mp hrun
    change items _ [.column c] _ = _ at hitems
    rw [items_cons, (item_readOf_iff hname ⟨bindings, options, []⟩ none).mpr hc, items_nil,
      pure_bind, pure_bind] at hitems
    obtain ⟨rfl, rfl⟩ := pure_ok_iff.mp hitems
    rw [behindSelect_readOf] at hothers
    simp only [bind_ok_iff, pure_ok_iff] at hothers
    obtain ⟨l, _, -, r, _, -, g, _, -, rfl, -⟩ := hothers
    refine ⟨l, r, g, ?_⟩
    rw [selectText_of_ne_nil (List.cons_ne_nil _ _), List.singleton_append,
      String.intercalate_cons_cons]
    simp only [String.intercalate_singleton, String.append_assoc]

theorem sites_readOf (hc : c.isUnfolded = false) :
    (readOf op left right c id).sites = .level (readOf op left right c id) ::
      .column [⟨none, [], true⟩] c :: sourcesSites [⟨none, [], true⟩] [.union op left right] := by
  have hcolumn : exprSites [⟨none, [], true⟩] (.column c) = [.column [⟨none, [], true⟩] c] := by
    rw [← columnSites_of_not_isUnfolded hc [⟨none, [], true⟩]]
    cases c
    rfl
  have hframe : Query.frame none (readOf op left right c id) = ⟨none, [], true⟩ := rfl
  rw [Query.sites, querySites_none, hframe]
  simp [readOf, exprsSites, hcolumn]

theorem sites_unionOf :
    (unionOf op left right id).sites = .level (unionOf op left right id) ::
      sourcesSites [⟨none, [], false⟩] [.union op left right] := by
  have hframe : Query.frame none (unionOf op left right id) = ⟨none, [], false⟩ := rfl
  rw [Query.sites, querySites_none, hframe]
  simp [unionOf, exprsSites]

/-- Whether columns are bare outside makes no difference to the sides of a union. -/
theorem kept_sides (op : SetOp) (left right : Query) :
    Kept (sourcesSites [⟨none, [], false⟩] [.union op left right])
      (sourcesSites [⟨none, [], true⟩] [.union op left right]) := by
  have htables : (Frame.mk none [] true).tables = (Frame.mk none [] false).tables := rfl
  have h := kept_within htables (fun h => absurd h (by decide)) rfl
    (sourcesSites [] [.union op left right])
  rwa [← sourcesSites_append, ← sourcesSites_append] at h

/-- The query has the placeholders of the union, and the checks ask nothing more of its inner
levels. -/
theorem kept_readOf (op : SetOp) (left right : Query) (hc : c.isUnfolded = false)
    (id number : Nat) :
    occurrences (readOf op left right c number).sites =
        occurrences (unionOf op left right id).sites ∧
      ((readOf op left right c number).validate = .ok () →
        Kept (unionOf op left right id).sites (readOf op left right c number).sites) := by
  have hsides := kept_sides op left right
  have hbare : (Site.column [⟨none, [], true⟩] c).Passes := by
    intro _ hqualified
    cases hqualified
  rw [sites_readOf hc, sites_unionOf]
  refine ⟨hsides.occurrences, fun hvalid => .level (fun _ => hvalid) ⟨fun h => ?_, ?_⟩⟩
  · exact List.forall_mem_cons.mpr ⟨hbare, hsides.passes h⟩
  · exact hsides.occurrences

end

/-- A union and the query that takes the column from it that the union gives out under a name. The
checks refuse the query exactly if the column belongs to the level of the union and its owner holds
a NaN. Its SELECT list is the name exactly if the column does not stand for a subquery. Then the
query has a statement whenever the union has one and the checks, where they are made, pass. It takes
the name from the union, with the same parameters. -/
theorem output_column_read {op : SetOp} {left right u : Query} {registry last : Registry}
    (hunion : Query.union op left right registry = (.ok u, last)) {name : String}
    {before after : Registry} {c : Column} (hc : u.outputColumn name before = (.ok c, after))
    (made : Registry) :
    let v := ((u.build (.exprs .select false [.column c])).anew made).1
    v.selectList = [.column c] ∧
    (v.validate = .ok () ↔ (c.isLocal = true → NanFree c.owner.floats)) ∧
    (∀ (s : Setting) (alias_ : Option String),
      item (s.inside alias_ v) (.column c) = pure name ↔ c.isUnfolded = false) ∧
    (c.isUnfolded = false → ∀ (bindings : Bindings) (options : Options) (first : Registry)
      (result : Statement) (second : Registry),
      u.statement bindings options first = (.ok result, second) → ∀ third : Registry,
      ((∃ result' fourth, v.statement bindings options third = (.ok result', fourth)) ↔
        (options.validate = true → v.validate = .ok ())) ∧
      ∀ result' fourth, v.statement bindings options third = (.ok result', fourth) →
        result'.params = result.params ∧
        ∃ l r g, result'.sql = "SELECT " ++ name ++ options.separator ++
          "FROM (" ++ l ++ " " ++ op.text ++ " " ++ r ++ ") as " ++ g) := by
  intro v
  obtain ⟨l, r, id, rfl, hl, -⟩ := Query.exists_of_union hunion
  obtain ⟨hmem, hname⟩ := outputColumn_unionOf hc
  obtain ⟨number, l', r', hv, hread⟩ : ∃ number l' r',
      v = (readOf op l r c id).overCopies made number ∧ v = readOf op l' r' c number :=
    ⟨_, _, _, rfl, rfl⟩
  have hvalid : v.validate = (readOf op l r c id).validate :=
    hv ▸ Query.validate_overCopies _ made number
  have hcopies : Kept (readOf op l r c id).sites v.sites :=
    hv ▸ kept_overCopies [] none _ made number fun scopes => kept_copySources _ scopes made
  refine ⟨rfl, by rw [hvalid, validate_readOf hmem], ?_, ?_⟩
  · intro s alias_
    rw [hread]
    exact item_readOf_iff hname s alias_
  · intro hscalar bindings options first result second h third
    obtain ⟨hpasses, hbound⟩ := (exists_statement_iff first).mp ⟨result, second, h⟩
    obtain ⟨hsame, hkept⟩ := kept_readOf op l r hscalar id id
    have hoccurrences := hcopies.occurrences.trans hsame
    constructor
    · constructor
      · intro h' hchecked
        have hlevel : .level v ∈ v.sites := by
          rw [hread, sites_readOf hscalar]
          exact List.mem_cons_self
        exact ((exists_statement_iff third).mp h').1 hchecked _ hlevel
      · intro hv'
        refine (exists_statement_iff third).mpr ⟨fun hchecked => ?_, hoccurrences ▸ hbound⟩
        exact hcopies.passes ((hkept (hvalid ▸ hv' hchecked)).passes (hpasses hchecked))
    · intro result' fourth h'
      refine ⟨?_, exists_text_of_readOf hname hscalar (hread ▸ h')⟩
      have hparams : result'.params.map some = result.params.map some := by
        rw [params_eq_of_statement h', params_eq_of_statement h, hoccurrences]
      exact (List.map_inj_right fun _ _ => Option.some.inj).mp hparams

def hosts : Relation := .table ⟨5, "Hosts", ["name"]⟩

/-- The name of the host, as a scalar. -/
def hostName : Column :=
  let names : Query := ⟨[], false, [.relation hosts], [], [], [], [], [], 6⟩
  (Column.plain (.projected (.unfolded ⟨"s", names⟩) hosts) "name").aliased "n"

def hosted (id : Nat) : Query :=
  ⟨[.column hostName], false, [.relation members], [], [], [], [], [], id⟩

/-- The members whose number is not a NaN. -/
def numbered : Relation :=
  let query : Query := ⟨[], false, [.relation members],
    [.binary .ne (.column (.plain members "id")) (.value (.float Float.nan))], [], [], [], [], 6⟩
  .derived ⟨"d", query.subSelect, query⟩

def numberedIds (id : Nat) : Query :=
  ⟨[.column (.plain numbered "Members_id")], false, [.relation numbered], [], [], [], [], [], id⟩

def hostedText : String :=
  "SELECT (SELECT Hosts.name FROM Hosts) as n FROM Members UNION SELECT Guests.id FROM Guests"

def hostedReadText : String :=
  "SELECT (SELECT Hosts.name FROM Hosts) FROM (" ++ hostedText ++ ") as _q1"

def numberedText : String :=
  "SELECT d.Members_id FROM (SELECT Members.id as Members_id FROM Members " ++
    "WHERE (Members.id <> NULL)) as d UNION SELECT Guests.id FROM Guests"

/-- The scalar comes a second time, outside the union. The members with a NaN in their query are
refused. -/
theorem output_column_read_hosted :
    (∃ u last, Query.union .union (hosted 7) guestNumbers ⟨8, []⟩ = (.ok u, last) ∧
      (∃ later, u.statement .empty {} last = (.ok ⟨hostedText, []⟩, later)) ∧
      u.outputColumn "n" last = (.ok hostName, last) ∧
      let v := ((u.build (.exprs .select false [.column hostName])).anew last).1
      v.validate = .ok () ∧
        (∀ s : Setting, item (s.inside none v) (.column hostName) ≠ pure "n") ∧
        ∃ later, v.statement .empty {} last = (.ok ⟨hostedReadText, []⟩, later)) ∧
    ∃ u last c, Query.union .union (numberedIds 7) guestNumbers ⟨8, []⟩ = (.ok u, last) ∧
      u.statement .empty {} last = (.ok ⟨numberedText, []⟩, last) ∧
      u.outputColumn "Members_id" last = (.ok c, last) ∧
      ((u.build (.exprs .select false [.column c])).anew last).1.validate ≠ .ok () := by
  constructor
  · have hunion : Query.union .union (hosted 7) guestNumbers ⟨8, []⟩ =
        (.ok (unionOf .union (hosted 8) { guestNumbers with id := 9 } 10), ⟨11, []⟩) := rfl
    have hc : (unionOf .union (hosted 8) { guestNumbers with id := 9 } 10).outputColumn
        "n" ⟨11, []⟩ = (.ok hostName, ⟨11, []⟩) := rfl
    obtain ⟨-, hvalid, hitem, -⟩ := output_column_read hunion hc ⟨11, []⟩
    refine ⟨_, _, hunion, ⟨_, rfl⟩, hc, hvalid.mpr ?_, fun s hpure => ?_, _, rfl⟩
    · intro hlocal
      cases hlocal
    · have hscalar := (hitem s none).mp hpure
      cases hscalar
  · have hunion : Query.union .union (numberedIds 7) guestNumbers ⟨8, []⟩ =
        (.ok (unionOf .union (numberedIds 8) { guestNumbers with id := 9 } 10), ⟨11, []⟩) := rfl
    have hc : (unionOf .union (numberedIds 8) { guestNumbers with id := 9 } 10).outputColumn
        "Members_id" ⟨11, []⟩ = (.ok (.plain numbered "Members_id"), ⟨11, []⟩) := rfl
    obtain ⟨-, hvalid, -, -⟩ := output_column_read hunion hc ⟨11, []⟩
    refine ⟨_, _, _, hunion, rfl, hc, fun h => ?_⟩
    have hfree := hvalid.mp h rfl
    refine hfree ?_
    simp [numbered, Column.plain, Relation.floats, Derived.floats, Query.floats, Query.subSelect,
      exprsFloats, Expr.floats, Value.floats]

end Render

end QueryTree
