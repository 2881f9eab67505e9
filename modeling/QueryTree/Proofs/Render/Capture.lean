import QueryTree.Proofs.Render.Correlation

/-!
Where the owner of a qualified column is found. SQL takes the nearest level whose FROM has a
relation of that name. The checks look for the owner of a correlated column in the levels around its
own, so it is always found, but in its own level if FROM has a relation of the same name there.
-/

namespace QueryTree.Render

/-- The level in which a qualifying name is found, counted from the innermost outward: the nearest
one whose FROM has a relation of that name. The names that are generated for the unions of a FROM
are left out of its level's tables, so none of them is found here. -/
def Scopes.levelOf? (scopes : Scopes) (table : String) : Option Nat :=
  scopes.findIdx? (·.tables.contains table)

section
variable {table : String} {own : Frame} {outer : Scopes}

theorem levelOf?_of_mem (h : table ∈ own.tables) :
    Scopes.levelOf? (own :: outer) table = some 0 := by
  simp [Scopes.levelOf?, List.findIdx?_cons, h]

theorem levelOf?_of_not_mem (h : table ∉ own.tables) :
    Scopes.levelOf? (own :: outer) table = (Scopes.levelOf? outer table).map (· + 1) := by
  simp [Scopes.levelOf?, List.findIdx?_cons, h]

theorem exists_levelOf? (h : ∃ frame ∈ outer, table ∈ frame.tables) :
    ∃ level, Scopes.levelOf? outer table = some level := by
  induction outer with
  | nil => simp at h
  | cons own outer ih =>
    by_cases hown : table ∈ own.tables
    · exact ⟨0, levelOf?_of_mem hown⟩
    · obtain ⟨frame, hframe, htable⟩ := h
      rcases List.mem_cons.mp hframe with rfl | hframe
      · exact absurd htable hown
      · obtain ⟨level, hlevel⟩ := ih ⟨frame, hframe, htable⟩
        exact ⟨level + 1, by rw [levelOf?_of_not_mem hown, hlevel]; rfl⟩

/-- What a level around the innermost one reaches is found, and it is found there unless the
innermost level has the name itself. -/
theorem levelOf?_of_outer (own : Frame) (h : ∃ frame ∈ outer, table ∈ frame.tables) :
    ∃ level, Scopes.levelOf? (own :: outer) table = some level ∧
      (0 < level ↔ table ∉ own.tables) := by
  by_cases hown : table ∈ own.tables
  · exact ⟨0, levelOf?_of_mem hown, by simp [hown]⟩
  · obtain ⟨level, hlevel⟩ := exists_levelOf? h
    refine ⟨level + 1, ?_, by simp [hown]⟩
    rw [levelOf?_of_not_mem hown, hlevel]
    rfl

end

variable {bindings : Bindings} {options : Options}

/-- A column of an enclosing query that is written qualified, in any place of a statement that is
checked. Some level has a relation of the name in front. It is a level around the column's own
exactly if FROM of its own level has no relation of that name; otherwise the column's own level
captures it. -/
theorem correlated_column_found {q : Query} {pre post : List Fragment} {scopes : Scopes}
    {c : Column} (hplace : q.fragments = pre ++ .column scopes c :: post)
    (hcorrelated : c.correlated = true) (hchecked : options.validate = true)
    (hqualified : scopes.isBare = false) {registry last : Registry} {result : Statement}
    (h : q.statement bindings options registry = (.ok result, last)) :
    ∃ own outer before numbers state later level, scopes = own :: outer ∧
      writeAll bindings options pre [] ⟨[], registry⟩ = (.ok (before, numbers), state) ∧
      result.sql = before ++ (c.owner.name ++ "." ++ c.name) ++ later ∧
      scopes.levelOf? c.owner.name = some level ∧ (0 < level ↔ c.owner.name ∉ own.tables) := by
  obtain ⟨⟨before, numbers⟩, state, written, _, later, hbefore, hwritten, htext⟩ :=
    exists_text_of_statement hplace h
  obtain ⟨text, hcolumn, rfl, -⟩ := write_ok_iff.mp hwritten
  rw [column_correlated_ok_iff hcorrelated hchecked, hqualified, if_neg Bool.false_ne_true]
    at hcolumn
  obtain ⟨rfl, houter⟩ := hcolumn
  cases scopes with
  | nil => simp at houter
  | cons own outer =>
    obtain ⟨level, hlevel, hown⟩ := levelOf?_of_outer own houter
    exact ⟨own, outer, before, numbers, state, later, level, rfl, hbefore, htext, hlevel, hown⟩

def crew : Table := ⟨0, "Crew", ["id", "chief"]⟩

/-- The worker of the enclosing query. -/
def thisWorker : Column := (Column.plain (.table crew) "id").asCorrelated

/-- How many workers have a worker for their chief. -/
def followers : Query :=
  ⟨[.call "count" [.star]], false, [.relation (.table crew)],
    [.binary .eq (.column (.plain (.table crew) "chief")) (.column thisWorker)], [], [], [], [], 1⟩

def chiefs : Query :=
  { everything crew 2 with
    whereList := [.binary .lt (.value (.int 0)) (.subquery ⟨"s", followers⟩)] }

/-- The level of the count and the one around it. Both have the crew in FROM. -/
def followerScopes : Scopes :=
  [⟨some "s", ["Crew"], false⟩, ⟨none, ["Crew"], false⟩]

theorem followers_validate : followers.validate = .ok () := by
  rw [Query.validate_ok_iff]
  refine ⟨by decide, ?_, fun _ => by simp [followers, references, Expr.references,
    sourcesOnPredicates, Source.onPredicates]⟩
  intro c hc _
  have howner : c.owner = .table crew := by
    have hcases : c = .plain (.table crew) "chief" ∨ c = thisWorker := by
      simpa [followers, references, Expr.references] using hc
    rcases hcases with rfl | rfl <;> rfl
  rw [Query.reaches_iff rfl, howner]
  decide

theorem chiefs_passes : ∀ site ∈ chiefs.sites, site.Passes := by
  have hsites : chiefs.sites = [.level chiefs, .level followers,
      .column followerScopes (.plain (.table crew) "chief"),
      .column followerScopes thisWorker] := rfl
  rw [hsites]
  have hchiefs : (Site.level chiefs).Passes := rfl
  have hown : (Site.column followerScopes (.plain (.table crew) "chief")).Passes := by
    rintro ⟨⟩
  have hthis : (Site.column followerScopes thisWorker).Passes := by
    intro _ _
    exact ⟨_, List.mem_cons_self, List.mem_cons_self⟩
  simp only [List.forall_mem_cons]
  exact ⟨hchiefs, followers_validate, hown, hthis, by simp⟩

def chiefsText : String :=
  "SELECT * FROM Crew WHERE (0 < (SELECT COUNT(*) FROM Crew WHERE (Crew.chief = Crew.id)))"

/-- The count looks for workers who are their own chiefs: the id of the enclosing query's worker is
found in the level of the count. -/
theorem correlated_column_found_captured :
    ∃ pre post, chiefs.fragments = pre ++ .column followerScopes thisWorker :: post ∧
      thisWorker.correlated = true ∧ followerScopes.isBare = false ∧
      chiefs.statement .empty { validate := true } {} = (.ok ⟨chiefsText, []⟩, {}) ∧
      (∃ before later, chiefsText = before ++ "Crew.id" ++ later) ∧
      followerScopes.levelOf? thisWorker.owner.name = some 0 := by
  have hplace : chiefs.fragments = chiefs.fragments.take 28 ++
      .column followerScopes thisWorker :: chiefs.fragments.drop 29 := rfl
  have hstatement : chiefs.statement .empty { validate := true } {} = (.ok ⟨chiefsText, []⟩, {}) :=
    statement_of_passes {} rfl chiefs_passes
  obtain ⟨own, outer, before, _, _, later, level, hscopes, -, htext, hlevel, hown⟩ :=
    correlated_column_found hplace rfl rfl rfl hstatement
  obtain ⟨rfl, -⟩ := List.cons.inj hscopes
  have hcaptured : level = 0 := by
    refine Nat.eq_zero_of_not_pos ?_
    rw [hown]
    decide
  exact ⟨_, _, hplace, rfl, rfl, hstatement, ⟨before, later, htext⟩, hcaptured ▸ hlevel⟩

end QueryTree.Render
