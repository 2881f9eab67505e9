import QueryTree.Proofs.Render.Runs

/-!
A level of a query around its SELECT list. The list is written item by item. What is written behind
it depends neither on the items nor on their labels.
-/

namespace QueryTree

/-- What follows the first of some texts with a separator between them. -/
theorem exists_intercalate_cons (separator : String) (after : List String) :
    ∃ back, ∀ text, separator.intercalate (text :: after) = text ++ back := by
  by_cases hafter : after = []
  · refine ⟨"", fun text => ?_⟩
    rw [hafter, String.intercalate_singleton, String.append_empty]
  · refine ⟨separator ++ separator.intercalate after, fun text => ?_⟩
    rw [String.intercalate_cons_of_ne_nil hafter, String.append_assoc]

theorem exists_intercalate_around (separator : String) (before after : List String) :
    ∃ front back, ∀ text,
      separator.intercalate (before ++ text :: after) = front ++ text ++ back := by
  obtain ⟨back, hback⟩ := exists_intercalate_cons separator after
  by_cases hbefore : before = []
  · refine ⟨"", back, fun text => ?_⟩
    rw [hbefore, List.nil_append, hback, String.empty_append]
  · refine ⟨separator.intercalate before ++ separator, back, fun text => ?_⟩
    rw [String.intercalate_append_of_ne_nil hbefore (List.cons_ne_nil _ _), hback]
    simp only [String.append_assoc]

namespace Render

/-- The items of a SELECT list, each with its label. -/
def items (s : Setting) (es : List Expr) : Writer (List String) :=
  s.labeled es <$> exprs s es

section
variable (s : Setting)

@[simp] theorem items_nil : items s [] = pure [] := by
  simp [items, exprs, Setting.labeled]

@[simp] theorem items_cons (e : Expr) (es : List Expr) : items s (e :: es) = (do
    let text ← item s e
    let texts ← items s es
    return text :: texts) := by
  simp [items, item, exprs, Setting.labeled]

@[simp] theorem items_append (as bs : List Expr) : items s (as ++ bs) = (do
    let left ← items s as
    let right ← items s bs
    return left ++ right) := by
  induction as with
  | nil => simp
  | cons a as ih => simp [ih]

end

/-- What is inside a level: its scope, in front of those around it. -/
def Setting.inside (s : Setting) (alias_ : Option String) (q : Query) : Setting :=
  s.enter alias_ q.reachableNames q.isUnionFed

/-- The clauses behind the SELECT list of the level with the given number. -/
def behindSelect (s : Setting) (identity : Identity) (id : Nat) (q : Query) :
    Writer (List String) := do
  let sources ← sourceTexts s identity id q.sources
  let filter ← exprs s q.whereList
  let group ← exprs s q.groupList
  let having ← exprs s q.havingList
  let order ← exprs s q.orderList
  let limit ← exprs s q.limitList
  return clauseText .from_ sources ++ clauseText .filter filter ++ clauseText .groupBy group ++
    clauseText .having having ++ clauseText .orderBy order ++ clauseText .limit limit

section
variable {s : Setting} {alias_ : Option String} {identity : Identity} {q : Query}
  {state between last : State} {text : String} {texts : List String}

theorem query_eq_level (h : q.isBareUnion = false) :
    query s alias_ identity none q = (do
      s.check q
      let id ← naming (identity.number q.id)
      let select ← items (s.inside alias_ q) q.selectList
      let others ← behindSelect (s.inside alias_ q) identity id q
      return s.options.separator.intercalate (selectText select ++ others)) := by
  obtain ⟨select, sub, sources, filter, group, having, order, limit, id⟩ := q
  simp [query, OnlyColumn.of, OnlyColumn.items, h, behindSelect, items, Setting.inside,
    Setting.enter, Level.text]

/-- A level is written if its checks pass, its items are written and what is behind them is. -/
theorem query_ok_iff (hlevel : q.isBareUnion = false) :
    query s alias_ identity none q state = (.ok text, last) ↔
      (s.options.validate = true → q.validate = .ok ()) ∧ ∃ select between others,
        items (s.inside alias_ q) q.selectList
            ⟨state.params, (identity.number q.id state.registry).2⟩ = (.ok select, between) ∧
          behindSelect (s.inside alias_ q) identity (identity.number q.id state.registry).1 q
            between = (.ok others, last) ∧
          text = s.options.separator.intercalate (selectText select ++ others) := by
  rw [query_eq_level hlevel]
  simp only [bind_ok_iff, lift_ok_iff, naming_ok_iff, pure_ok_iff]
  constructor
  · rintro ⟨_, _, ⟨hcheck, rfl⟩, _, _, ⟨rfl, rfl⟩, select, between, hselect, others, _, hothers,
      rfl, rfl⟩
    exact ⟨check_ok_iff.mp hcheck, select, between, others, hselect, hothers, rfl⟩
  · rintro ⟨hcheck, select, between, others, hselect, hothers, rfl⟩
    exact ⟨(), state, ⟨check_ok_iff.mpr hcheck, rfl⟩, _, _, ⟨rfl, rfl⟩, select, between, hselect,
      others, last, hothers, rfl, rfl⟩

theorem selectText_of_ne_nil {select : List String} (h : select ≠ []) :
    selectText select = ["SELECT " ++ ", ".intercalate select] := by
  simp [selectText, clauseText, h, ClauseKind.keyword]

/-- The SELECT clause comes first in the text of a level. -/
theorem exists_behind_select (separator : String) (others : List String) :
    ∃ rest, ∀ select, select ≠ [] →
      separator.intercalate (selectText select ++ others) =
        "SELECT " ++ ", ".intercalate select ++ rest := by
  obtain ⟨rest, hrest⟩ := exists_intercalate_cons separator others
  refine ⟨rest, fun select hselect => ?_⟩
  rw [selectText_of_ne_nil hselect]
  exact hrest _

/-- The text around one item of a level. -/
theorem exists_around_item (separator : String) (before after others : List String) :
    ∃ front back, ∀ text,
      separator.intercalate (selectText (before ++ text :: after) ++ others) =
        front ++ text ++ back := by
  obtain ⟨rest, hrest⟩ := exists_behind_select separator others
  obtain ⟨front, back, htext⟩ := exists_intercalate_around ", " before after
  refine ⟨"SELECT " ++ front, back ++ rest, fun text => ?_⟩
  rw [hrest _ (by simp), htext]
  simp only [String.append_assoc]

/-- Items are written one by one. -/
theorem item_of_items {es : List Expr} (h : items s es state = (.ok texts, last)) :
    texts.length = es.length ∧ ∀ (i : Nat) (e : Expr), es[i]? = some e →
      ∃ text before after, texts[i]? = some text ∧ item s e before = (.ok text, after) := by
  induction es generalizing state texts with
  | nil =>
    obtain ⟨rfl, -⟩ := pure_ok_iff.mp (items_nil s ▸ h)
    simp
  | cons e es ih =>
    simp only [items_cons, bind_ok_iff, pure_ok_iff] at h
    obtain ⟨text, _, htext, others, _, hothers, rfl, rfl⟩ := h
    obtain ⟨hlength, hitems⟩ := ih hothers
    refine ⟨by simp [hlength], fun i found hfound => ?_⟩
    cases i with
    | zero =>
      cases hfound
      exact ⟨text, _, _, rfl, htext⟩
    | succ i => exact hitems i found hfound

section
variable {e other : Expr} {front behind : List Expr}

/-- Every item of a level that is written is written itself. -/
theorem exists_item_of_query (hselect : q.selectList = front ++ e :: behind)
    (h : query s alias_ identity none q state = (.ok text, last)) :
    ∃ written before after, item (s.inside alias_ q) e before = (.ok written, after) := by
  obtain ⟨-, select, _, _, hitems, -⟩ := (query_ok_iff (by simp [Query.isBareUnion, hselect])).mp h
  obtain ⟨written, before, after, -, hitem⟩ :=
    (item_of_items hitems).2 front.length e (by simp [hselect])
  exact ⟨written, before, after, hitem⟩

/-- Another item in the place of one. If the checks pass, the text of the level changes in that
place and nowhere else. -/
theorem query_with_item {old new : String} (hselect : q.selectList = front ++ e :: behind)
    (hold : item (s.inside alias_ q) e = pure old)
    (hnew : item (s.inside alias_ q) other = pure new)
    (hchecks : q.validate = .ok () →
      (q.withItems .select (front ++ other :: behind)).validate = .ok ())
    (h : query s alias_ identity none q state = (.ok text, last)) :
    ∃ before after, text = before ++ old ++ after ∧
      query s alias_ identity none (q.withItems .select (front ++ other :: behind)) state =
        (.ok (before ++ new ++ after), last) := by
  obtain ⟨hvalid, select, between, others, hitems, hothers, rfl⟩ :=
    (query_ok_iff (by simp [Query.isBareUnion, hselect])).mp h
  rw [hselect] at hitems
  simp only [items_append, items_cons, hold, pure_bind, bind_ok_iff, pure_ok_iff] at hitems
  obtain ⟨left, _, hleft, _, _, ⟨right, _, hright, rfl, rfl⟩, rfl, rfl⟩ := hitems
  obtain ⟨before, after, haround⟩ := exists_around_item s.options.separator left right others
  refine ⟨before, after, haround old, (query_ok_iff ?_).mpr ⟨fun hasked => hchecks (hvalid hasked),
    left ++ new :: right, _, others, ?_, hothers, (haround new).symm⟩⟩
  · simp [Query.isBareUnion, Query.withItems]
  · change items (s.inside alias_ q) (front ++ other :: behind) _ = _
    simp only [items_append, items_cons, hnew, pure_bind, bind_ok_iff, pure_ok_iff]
    exact ⟨left, _, hleft, _, _, ⟨right, _, hright, rfl, rfl⟩, rfl, rfl⟩

end

end

end Render

end QueryTree
