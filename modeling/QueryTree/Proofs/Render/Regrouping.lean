import QueryTree.Proofs.Builder
import QueryTree.Proofs.Render.Conjunction
import QueryTree.Proofs.Render.Levels
import QueryTree.Proofs.Validation

/-!
Two predicates for WHERE or HAVING, given one after the other or joined by AND before. They come to
the same query if the clause has no predicate yet. Behind an earlier one they are nested in two
ways, and the text shows which, in its parentheses and nowhere else.
-/

namespace QueryTree

/-- No expression is the same as one that has it for its left operand. -/
theorem Expr.same_left (op : BinaryOp) (right : Expr) : (e : Expr) →
    (Expr.binary op e right).same e = false
  | .binary op' left right' => by
    have hleft := Expr.same_left op' right' left
    simp [Expr.same, hleft]
  | .value _ | .param _ | .star | .column _ | .unary _ _ | .between _ _ _ | .call _ _ | .list _
  | .labeled _ _ | .subquery _ => by
    simp [Expr.same]

/-- Three predicates, of which the first two are joined first. -/
def Expr.joinedLeft (p a b : Expr) : Expr :=
  .binary .and (.binary .and p a) b

/-- Three predicates, of which the last two are joined first. -/
def Expr.joinedRight (p a b : Expr) : Expr :=
  .binary .and p (.binary .and a b)

theorem Expr.references_joined (p a b : Expr) :
    (joinedLeft p a b).references = (joinedRight p a b).references := by
  simp [joinedLeft, joinedRight, references]

namespace Query

variable {q : Query} {slot : Slot}

/-- The checks of a predicate ask for its references and not for its form. -/
theorem validate_withItems (hslot : slot = .filter ∨ slot = .having) {e e' : Expr}
    (h : e.references = e'.references) :
    (q.withItems slot [e]).validate = (q.withItems slot [e']).validate := by
  rcases hslot with rfl | rfl
  · have hcolumns : distinctColumns [e] = distinctColumns [e'] := by
      simp only [distinctColumns, references, h]
    simp only [validate, checkTables, checkOwners, withItems, hcolumns]
    rfl
  · rfl

end Query

namespace Render

/-- The texts of three predicates. -/
def threeTexts (s : Setting) (p a b : Expr) : Writer (String × String × String) := do
  let p ← expr s p
  let a ← expr s a
  let b ← expr s b
  return (p, a, b)

theorem expr_joinedLeft (s : Setting) (p a b : Expr) :
    expr s (.joinedLeft p a b) =
      (fun t => joinedText (joinedText t.1 t.2.1) t.2.2) <$> threeTexts s p a b := by
  simp [Expr.joinedLeft, expr_and, threeTexts]

theorem expr_joinedRight (s : Setting) (p a b : Expr) :
    expr s (.joinedRight p a b) =
      (fun t => joinedText t.1 (joinedText t.2.1 t.2.2)) <$> threeTexts s p a b := by
  simp [Expr.joinedRight, expr_and, threeTexts]

/-- What is written of a level in front of the predicate of a clause, behind its SELECT list. -/
def frontClauses (s : Setting) (identity : Identity) (id : Nat) (q : Query) :
    Slot → Writer (List String)
  | .having => do
    let sources ← sourceTexts s identity id q.sources
    let filter ← exprs s q.whereList
    let group ← exprs s q.groupList
    return clauseText .from_ sources ++ clauseText .filter filter ++ clauseText .groupBy group
  | _ => clauseText .from_ <$> sourceTexts s identity id q.sources

/-- What is written of a level behind the predicate of a clause. -/
def backClauses (s : Setting) (q : Query) : Slot → Writer (List String)
  | .having => do
    let order ← exprs s q.orderList
    let limit ← exprs s q.limitList
    return clauseText .orderBy order ++ clauseText .limit limit
  | _ => do
    let group ← exprs s q.groupList
    let having ← exprs s q.havingList
    let order ← exprs s q.orderList
    let limit ← exprs s q.limitList
    return clauseText .groupBy group ++ clauseText .having having ++ clauseText .orderBy order ++
      clauseText .limit limit

theorem behindSelect_withItems {slot : Slot} (hslot : slot = .filter ∨ slot = .having)
    (s : Setting) (identity : Identity) (id : Nat) (q : Query) (e : Expr) :
    behindSelect s identity id (q.withItems slot [e]) = (do
      let front ← frontClauses s identity id q slot
      let text ← expr s e
      let back ← backClauses s q slot
      return front ++ ((q.clause slot).kind.keyword ++ " " ++ text) :: back) := by
  rcases hslot with rfl | rfl <;>
    simp [behindSelect, frontClauses, backClauses, Query.withItems, Query.clause, exprs, clauseText]

/-- Two predicates made of the same texts: with the one, the level is written as with the other, but
for what they make of these texts. -/
theorem exists_query_around {α : Type} (s : Setting) (alias_ : Option String) (identity : Identity)
    (q : Query) {slot : Slot} (hslot : slot = .filter ∨ slot = .having) {e e' : Expr}
    (href : e.references = e'.references) {texts : Writer α} {f f' : α → String}
    (he : expr (s.inside alias_ q) e = f <$> texts)
    (he' : expr (s.inside alias_ q) e' = f' <$> texts) :
    ∃ (around : Writer (List String × α × List String)) (keyword : String),
      query s alias_ identity none (q.withItems slot [e]) =
        (fun t => s.options.separator.intercalate (t.1 ++ (keyword ++ f t.2.1) :: t.2.2)) <$>
          around ∧
      query s alias_ identity none (q.withItems slot [e']) =
        (fun t => s.options.separator.intercalate (t.1 ++ (keyword ++ f' t.2.1) :: t.2.2)) <$>
          around := by
  let inside := s.inside alias_ q
  have hrun : ∀ {e : Expr} {f : α → String}, expr inside e = f <$> texts →
      query s alias_ identity none (q.withItems slot [e]) = (do
        s.check (q.withItems slot [e])
        let id ← naming (identity.number q.id)
        let select ← items inside q.selectList
        let front ← frontClauses inside identity id q slot
        let given ← texts
        let back ← backClauses inside q slot
        return s.options.separator.intercalate (selectText select ++ (front ++
          ((q.clause slot).kind.keyword ++ " " ++ f given) :: back))) := by
    intro e f hexpr
    have hlevel : (q.withItems slot [e]).isBareUnion = false := by
      rcases hslot with rfl | rfl <;> simp [Query.isBareUnion, Query.withItems, Query.trailingLists]
    have hinside : s.inside alias_ (q.withItems slot [e]) = inside := by
      rcases hslot with rfl | rfl <;> rfl
    have hid : (q.withItems slot [e]).id = q.id := by rcases hslot with rfl | rfl <;> rfl
    have hselect : (q.withItems slot [e]).selectList = q.selectList := by
      rcases hslot with rfl | rfl <;> rfl
    rw [query_eq_level hlevel]
    simp [hinside, hid, hselect, behindSelect_withItems hslot, hexpr]
  have hcheck : s.check (q.withItems slot [e]) = s.check (q.withItems slot [e']) := by
    simp only [Setting.check, Query.validate_withItems hslot href]
  refine ⟨do
    s.check (q.withItems slot [e'])
    let id ← naming (identity.number q.id)
    let select ← items inside q.selectList
    let front ← frontClauses inside identity id q slot
    let given ← texts
    let back ← backClauses inside q slot
    return (selectText select ++ front, given, back), (q.clause slot).kind.keyword ++ " ", ?_, ?_⟩
  · rw [hrun he, hcheck]
    simp
  · rw [hrun he']
    simp

/-- A statement from the text that its query is written as. -/
theorem statement_of_query_map {α : Type} {q : Query} {bindings : Bindings} {options : Options}
    {texts : Writer α} {f : α → String}
    (h : query ⟨bindings, options, []⟩ none .own none q = f <$> texts) (registry : Registry) :
    q.statement bindings options registry = match texts ⟨[], registry⟩ with
      | (.ok t, state) => (.ok ⟨f t, state.params⟩, state.registry)
      | (.error e, state) => (.error e, state.registry) := by
  rw [statement_run, h, map_eq_pure_bind, bind_run]
  cases texts ⟨[], registry⟩ with
  | mk outcome state => cases outcome <;> rfl

end Render

namespace Query

/-- The query with predicates added to a clause by one call. -/
def adding (q : Query) (slot : Slot) (predicates : List Expr) : Naming Query :=
  (q.build (.exprs slot false predicates)).anew

theorem anew_withItems (q : Query) (slot : Slot) (items : List Expr) (registry : Registry) :
    (q.withItems slot items).anew registry =
      ((q.anew registry).1.withItems slot items, (q.anew registry).2) := by
  cases slot <;> rfl

/-- The predicates are joined to the one that the clause has, if it has one. -/
theorem adding_eq {q : Query} {slot : Slot} (hslot : slot = .filter ∨ slot = .having)
    (predicates : List Expr) (registry : Registry) :
    q.adding slot predicates registry =
      ((q.anew registry).1.withItems slot
        (Expr.conjunction? ((q.clause slot).predicate?.toList ++ predicates)).toList,
        (q.anew registry).2) := by
  rw [← anew_withItems]
  rcases hslot with rfl | rfl <;> rfl

theorem joined_not_same (q : Query) {slot : Slot} (hslot : slot = .filter ∨ slot = .having)
    (p a b : Expr) :
    (q.withItems slot [.joinedLeft p a b] == q.withItems slot [.joinedRight p a b]) = false := by
  have hjoined : (Expr.joinedLeft p a b).same (.joinedRight p a b) = false := by
    simp [Expr.joinedLeft, Expr.joinedRight, Expr.same, Expr.same_left]
  cases q
  rcases hslot with rfl | rfl <;>
  · change Query.same _ _ = false
    simp [withItems, Query.same, sameExprs, hjoined]

/-- Two queries that differ in the nesting of three predicates fail alike, and written they differ
in that nesting alone. -/
theorem statements_nested (q : Query) {slot : Slot} (hslot : slot = .filter ∨ slot = .having)
    (p a b : Expr) (bindings : Bindings) (options : Options) (start : Registry) :
    (∃ e last,
      (q.withItems slot [.joinedLeft p a b]).statement bindings options start = (.error e, last) ∧
      (q.withItems slot [.joinedRight p a b]).statement bindings options start =
        (.error e, last)) ∨
    ∃ front x y z back params last,
      let left := front ++ Render.joinedText (Render.joinedText x y) z ++ back
      let right := front ++ Render.joinedText x (Render.joinedText y z) ++ back
      (q.withItems slot [.joinedLeft p a b]).statement bindings options start =
          (.ok ⟨left, params⟩, last) ∧
        (q.withItems slot [.joinedRight p a b]).statement bindings options start =
          (.ok ⟨right, params⟩, last) ∧
        left ≠ right := by
  obtain ⟨around, keyword, hleft, hright⟩ :=
    Render.exists_query_around ⟨bindings, options, []⟩ none .own q hslot
      (Expr.references_joined p a b) (Render.expr_joinedLeft _ p a b)
      (Render.expr_joinedRight _ p a b)
  rw [Render.statement_of_query_map hleft, Render.statement_of_query_map hright]
  cases around ⟨[], start⟩ with
  | mk outcome state =>
    cases outcome with
    | error e => exact Or.inl ⟨e, state.registry, rfl, rfl⟩
    | ok t =>
      obtain ⟨before, ⟨x, y, z⟩, after⟩ := t
      obtain ⟨front, back, haround⟩ := exists_intercalate_around options.separator before after
      refine Or.inr ⟨front ++ keyword, x, y, z, back, state.params, state.registry, ?_, ?_, ?_⟩
      · simp only [haround, String.append_assoc]
      · simp only [haround, String.append_assoc]
      · simp only [String.append_assoc, ne_eq, String.append_right_inj, String.append_left_inj]
        exact Render.joinedText_ne x y z

/-- To a clause without a predicate two of them may be added one by one or joined by AND. Behind an
earlier predicate these are different queries. They fail alike, and written they differ in how the
three predicates are nested and in nothing else. -/
theorem predicates_apart_or_joined (q : Query) {slot : Slot}
    (hslot : slot = .filter ∨ slot = .having) (a b : Expr) (registry : Registry) :
    let apart := q.adding slot [a, b] registry
    let joined := q.adding slot [.binary .and a b] registry
    ((q.clause slot).items = [] → apart = joined) ∧
      ∀ p rest, (q.clause slot).items = p :: rest →
        apart.2 = joined.2 ∧
        apart.1 = joined.1.withItems slot [.binary .and (.binary .and p a) b] ∧
        joined.1 = joined.1.withItems slot [.binary .and p (.binary .and a b)] ∧
        (apart.1 == joined.1) = false ∧
        ∀ (bindings : Bindings) (options : Options) (start : Registry),
          (∃ e last, apart.1.statement bindings options start = (.error e, last) ∧
            joined.1.statement bindings options start = (.error e, last)) ∨
          ∃ front x y z back params last,
            let left := front ++ Render.joinedText (Render.joinedText x y) z ++ back
            let right := front ++ Render.joinedText x (Render.joinedText y z) ++ back
            apart.1.statement bindings options start = (.ok ⟨left, params⟩, last) ∧
              joined.1.statement bindings options start = (.ok ⟨right, params⟩, last) ∧
              left ≠ right := by
  intro apart joined
  refine ⟨fun hnone => ?_, fun p rest hp => ?_⟩
  · have hpredicate : (q.clause slot).predicate? = none := by rw [Clause.predicate?, hnone]; rfl
    simp only [apart, joined, adding_eq hslot, hpredicate]
    rfl
  · have hpredicate : (q.clause slot).predicate? = some p := by rw [Clause.predicate?, hp]; rfl
    set plain := (q.anew registry).1
    have hapart : apart = (plain.withItems slot [.joinedLeft p a b], (q.anew registry).2) := by
      simp only [apart, adding_eq hslot, hpredicate]
      rfl
    have hjoined : joined = (plain.withItems slot [.joinedRight p a b], (q.anew registry).2) := by
      simp only [joined, adding_eq hslot, hpredicate]
      rfl
    have hagain : ∀ e e', (plain.withItems slot [e]).withItems slot [e'] =
        plain.withItems slot [e'] := by
      rcases hslot with rfl | rfl <;> exact fun _ _ => rfl
    rw [hapart, hjoined]
    exact ⟨rfl, (hagain _ _).symm, (hagain _ _).symm, joined_not_same plain hslot p a b,
      statements_nested plain hslot p a b⟩

end Query

/-- The books of the years from 2000 on. -/
def recentBooks : Query :=
  ⟨[], false, [.relation (.table books)], [.binary .gte (bookColumn "year") (.value (.int 2000))],
    [], [], [], [], 1⟩

/-- Behind the predicate on the year, two placeholders are nested in two ways. -/
theorem recentBooks_nested_apart :
    let apart := (recentBooks.adding .filter [.param "lent", .param "late"] {}).1
    let joined := (recentBooks.adding .filter [.binary .and (.param "lent") (.param "late")] {}).1
    let bindings : Bindings := .ofList [("lent", .bool true), ("late", .bool false)]
    (apart == joined) = false ∧
      (∃ last, apart.statement bindings {} {} = (.ok ⟨"SELECT * FROM Books WHERE " ++
        "(((Books.year >= 2000) AND ?) AND ?)", [.bool true, .bool false]⟩, last)) ∧
      ∃ last, joined.statement bindings {} {} = (.ok ⟨"SELECT * FROM Books WHERE " ++
        "((Books.year >= 2000) AND (? AND ?))", [.bool true, .bool false]⟩, last) := by
  refine ⟨?_, ⟨_, rfl⟩, ⟨_, rfl⟩⟩
  exact Query.joined_not_same (recentBooks.anew {}).1 (Or.inl rfl)
    (.binary .gte (bookColumn "year") (.value (.int 2000))) (.param "lent") (.param "late")

/-- The same two placeholders for HAVING, where there is no predicate yet, and for WHERE. -/
theorem predicates_apart_or_joined_recentBooks :
    (Slot.having = .filter ∨ Slot.having = .having) ∧
      recentBooks.adding .having [.param "lent", .param "late"] {} =
        recentBooks.adding .having [.binary .and (.param "lent") (.param "late")] {} ∧
      (Slot.filter = .filter ∨ Slot.filter = .having) ∧
      ((recentBooks.adding .filter [.param "lent", .param "late"] {}).1 ==
        (recentBooks.adding .filter [.binary .and (.param "lent") (.param "late")] {}).1) =
          false := by
  have hhaving : Slot.having = .filter ∨ Slot.having = .having := Or.inr rfl
  have hfilter : Slot.filter = .filter ∨ Slot.filter = .having := Or.inl rfl
  obtain ⟨hfirst, -⟩ :=
    Query.predicates_apart_or_joined recentBooks hhaving (.param "lent") (.param "late") {}
  obtain ⟨-, hbehind⟩ :=
    Query.predicates_apart_or_joined recentBooks hfilter (.param "lent") (.param "late") {}
  obtain ⟨-, -, -, hsame, -⟩ := hbehind _ _ rfl
  exact ⟨hhaving, hfirst rfl, hfilter, hsame⟩

end QueryTree
