import Mathlib.Data.List.Nodup
import QueryTree.Proofs.Tree.Copy
import QueryTree.Proofs.Validation

/-!
What the checks of a level leave open. They look for the name of a column's owner among the names
that FROM reaches, and for the name of the column among all that FROM exposes. The two are looked
for apart, and not for the same clauses: the owner in SELECT and WHERE, the column in SELECT and ON.
-/

namespace QueryTree

/-- The names under which a relation exposes its columns. -/
def Relation.exposedNames (r : Relation) : List String :=
  r.columns.map Column.name

theorem mem_sourcesColumnNames_iff {sources : List Source} {name : String} :
    name ∈ sourcesColumnNames sources ↔
      ∃ r ∈ sourcesRelations sources, name ∈ r.exposedNames := by
  rw [sourcesColumnNames, sourcesColumns_eq_flatMap, List.map_flatMap]
  exact List.mem_flatMap

namespace Query

/-- A relation that FROM reaches has the name of the column's owner and exposes the column. -/
def Exposes (q : Query) (c : Column) : Prop :=
  ∃ r ∈ sourcesRelations q.sources, r.name = c.owner.name ∧ c.name ∈ r.exposedNames

theorem mem_reachableNames_iff {q : Query} {name : String} :
    name ∈ q.reachableNames ↔ ∃ r ∈ sourcesRelations q.sources, r.name = name :=
  List.mem_map

/-- Distinct names belong to one relation each, which then has to expose the column itself. -/
theorem exposes_iff {q : Query} (hdistinct : q.reachableNames.Nodup) {c : Column} :
    q.Exposes c ↔ c.owner.name ∈ q.reachableNames ∧
      ∀ r ∈ sourcesRelations q.sources, r.name = c.owner.name → c.name ∈ r.exposedNames := by
  constructor
  · rintro ⟨r, hr, hname, hexposed⟩
    refine ⟨mem_reachableNames_iff.mpr ⟨r, hr, hname⟩, fun other hother hsame => ?_⟩
    have hone : other = r :=
      List.inj_on_of_nodup_map hdistinct hother hr (hsame.trans hname.symm)
    rw [hone]
    exact hexposed
  · rintro ⟨hreached, hexposed⟩
    obtain ⟨r, hr, hname⟩ := mem_reachableNames_iff.mp hreached
    exact ⟨r, hr, hname, hexposed r hr hname⟩

/-- In a query that passes the checks, some relation exposes the name of every column of SELECT and
ON, and the owners of SELECT are reached. The column is exposed by its owner's name only if that
name is reached too, in ON, and if the relation of that name is one that exposes the column. -/
theorem exposed_by_owner_iff {q : Query} (hfed : q.isUnionFed = false)
    (hvalid : q.validate = .ok ()) :
    (∀ c ∈ references q.selectList, c.isLocal = true → c.owner.name ∈ q.reachableNames) ∧
      ∀ c ∈ references (q.selectList ++ sourcesOnPredicates q.sources), c.isLocal = true →
        (∃ r ∈ sourcesRelations q.sources, c.name ∈ r.exposedNames) ∧
        (q.Exposes c ↔ c.owner.name ∈ q.reachableNames ∧
          ∀ r ∈ sourcesRelations q.sources, r.name = c.owner.name →
            c.name ∈ r.exposedNames) := by
  obtain ⟨hdistinct, hreached, hexposed⟩ := validate_ok_iff.mp hvalid
  constructor
  · intro c hc hlocal
    have hselected : c ∈ references (q.selectList ++ q.whereList) := by
      rw [references_append]
      exact List.mem_append_left _ hc
    exact (reaches_iff hfed).mp (hreached c hselected hlocal)
  · intro c hc hlocal
    exact ⟨mem_sourcesColumnNames_iff.mp (hexposed hfed c hc hlocal), exposes_iff hdistinct⟩

end Query

def orders : Relation := .table ⟨0, "Orders", ["id"]⟩

def items : Relation := .table ⟨1, "Items", ["id", "order_id"]⟩

def invoices : Relation := .table ⟨2, "Invoices", ["id"]⟩

/-- Another table that is called like the one of the orders. -/
def pastOrders : Relation := .table ⟨3, "Orders", ["order_id"]⟩

/-- Orders with their items, joined on a table that is not there, and a column that the orders do
not have. -/
def strayJoin : Query :=
  ⟨[.column (.plain pastOrders "order_id")], false,
    [.join .inner (.relation orders) (.relation items)
      [.binary .eq (.column (.plain invoices "id")) (.column (.plain items "order_id"))]],
    [], [], [], [], [], 4⟩

theorem strayJoin_validate : strayJoin.validate = .ok () := by
  rw [Query.validate_ok_iff]
  refine ⟨by decide, ?_, fun _ => ?_⟩
  · intro c hc _
    obtain rfl : c = .plain pastOrders "order_id" := by
      simpa [strayJoin, references, Expr.references] using hc
    exact (Query.reaches_iff rfl).mpr (by decide)
  · intro c hc _
    have hname : c.name = "order_id" ∨ c.name = "id" := by
      simp only [strayJoin, sourcesOnPredicates, Source.onPredicates, references, Expr.references,
        List.cons_append, List.nil_append, List.append_nil, List.mem_cons, List.not_mem_nil,
        or_false] at hc
      rcases hc with rfl | rfl | rfl
      · exact Or.inl rfl
      · exact Or.inr rfl
      · exact Or.inl rfl
    rcases hname with hname | hname <;> rw [hname] <;> decide

/-- The checks pass. FROM exposes neither `Invoices.id`, whose owner it does not reach, nor
`Orders.order_id`, which is a column of the items. -/
theorem strayJoin_not_exposed :
    strayJoin.isUnionFed = false ∧ strayJoin.validate = .ok () ∧
      ∃ inSelect ∈ references strayJoin.selectList,
        ∃ inOn ∈ references (sourcesOnPredicates strayJoin.sources),
          inSelect.isLocal = true ∧ inOn.isLocal = true ∧
            ¬strayJoin.Exposes inSelect ∧ ¬strayJoin.Exposes inOn := by
  obtain ⟨-, hboth⟩ := Query.exposed_by_owner_iff (q := strayJoin) rfl strayJoin_validate
  refine ⟨rfl, strayJoin_validate, .plain pastOrders "order_id", List.mem_cons_self,
    .plain invoices "id", List.mem_cons_self, rfl, rfl, ?_, ?_⟩
  · obtain ⟨-, hiff⟩ := hboth (.plain pastOrders "order_id") List.mem_cons_self rfl
    rw [hiff]
    rintro ⟨-, hexposed⟩
    exact absurd (hexposed orders List.mem_cons_self rfl) (by decide)
  · have hon : Column.plain invoices "id" ∈
        references (strayJoin.selectList ++ sourcesOnPredicates strayJoin.sources) :=
      List.mem_cons_of_mem _ List.mem_cons_self
    obtain ⟨-, hiff⟩ := hboth _ hon rfl
    rw [hiff]
    rintro ⟨hreached, -⟩
    exact absurd hreached (by decide)

namespace Query

/-- The references of a level, those in scalar subqueries left out. -/
def levelReferences (q : Query) : List Column :=
  references (q.selectList ++ sourcesOnPredicates q.sources ++ q.whereList ++ q.groupList ++
    q.havingList ++ q.orderList)

/-- The checks do not look behind WHERE. -/
theorem validate_behind_where (q : Query) (group having order limit : List Expr) :
    ({ q with groupList := group, havingList := having, orderList := order,
              limitList := limit } : Query).validate = q.validate := by
  cases q
  rfl

/-- In a query that passes the checks the owners of SELECT and WHERE are reached. Those of GROUP BY,
HAVING and ORDER BY may be any, so the owners of the level are reached only if these are, and those
of ON. -/
theorem level_owners_reached_iff {q : Query} (hfed : q.isUnionFed = false)
    (hvalid : q.validate = .ok ()) :
    (∀ c ∈ references (q.selectList ++ q.whereList), c.isLocal = true →
        c.owner.name ∈ q.reachableNames) ∧
      (∀ group having order limit,
        ({ q with groupList := group, havingList := having, orderList := order,
                  limitList := limit } : Query).validate = .ok ()) ∧
      ((∀ c ∈ q.levelReferences, c.isLocal = true → c.owner.name ∈ q.reachableNames) ↔
        ∀ c ∈ references (sourcesOnPredicates q.sources ++ q.groupList ++ q.havingList ++
            q.orderList), c.isLocal = true → c.owner.name ∈ q.reachableNames) := by
  have hreached : ∀ c ∈ references (q.selectList ++ q.whereList), c.isLocal = true →
      c.owner.name ∈ q.reachableNames := by
    intro c hc hlocal
    exact (reaches_iff hfed).mp ((validate_ok_iff.mp hvalid).reached c hc hlocal)
  refine ⟨hreached, fun _ _ _ _ => (q.validate_behind_where _ _ _ _).trans hvalid, ?_⟩
  simp only [levelReferences, references_append, List.forall_mem_append] at hreached ⊢
  obtain ⟨hselect, hwhere⟩ := hreached
  constructor
  · rintro ⟨⟨⟨⟨⟨-, hon⟩, -⟩, hgroup⟩, hhaving⟩, horder⟩
    exact ⟨⟨⟨hon, hgroup⟩, hhaving⟩, horder⟩
  · rintro ⟨⟨⟨hon, hgroup⟩, hhaving⟩, horder⟩
    exact ⟨⟨⟨⟨⟨hselect, hon⟩, hwhere⟩, hgroup⟩, hhaving⟩, horder⟩

end Query

/-- The orders in the order of a table that is not there. -/
def strayOrder : Query :=
  ⟨[], false, [.relation orders], [], [], [], [.column (.plain invoices "id")], [], 4⟩

theorem strayOrder_owner_not_reached :
    strayOrder.isUnionFed = false ∧ strayOrder.validate = .ok () ∧
      ¬∀ c ∈ strayOrder.levelReferences, c.isLocal = true →
        c.owner.name ∈ strayOrder.reachableNames := by
  have hvalid : strayOrder.validate = .ok () := rfl
  refine ⟨rfl, hvalid, ?_⟩
  rw [(Query.level_owners_reached_iff (q := strayOrder) rfl hvalid).2.2]
  intro h
  exact absurd (h (.plain invoices "id") List.mem_cons_self rfl) (by decide)

end QueryTree
