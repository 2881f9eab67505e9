import QueryTree.Proofs.Value.Equality
import QueryTree.Validation

/-!
Equality of trees. Equal columns agree in every name that a query can see of them. Like that of
constants, equality is symmetric and transitive, but a tree with a NaN in it differs from itself.
-/

namespace QueryTree

theorem Scope.name_eq_of_same {a b : Scope} (h : a.same b = true) : a.name = b.name := by
  cases a with
  | derived d =>
    cases b with
    | derived e =>
      cases d
      simp only [Scope.same, Derived.same, Bool.and_eq_true, beq_iff_eq] at h
      exact h.1.1
    | unfolded v => simp [Scope.same] at h
  | unfolded u =>
    cases b with
    | derived e => simp [Scope.same] at h
    | unfolded v =>
      cases u
      simp only [Scope.same, Unfolded.same, Bool.and_eq_true, beq_iff_eq] at h
      exact h.1

namespace Relation

theorem name_eq_of_same {r s : Relation} (h : r.same s = true) : r.name = s.name := by
  cases r with
  | table t =>
    cases s with
    | table u =>
      rw [Relation.same, beq_iff_eq] at h
      rw [h]
    | _ => simp [Relation.same] at h
  | alias_ a =>
    cases s with
    | alias_ b =>
      rw [Relation.same, beq_iff_eq] at h
      rw [h]
    | _ => simp [Relation.same] at h
  | projected scope source =>
    cases s with
    | projected scope' source' =>
      rw [Relation.same, Bool.and_eq_true] at h
      exact Scope.name_eq_of_same h.1
    | _ => simp [Relation.same] at h
  | derived d =>
    cases s with
    | derived e =>
      cases d
      simp only [Relation.same, Derived.same, Bool.and_eq_true, beq_iff_eq] at h
      exact h.1.1
    | _ => simp [Relation.same] at h

theorem exposedName_eq_of_same (field : String) : (r s : Relation) → r.same s = true →
    r.exposedName field = s.exposedName field
  | .projected scope source, s, h => by
    cases s with
    | projected scope' source' =>
      rw [Relation.same, Bool.and_eq_true] at h
      rw [exposedName, exposedName, name_eq_of_same h.2, exposedName_eq_of_same field _ _ h.2]
    | _ => simp [Relation.same] at h
  | .table _, s, h | .alias_ _, s, h | .derived _, s, h => by
    cases s with
    | projected scope source => simp [Relation.same] at h
    | _ => rfl

end Relation

namespace Column

variable {a b : Column}

theorem same_iff : a.same b = true ↔ a.owner.same b.owner = true ∧ a.field = b.field ∧
    a.label = b.label ∧ a.correlated = b.correlated := by
  cases a
  simp [Column.same, and_assoc]

theorem name_eq_of_same (h : a.same b = true) : a.name = b.name := by
  obtain ⟨howner, hfield, -, -⟩ := same_iff.mp h
  rw [name, name, hfield, Relation.exposedName_eq_of_same _ _ _ howner]

theorem isUnfolded_eq_of_same (h : a.same b = true) : a.isUnfolded = b.isUnfolded := by
  obtain ⟨howner, -, -, -⟩ := same_iff.mp h
  unfold isUnfolded
  cases hr : a.owner with
  | projected scope source =>
    cases hs : b.owner with
    | projected scope' source' =>
      rw [hr, hs, Relation.same, Bool.and_eq_true] at howner
      cases scope <;> cases scope' <;> simp [Scope.same] at howner ⊢
    | _ => simp [hr, hs, Relation.same] at howner
  | _ =>
    cases hs : b.owner with
    | projected scope' source' => simp [hr, hs, Relation.same] at howner
    | _ => rfl

theorem isLocal_eq_of_same (h : a.same b = true) : a.isLocal = b.isLocal := by
  rw [isLocal, isLocal, isUnfolded_eq_of_same h, (same_iff.mp h).2.2.2]

end Column

mutual

theorem Expr.same_comm : (a b : Expr) → a.same b = b.same a
  | .value v, b => by cases b <;> simp [Expr.same, BEq.comm (a := v)]
  | .param key, b => by cases b <;> simp [Expr.same, BEq.comm (a := key)]
  | .star, b => by cases b <;> simp [Expr.same]
  | .column c, b => by cases b <;> simp [Expr.same, Column.same_comm c]
  | .unary op x, b => by cases b <;> simp [Expr.same, BEq.comm (a := op), Expr.same_comm x]
  | .binary op x y, b => by
    cases b <;> simp [Expr.same, BEq.comm (a := op), Expr.same_comm x, Expr.same_comm y]
  | .between x y z, b => by
    cases b <;> simp [Expr.same, Expr.same_comm x, Expr.same_comm y, Expr.same_comm z]
  | .call name args, b => by
    cases b <;> simp [Expr.same, BEq.comm (a := name), sameExprs_comm args]
  | .list items, b => by cases b <;> simp [Expr.same, sameExprs_comm items]
  | .labeled e label, b => by
    cases b <;> simp [Expr.same, BEq.comm (a := label), Expr.same_comm e]
  | .subquery u, b => by cases b <;> simp [Expr.same, Unfolded.same_comm u]

theorem sameExprs_comm : (as bs : List Expr) → sameExprs as bs = sameExprs bs as
  | [], bs => by cases bs <;> simp [sameExprs]
  | a :: as, bs => by cases bs <;> simp [sameExprs, Expr.same_comm a, sameExprs_comm as]

theorem Column.same_comm : (a b : Column) → a.same b = b.same a
  | ⟨owner, field, label, correlated⟩, ⟨owner', field', label', correlated'⟩ => by
    simp only [Column.same, Relation.same_comm owner, BEq.comm (a := field),
      BEq.comm (a := label), BEq.comm (a := correlated)]

theorem Relation.same_comm : (r s : Relation) → r.same s = s.same r
  | .table t, s => by cases s <;> simp [Relation.same, BEq.comm (a := t)]
  | .alias_ a, s => by cases s <;> simp [Relation.same, BEq.comm (a := a)]
  | .projected scope source, s => by
    cases s <;> simp [Relation.same, Scope.same_comm scope, Relation.same_comm source]
  | .derived d, s => by cases s <;> simp [Relation.same, Derived.same_comm d]

theorem Scope.same_comm : (a b : Scope) → a.same b = b.same a
  | .derived d, b => by cases b <;> simp [Scope.same, Derived.same_comm d]
  | .unfolded u, b => by cases b <;> simp [Scope.same, Unfolded.same_comm u]

theorem Derived.same_comm : (d e : Derived) → d.same e = e.same d
  | ⟨name, query, given⟩, ⟨name', query', given'⟩ => by
    simp only [Derived.same, BEq.comm (a := name), Query.same_comm query, Query.same_comm given]

theorem Unfolded.same_comm : (u v : Unfolded) → u.same v = v.same u
  | ⟨name, query⟩, ⟨name', query'⟩ => by
    simp only [Unfolded.same, BEq.comm (a := name), Query.same_comm query]

theorem Source.same_comm : (a b : Source) → a.same b = b.same a
  | .relation r, b => by cases b <;> simp [Source.same, Relation.same_comm r]
  | .join kind left right on, b => by
    cases b <;> simp [Source.same, BEq.comm (a := kind), Source.same_comm left,
      Source.same_comm right, sameExprs_comm on]
  | .union op left right, b => by
    cases b <;> simp [Source.same, BEq.comm (a := op), Query.same_comm left,
      Query.same_comm right]

theorem sameSources_comm : (as bs : List Source) → sameSources as bs = sameSources bs as
  | [], bs => by cases bs <;> simp [sameSources]
  | a :: as, bs => by cases bs <;> simp [sameSources, Source.same_comm a, sameSources_comm as]

theorem Query.same_comm : (p q : Query) → p.same q = q.same p
  | ⟨select, sub, sources, filter, group, having, order, limit, _⟩,
    ⟨select', sub', sources', filter', group', having', order', limit', _⟩ => by
    simp only [Query.same, BEq.comm (a := sub), sameExprs_comm select, sameSources_comm sources,
      sameExprs_comm filter, sameExprs_comm group, sameExprs_comm having, sameExprs_comm order,
      sameExprs_comm limit]

end

mutual

theorem Expr.same_trans : (a b c : Expr) → a.same b = true → b.same c = true →
    a.same c = true
  | .value v, b, c, hab, hbc => by
    cases b <;> simp [Expr.same] at hab
    cases c <;> simp [Expr.same] at hbc
    simpa [Expr.same] using BEq.trans hab hbc
  | .param key, b, c, hab, hbc => by
    cases b <;> simp [Expr.same] at hab
    cases c <;> simp [Expr.same] at hbc
    simp [Expr.same, hab, hbc]
  | .star, b, c, hab, hbc => by
    cases b <;> simp [Expr.same] at hab
    cases c <;> simp [Expr.same] at hbc
    simp [Expr.same]
  | .column d, b, c, hab, hbc => by
    cases b <;> simp [Expr.same] at hab
    cases c <;> simp [Expr.same] at hbc
    simpa [Expr.same] using d.same_trans _ _ hab hbc
  | .unary op x, b, c, hab, hbc => by
    cases b <;> simp [Expr.same] at hab
    cases c <;> simp [Expr.same] at hbc
    simpa [Expr.same, hab, hbc] using x.same_trans _ _ hab.2 hbc.2
  | .binary op x y, b, c, hab, hbc => by
    cases b <;> simp [Expr.same] at hab
    cases c <;> simp [Expr.same] at hbc
    simpa [Expr.same, hab, hbc] using
      ⟨x.same_trans _ _ hab.1.2 hbc.1.2, y.same_trans _ _ hab.2 hbc.2⟩
  | .between x y z, b, c, hab, hbc => by
    cases b <;> simp [Expr.same] at hab
    cases c <;> simp [Expr.same] at hbc
    simpa [Expr.same] using
      ⟨⟨x.same_trans _ _ hab.1.1 hbc.1.1, y.same_trans _ _ hab.1.2 hbc.1.2⟩,
        z.same_trans _ _ hab.2 hbc.2⟩
  | .call name args, b, c, hab, hbc => by
    cases b <;> simp [Expr.same] at hab
    cases c <;> simp [Expr.same] at hbc
    simpa [Expr.same, hab, hbc] using sameExprs_trans args _ _ hab.2 hbc.2
  | .list items, b, c, hab, hbc => by
    cases b <;> simp [Expr.same] at hab
    cases c <;> simp [Expr.same] at hbc
    simpa [Expr.same] using sameExprs_trans items _ _ hab hbc
  | .labeled e label, b, c, hab, hbc => by
    cases b <;> simp [Expr.same] at hab
    cases c <;> simp [Expr.same] at hbc
    simpa [Expr.same, hab, hbc] using e.same_trans _ _ hab.1 hbc.1
  | .subquery u, b, c, hab, hbc => by
    cases b <;> simp [Expr.same] at hab
    cases c <;> simp [Expr.same] at hbc
    simpa [Expr.same] using u.same_trans _ _ hab hbc

theorem sameExprs_trans : (as bs cs : List Expr) → sameExprs as bs = true →
    sameExprs bs cs = true → sameExprs as cs = true
  | [], bs, cs, hab, hbc => by
    cases bs <;> simp [sameExprs] at hab
    exact hbc
  | a :: as, bs, cs, hab, hbc => by
    cases bs <;> simp [sameExprs] at hab
    cases cs <;> simp [sameExprs] at hbc
    simpa [sameExprs] using
      ⟨a.same_trans _ _ hab.1 hbc.1, sameExprs_trans as _ _ hab.2 hbc.2⟩

theorem Column.same_trans : (a b c : Column) → a.same b = true → b.same c = true →
    a.same c = true
  | ⟨owner, field, label, correlated⟩, b, c, hab, hbc => by
    rw [Column.same_iff] at *
    obtain ⟨howner, hfield, hlabel, hcorrelated⟩ := hab
    exact ⟨owner.same_trans _ _ howner hbc.1, hfield.trans hbc.2.1, hlabel.trans hbc.2.2.1,
      hcorrelated.trans hbc.2.2.2⟩

theorem Relation.same_trans : (r s t : Relation) → r.same s = true → s.same t = true →
    r.same t = true
  | .table x, b, c, hab, hbc => by
    cases b <;> simp [Relation.same] at hab
    cases c <;> simp [Relation.same] at hbc
    simp [Relation.same, hab, hbc]
  | .alias_ x, b, c, hab, hbc => by
    cases b <;> simp [Relation.same] at hab
    cases c <;> simp [Relation.same] at hbc
    simp [Relation.same, hab, hbc]
  | .projected scope source, b, c, hab, hbc => by
    cases b <;> simp [Relation.same] at hab
    cases c <;> simp [Relation.same] at hbc
    simpa [Relation.same] using
      ⟨scope.same_trans _ _ hab.1 hbc.1, source.same_trans _ _ hab.2 hbc.2⟩
  | .derived d, b, c, hab, hbc => by
    cases b <;> simp [Relation.same] at hab
    cases c <;> simp [Relation.same] at hbc
    simpa [Relation.same] using d.same_trans _ _ hab hbc

theorem Scope.same_trans : (a b c : Scope) → a.same b = true → b.same c = true →
    a.same c = true
  | .derived d, b, c, hab, hbc => by
    cases b <;> simp [Scope.same] at hab
    cases c <;> simp [Scope.same] at hbc
    simpa [Scope.same] using d.same_trans _ _ hab hbc
  | .unfolded u, b, c, hab, hbc => by
    cases b <;> simp [Scope.same] at hab
    cases c <;> simp [Scope.same] at hbc
    simpa [Scope.same] using u.same_trans _ _ hab hbc

theorem Derived.same_trans : (d e f : Derived) → d.same e = true → e.same f = true →
    d.same f = true
  | ⟨name, query, given⟩, ⟨name', query', given'⟩, f, hab, hbc => by
    simp only [Derived.same, Bool.and_eq_true] at *
    exact ⟨⟨BEq.trans hab.1.1 hbc.1.1, query.same_trans _ _ hab.1.2 hbc.1.2⟩,
      given.same_trans _ _ hab.2 hbc.2⟩

theorem Unfolded.same_trans : (u v w : Unfolded) → u.same v = true → v.same w = true →
    u.same w = true
  | ⟨name, query⟩, ⟨name', query'⟩, w, hab, hbc => by
    simp only [Unfolded.same, Bool.and_eq_true] at *
    exact ⟨BEq.trans hab.1 hbc.1, query.same_trans _ _ hab.2 hbc.2⟩

theorem Source.same_trans : (a b c : Source) → a.same b = true → b.same c = true →
    a.same c = true
  | .relation r, b, c, hab, hbc => by
    cases b <;> simp [Source.same] at hab
    cases c <;> simp [Source.same] at hbc
    simpa [Source.same] using r.same_trans _ _ hab hbc
  | .join kind left right on, b, c, hab, hbc => by
    cases b <;> simp [Source.same] at hab
    cases c <;> simp [Source.same] at hbc
    simpa [Source.same, hab, hbc] using
      ⟨⟨left.same_trans _ _ hab.1.1.2 hbc.1.1.2, right.same_trans _ _ hab.1.2 hbc.1.2⟩,
        sameExprs_trans on _ _ hab.2 hbc.2⟩
  | .union op left right, b, c, hab, hbc => by
    cases b <;> simp [Source.same] at hab
    cases c <;> simp [Source.same] at hbc
    simpa [Source.same, hab, hbc] using
      ⟨left.same_trans _ _ hab.1.2 hbc.1.2, right.same_trans _ _ hab.2 hbc.2⟩

theorem sameSources_trans : (as bs cs : List Source) → sameSources as bs = true →
    sameSources bs cs = true → sameSources as cs = true
  | [], bs, cs, hab, hbc => by
    cases bs <;> simp [sameSources] at hab
    exact hbc
  | a :: as, bs, cs, hab, hbc => by
    cases bs <;> simp [sameSources] at hab
    cases cs <;> simp [sameSources] at hbc
    simpa [sameSources] using
      ⟨a.same_trans _ _ hab.1 hbc.1, sameSources_trans as _ _ hab.2 hbc.2⟩

theorem Query.same_trans : (p q r : Query) → p.same q = true → q.same r = true →
    p.same r = true
  | ⟨select, sub, sources, filter, group, having, order, limit, _⟩,
    ⟨select', sub', sources', filter', group', having', order', limit', _⟩, r, hpq, hqr => by
    simp only [Query.same, Bool.and_eq_true] at *
    obtain ⟨⟨⟨⟨⟨⟨⟨hsub, hselect⟩, hsources⟩, hfilter⟩, hgroup⟩, hhaving⟩, horder⟩, hlimit⟩ := hpq
    obtain ⟨⟨⟨⟨⟨⟨⟨hsub', hselect'⟩, hsources'⟩, hfilter'⟩, hgroup'⟩, hhaving'⟩, horder'⟩,
      hlimit'⟩ := hqr
    exact ⟨⟨⟨⟨⟨⟨⟨BEq.trans hsub hsub', sameExprs_trans select _ _ hselect hselect'⟩,
      sameSources_trans sources _ _ hsources hsources'⟩,
      sameExprs_trans filter _ _ hfilter hfilter'⟩, sameExprs_trans group _ _ hgroup hgroup'⟩,
      sameExprs_trans having _ _ hhaving hhaving'⟩, sameExprs_trans order _ _ horder horder'⟩,
      sameExprs_trans limit _ _ hlimit hlimit'⟩

end

instance : PartialEquivBEq Relation where
  symm h := (Relation.same_comm _ _).trans h
  trans := Relation.same_trans _ _ _

end QueryTree
