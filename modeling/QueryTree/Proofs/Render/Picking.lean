import QueryTree.Proofs.Render.Fragments

/-! What is picked out of fragments, in their order. Most of what is of interest passes over the
texts of SQL itself, so the pieces put together are picked from one after the other. -/

namespace QueryTree.Render

section
variable {β : Type}

/-- Nothing is picked out of the texts of SQL itself. -/
structure Passing (pick : Fragment → List β) : Prop where
  word : ∀ w, pick (.word w) = []
  separator : pick .separator = []

/-- Nothing is picked out of names either. -/
structure PassingNames (pick : Fragment → List β) : Prop extends Passing pick where
  name : ∀ n, pick (.name n) = []

variable {pick : Fragment → List β}

theorem flatMap_joined {between : Fragment} (h : pick between = []) (ps : List (List Fragment)) :
    (joined between ps).flatMap pick = ps.flatMap (List.flatMap pick) := by
  induction ps with
  | nil => rfl
  | cons p ps ih =>
    cases ps with
    | nil => simp [joined]
    | cons q qs => simp [joined, h, ih]

section
variable (h : Passing pick)
include h

@[simp] theorem flatMap_enclosed (fs : List Fragment) :
    (enclosed fs).flatMap pick = fs.flatMap pick := by
  simp [enclosed, h.word]

@[simp] theorem flatMap_listed (ps : List (List Fragment)) :
    (listed ps).flatMap pick = ps.flatMap (List.flatMap pick) :=
  flatMap_joined (h.word _) ps

@[simp] theorem flatMap_union (op : SetOp) (left right : List Fragment) :
    (unionFragments op left right).flatMap pick = left.flatMap pick ++ right.flatMap pick := by
  simp [unionFragments, h.word]

@[simp] theorem flatMap_on (ps : List (List Fragment)) :
    (onFragments ps).flatMap pick = ps.flatMap (List.flatMap pick) := by
  cases ps with
  | nil => rfl
  | cons p ps =>
    simp only [onFragments, List.flatMap_cons, h.word, List.nil_append]
    induction ps generalizing p with
    | nil => simp
    | cons q qs ih => simp [ih, h.word, flatMap_enclosed h]

@[simp] theorem flatMap_clause (kind : ClauseKind) (items : List (List Fragment)) :
    (clauseFragments kind items).flatMap (List.flatMap pick) =
      items.flatMap (List.flatMap pick) := by
  cases items with
  | nil => rfl
  | cons p ps => simp [clauseFragments, h.word, flatMap_listed h]

@[simp] theorem flatMap_select (items : List (List Fragment)) :
    (selectFragments items).flatMap (List.flatMap pick) = items.flatMap (List.flatMap pick) := by
  cases items with
  | nil => simp [selectFragments, h.word, flatMap_clause h]
  | cons p ps => simp [selectFragments, flatMap_clause h]

@[simp] theorem flatMap_level (level : LevelParts) :
    level.fragments.flatMap pick =
      level.select.flatMap (List.flatMap pick) ++ level.sources.flatMap (List.flatMap pick) ++
        level.filter.flatMap (List.flatMap pick) ++ level.group.flatMap (List.flatMap pick) ++
        level.having.flatMap (List.flatMap pick) ++ level.order.flatMap (List.flatMap pick) ++
        level.limit.flatMap (List.flatMap pick) := by
  simp [LevelParts.fragments, flatMap_joined h.separator, flatMap_clause h, flatMap_select h]

end

section
variable (h : PassingNames pick)
include h

@[simp] theorem flatMap_label (scopes : Scopes) (e : Expr) :
    (labelFragments scopes e).flatMap pick = [] := by
  cases e with
  | column c =>
    cases hl : c.label <;> cases hb : scopes.isBare <;>
      simp [labelFragments, hl, hb, h.word, h.name]
  | labeled e l => simp [labelFragments, h.word, h.name]
  | _ => rfl

@[simp] theorem flatMap_items (scopes : Scopes) (es : List Expr) :
    (itemFragments scopes es (exprsFragments scopes es)).flatMap (List.flatMap pick) =
      (exprsFragments scopes es).flatMap (List.flatMap pick) := by
  induction es with
  | nil => rfl
  | cons e es ih =>
    simp only [itemFragments] at ih
    simp [exprsFragments, itemFragments, ih, flatMap_label h]

end

/-! Properties of all that is picked. -/

def Every (pick : Fragment → List β) (P : β → Prop) (fs : List Fragment) : Prop :=
  ∀ x ∈ fs.flatMap pick, P x

section
variable {P : β → Prop} {fs gs left right : List Fragment} {ps : List (List Fragment)}

@[simp] theorem every_nil : Every pick P [] := by
  simp [Every]

@[simp] theorem every_append : Every pick P (fs ++ gs) ↔ Every pick P fs ∧ Every pick P gs := by
  simp only [Every, List.flatMap_append, List.forall_mem_append]

@[simp] theorem every_cons {f : Fragment} :
    Every pick P (f :: fs) ↔ (∀ x ∈ pick f, P x) ∧ Every pick P fs := by
  simp only [Every, List.flatMap_cons, List.forall_mem_append]

theorem every_of_flatMap (h : fs.flatMap pick = ps.flatMap (List.flatMap pick))
    (hps : ∀ p ∈ ps, Every pick P p) : Every pick P fs := by
  intro x hx
  rw [h] at hx
  obtain ⟨p, hp, hx⟩ := List.mem_flatMap.mp hx
  exact hps p hp x hx

section
variable (h : Passing pick)
include h

@[simp] theorem every_enclosed : Every pick P (enclosed fs) ↔ Every pick P fs := by
  simp only [Every, flatMap_enclosed h]

@[simp] theorem every_union {op : SetOp} :
    Every pick P (unionFragments op left right) ↔ Every pick P left ∧ Every pick P right := by
  simp only [Every, flatMap_union h, List.forall_mem_append]

theorem every_listed (hps : ∀ p ∈ ps, Every pick P p) : Every pick P (listed ps) :=
  every_of_flatMap (flatMap_listed h ps) hps

theorem every_on (hps : ∀ p ∈ ps, Every pick P p) : Every pick P (onFragments ps) :=
  every_of_flatMap (flatMap_on h ps) hps

theorem every_level {level : LevelParts} (hselect : ∀ p ∈ level.select, Every pick P p)
    (hsources : ∀ p ∈ level.sources, Every pick P p) (hfilter : ∀ p ∈ level.filter, Every pick P p)
    (hgroup : ∀ p ∈ level.group, Every pick P p) (hhaving : ∀ p ∈ level.having, Every pick P p)
    (horder : ∀ p ∈ level.order, Every pick P p) (hlimit : ∀ p ∈ level.limit, Every pick P p) :
    Every pick P level.fragments := by
  have hpicked : level.fragments.flatMap pick =
      (level.select ++ level.sources ++ level.filter ++ level.group ++ level.having ++
        level.order ++ level.limit).flatMap (List.flatMap pick) := by
    simp only [flatMap_level h, List.flatMap_append]
  refine every_of_flatMap hpicked ?_
  simp only [List.forall_mem_append]
  exact ⟨⟨⟨⟨⟨⟨hselect, hsources⟩, hfilter⟩, hgroup⟩, hhaving⟩, horder⟩, hlimit⟩

end

theorem every_items (h : PassingNames pick) (scopes : Scopes) (es : List Expr)
    (hps : ∀ p ∈ ps, Every pick P p) : ∀ p ∈ itemFragments scopes es ps, Every pick P p := by
  induction es generalizing ps with
  | nil => simp [itemFragments]
  | cons e es ih =>
    cases ps with
    | nil => simp [itemFragments]
    | cons p ps =>
      rw [List.forall_mem_cons] at hps
      have hlabel : Every pick P (labelFragments scopes e) := by
        rw [Every, flatMap_label h]
        simp
      rw [itemFragments, List.zipWith_cons_cons, List.forall_mem_cons]
      exact ⟨every_append.mpr ⟨hps.1, hlabel⟩, ih hps.2⟩

end

end

end QueryTree.Render
