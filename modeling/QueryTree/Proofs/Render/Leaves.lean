import QueryTree.Proofs.Render.Picking
import QueryTree.Proofs.Value.Literals

/-! The names and constants of a tree. Every name and every constant that is written is one of
them. -/

namespace QueryTree

/-- A name or a constant. Keys of placeholders are neither. -/
inductive Leaf where
  | name (n : String)
  | constant (v : Value)

/-- The texts in a leaf. -/
def Leaf.texts : Leaf → List String
  | .name n => [n]
  | .constant v => v.texts

mutual

/-- The names of tables, fields, aliases, labels and functions, and the constants. -/
def Expr.leaves : Expr → List Leaf
  | .value v => [.constant v]
  | .param _ => []
  | .star => []
  | .column c => c.leaves
  | .unary _ operand => operand.leaves
  | .binary _ left right => left.leaves ++ right.leaves
  | .between subject low high => subject.leaves ++ low.leaves ++ high.leaves
  | .call name args => .name name :: exprsLeaves args
  | .list items => exprsLeaves items
  | .labeled e label => e.leaves ++ [.name label]
  | .subquery ⟨name, q⟩ => .name name :: q.leaves

def exprsLeaves : List Expr → List Leaf
  | [] => []
  | e :: rest => e.leaves ++ exprsLeaves rest

def Column.leaves : Column → List Leaf
  | ⟨owner, field, label, _⟩ => owner.leaves ++ .name field :: (label.map Leaf.name).toList

def Relation.leaves : Relation → List Leaf
  | .table t => [.name t.name]
  | .alias_ a => [.name a.table.name, .name a.name]
  | .projected scope source => scope.leaves ++ source.leaves
  | .derived ⟨name, q, _⟩ => .name name :: q.leaves

def Scope.leaves : Scope → List Leaf
  | .derived ⟨name, q, _⟩ => .name name :: q.leaves
  | .unfolded ⟨name, q⟩ => .name name :: q.leaves

def Query.leaves : Query → List Leaf
  | ⟨select, _, sources, filter, group, having, order, limit, _⟩ =>
    exprsLeaves select ++ sourcesLeaves sources ++ exprsLeaves filter ++ exprsLeaves group ++
      exprsLeaves having ++ exprsLeaves order ++ exprsLeaves limit

def sourcesLeaves : List Source → List Leaf
  | [] => []
  | source :: rest => source.leaves ++ sourcesLeaves rest

def Source.leaves : Source → List Leaf
  | .relation r => r.leaves
  | .join _ left right on => left.leaves ++ right.leaves ++ exprsLeaves on
  | .union _ left right => left.leaves ++ right.leaves

end

namespace Render

@[simp] def Fragment.leaves : Fragment → List Leaf
  | .name n => [.name n]
  | .function n => [.name n]
  | .constant v => [.constant v]
  | .column _ c => c.leaves
  | _ => []

@[simp] theorem passing_leaves : Passing Fragment.leaves :=
  ⟨fun _ => rfl, rfl⟩

/-- A property of all leaves that some fragments write. -/
def Leafy (P : Leaf → Prop) (fs : List Fragment) : Prop :=
  ∀ l ∈ fs.flatMap Fragment.leaves, P l

variable {P : Leaf → Prop}

@[simp] theorem leafy_nil : Leafy P [] :=
  every_nil

@[simp] theorem leafy_append {fs gs : List Fragment} :
    Leafy P (fs ++ gs) ↔ Leafy P fs ∧ Leafy P gs :=
  every_append

@[simp] theorem leafy_cons {f : Fragment} {fs : List Fragment} :
    Leafy P (f :: fs) ↔ (∀ l ∈ f.leaves, P l) ∧ Leafy P fs :=
  every_cons

@[simp] theorem leafy_enclosed {fs : List Fragment} : Leafy P (enclosed fs) ↔ Leafy P fs :=
  every_enclosed passing_leaves

@[simp] theorem leafy_union {op : SetOp} {left right : List Fragment} :
    Leafy P (unionFragments op left right) ↔ Leafy P left ∧ Leafy P right :=
  every_union passing_leaves

theorem leafy_listed {ps : List (List Fragment)} (h : ∀ p ∈ ps, Leafy P p) : Leafy P (listed ps) :=
  every_listed passing_leaves h

theorem leafy_on {ps : List (List Fragment)} (h : ∀ p ∈ ps, Leafy P p) :
    Leafy P (onFragments ps) :=
  every_on passing_leaves h

theorem leafy_level {level : LevelParts} (hselect : ∀ p ∈ level.select, Leafy P p)
    (hsources : ∀ p ∈ level.sources, Leafy P p) (hfilter : ∀ p ∈ level.filter, Leafy P p)
    (hgroup : ∀ p ∈ level.group, Leafy P p) (hhaving : ∀ p ∈ level.having, Leafy P p)
    (horder : ∀ p ∈ level.order, Leafy P p) (hlimit : ∀ p ∈ level.limit, Leafy P p) :
    Leafy P level.fragments :=
  every_level passing_leaves hselect hsources hfilter hgroup hhaving horder hlimit

theorem leafy_label (scopes : Scopes) (e : Expr) (h : ∀ l ∈ e.leaves, P l) :
    Leafy P (labelFragments scopes e) := by
  cases e with
  | column c =>
    obtain ⟨owner, field, label, correlated⟩ := c
    cases label with
    | none => simp [labelFragments]
    | some label =>
      have hlabel : P (.name label) := h _ (by simp [Expr.leaves, Column.leaves])
      cases hbare : scopes.isBare <;> simp [labelFragments, hbare, hlabel]
  | labeled e label =>
    have hlabel : P (.name label) := h _ (by simp [Expr.leaves])
    simp [labelFragments, hlabel]
  | _ => simp [labelFragments]

mutual

theorem leafy_expr (scopes : Scopes) : (e : Expr) → (∀ l ∈ e.leaves, P l) →
    Leafy P (exprFragments scopes e)
  | .value v, h => by simpa [exprFragments, Expr.leaves] using h
  | .param key, _ => by simp [exprFragments]
  | .star, _ => by simp [exprFragments]
  | .column ⟨owner, field, label, correlated⟩, h =>
    leafy_column scopes ⟨owner, field, label, correlated⟩ h owner rfl
  | .unary op operand, h => by
    have ho := leafy_expr scopes operand h
    cases hop : op.isPostfix <;> simpa [exprFragments, hop] using ho
  | .binary op left right, h => by
    rw [Expr.leaves, List.forall_mem_append] at h
    have hl := leafy_expr scopes left h.1
    have hr := leafy_expr scopes right h.2
    simpa [exprFragments] using ⟨hl, hr⟩
  | .between subject low high, h => by
    rw [Expr.leaves, List.forall_mem_append, List.forall_mem_append] at h
    have hs := leafy_expr scopes subject h.1.1
    have hl := leafy_expr scopes low h.1.2
    have hh := leafy_expr scopes high h.2
    simpa [exprFragments] using ⟨hs, hl, hh⟩
  | .call name args, h => by
    rw [Expr.leaves, List.forall_mem_cons] at h
    have hargs := leafy_listed (leafy_exprs scopes args h.2)
    simpa [exprFragments] using ⟨h.1, hargs⟩
  | .list items, h => by
    have hitems := leafy_listed (leafy_exprs scopes items h)
    simpa [exprFragments] using hitems
  | .labeled e _, h => by
    rw [Expr.leaves, List.forall_mem_append] at h
    exact leafy_expr scopes e h.1
  | .subquery ⟨name, q⟩, h => by
    rw [Expr.leaves, List.forall_mem_cons] at h
    have hq := leafy_query scopes (some name) .own none (fun _ hc => nomatch hc) q h.2
    simpa [exprFragments] using hq

theorem leafy_exprs (scopes : Scopes) : (es : List Expr) → (∀ l ∈ exprsLeaves es, P l) →
    ∀ p ∈ exprsFragments scopes es, Leafy P p
  | [], _ => by simp [exprsFragments]
  | e :: rest, h => by
    rw [exprsLeaves, List.forall_mem_append] at h
    have he := leafy_expr scopes e h.1
    have hs := leafy_exprs scopes rest h.2
    simpa [exprsFragments] using ⟨he, hs⟩

theorem leafy_items (scopes : Scopes) : (es : List Expr) → (∀ l ∈ exprsLeaves es, P l) →
    ∀ p ∈ itemFragments scopes es (exprsFragments scopes es), Leafy P p
  | [], _ => by simp [exprsFragments, itemFragments]
  | e :: rest, h => by
    rw [exprsLeaves, List.forall_mem_append] at h
    have he := leafy_expr scopes e h.1
    have hlabel := leafy_label scopes e h.1
    have hs := leafy_items scopes rest h.2
    rw [exprsFragments, itemFragments, List.zipWith_cons_cons, List.forall_mem_cons]
    exact ⟨leafy_append.mpr ⟨he, hlabel⟩, hs⟩

theorem leafy_column (scopes : Scopes) (c : Column) (h : ∀ l ∈ c.leaves, P l) :
    (owner : Relation) → c.owner = owner → Leafy P (columnFragments scopes c owner)
  | .projected (.unfolded ⟨name, q⟩) source, howner => by
    obtain ⟨_, field, label, correlated⟩ := c
    cases howner
    simp only [Column.leaves, Relation.leaves, Scope.leaves, List.forall_mem_append,
      List.forall_mem_cons] at h
    obtain ⟨⟨⟨-, hq⟩, hsource⟩, hfield, -⟩ := h
    have hinner : ∀ l ∈ (Column.plain source field).leaves, P l := by
      simp only [Column.leaves, Column.plain, List.forall_mem_append, List.forall_mem_cons]
      exact ⟨hsource, hfield, by simp⟩
    have hquery := leafy_query scopes (some name) .made
      (some (Column.plain source field,
        fun scopes => columnFragments scopes (Column.plain source field) source))
      (by
        rintro _ ⟨⟩ tables bare
        exact leafy_column _ _ hinner source rfl) q hq
    simpa [columnFragments] using hquery
  | .projected (.derived d) source, _ => by simpa [columnFragments] using h
  | .table t, _ => by simpa [columnFragments] using h
  | .alias_ a, _ => by simpa [columnFragments] using h
  | .derived d, _ => by simpa [columnFragments] using h

theorem leafy_query (scopes : Scopes) (alias_ : Option String) (identity : Identity)
    (only : Option (Narrowing Fragment))
    (honly : ∀ c, only = some c → ∀ tables bare,
      Leafy P (c.2 (⟨alias_, tables, bare⟩ :: scopes))) :
    (q : Query) → (∀ l ∈ q.leaves, P l) →
    Leafy P (queryFragments scopes alias_ identity only q)
  | ⟨select, sub, sources, filter, group, having, order, limit, id⟩, h => by
    simp only [Query.leaves, List.forall_mem_append] at h
    obtain ⟨⟨⟨⟨⟨⟨hselect, hsources⟩, hfilter⟩, hgroup⟩, hhaving⟩, horder⟩, hlimit⟩ := h
    rw [queryFragments, leafy_cons]
    refine ⟨by simp, ?_⟩
    split
    next hbare => exact leafy_bareUnion _ identity sources hsources
    next =>
      rw [leafy_cons, leafy_append]
      refine ⟨by simp, leafy_level ?_ (leafy_sources _ identity sources hsources)
        (leafy_exprs _ filter hfilter) (leafy_exprs _ group hgroup) (leafy_exprs _ having hhaving)
        (leafy_exprs _ order horder) (leafy_exprs _ limit hlimit), by simp⟩
      cases only with
      | none => exact leafy_items _ select hselect
      | some c => simpa [narrowedItems] using honly c rfl _ _

theorem leafy_bareUnion (scopes : Scopes) (identity : Identity) : (sources : List Source) →
    (∀ l ∈ sourcesLeaves sources, P l) → Leafy P (bareUnionFragments scopes identity sources)
  | .union op left right :: rest, h => by
    simp only [sourcesLeaves, Source.leaves, List.forall_mem_append] at h
    have hl := leafy_query scopes none identity.ofOperands none (fun _ hc => nomatch hc) left h.1.1
    have hr := leafy_query scopes none identity.ofOperands none (fun _ hc => nomatch hc) right h.1.2
    simpa [bareUnionFragments] using ⟨hl, hr⟩
  | [], _ => by simp [bareUnionFragments]
  | .relation r :: rest, _ => by simp [bareUnionFragments]
  | .join kind left right on :: rest, _ => by simp [bareUnionFragments]

theorem leafy_sources (scopes : Scopes) (identity : Identity) : (sources : List Source) →
    (∀ l ∈ sourcesLeaves sources, P l) →
    ∀ p ∈ sourcesFragments scopes identity sources, Leafy P p
  | [], _ => by simp [sourcesFragments]
  | source :: rest, h => by
    rw [sourcesLeaves, List.forall_mem_append] at h
    have hsource := leafy_source scopes identity source h.1
    have hs := leafy_sources scopes identity rest h.2
    simpa [sourcesFragments] using ⟨hsource, hs⟩

theorem leafy_source (scopes : Scopes) (identity : Identity) : (source : Source) →
    (∀ l ∈ source.leaves, P l) → Leafy P (sourceFragments scopes identity source)
  | .relation (.table t), h => by
    simpa [sourceFragments, Source.leaves, Relation.leaves] using h
  | .relation (.alias_ a), h => by
    simpa [sourceFragments, Source.leaves, Relation.leaves] using h
  | .relation (.projected (.derived ⟨name, q, given⟩) _), h => by
    have hname : P (.name name) := h _ (by simp [Source.leaves, Relation.leaves, Scope.leaves])
    simpa [sourceFragments, Scope.name] using hname
  | .relation (.projected (.unfolded ⟨name, q⟩) _), h => by
    have hname : P (.name name) := h _ (by simp [Source.leaves, Relation.leaves, Scope.leaves])
    simpa [sourceFragments, Scope.name] using hname
  | .relation (.derived ⟨name, q, _⟩), h => by
    rw [Source.leaves, Relation.leaves, List.forall_mem_cons] at h
    have hq := leafy_query scopes (some name) .own none (fun _ hc => nomatch hc) q h.2
    simpa [sourceFragments] using ⟨hq, h.1⟩
  | .join kind left right on, h => by
    rw [Source.leaves, List.forall_mem_append, List.forall_mem_append] at h
    have hl := leafy_source scopes identity left h.1.1
    have hr := leafy_source scopes identity right h.1.2
    have hon := leafy_on (leafy_exprs scopes on h.2)
    cases hj : right.isJoin <;> simpa [sourceFragments, hj] using ⟨hl, hr, hon⟩
  | .union op left right, h => by
    rw [Source.leaves, List.forall_mem_append] at h
    have hl := leafy_query scopes none identity.ofOperands none (fun _ hc => nomatch hc) left h.1
    have hr := leafy_query scopes none identity.ofOperands none (fun _ hc => nomatch hc) right h.2
    simpa [sourceFragments] using ⟨hl, hr⟩

end

/-- Every leaf that is written is one of the tree. -/
theorem leafy_fragments (q : Query) : Leafy (· ∈ q.leaves) q.fragments :=
  leafy_query [] none .own none (fun _ hc => nomatch hc) q fun _ hl => hl

end Render

end QueryTree
