import QueryTree.Proofs.Exposure

/-!
The verdict of the checks on a level, read off the tree. What an expression refers to, which
relations FROM reaches and where the ON predicates stand are said without the listings that the
checks run through; the listings add the order, on which only the choice of the error depends.
-/

namespace QueryTree

/-- A reference to a column, outside scalar subqueries. -/
inductive Expr.Refers (c : Column) : Expr → Prop where
  | column : Refers c (.column c)
  | operand {op : UnaryOp} {e : Expr} (h : Refers c e) : Refers c (.unary op e)
  | left {op : BinaryOp} {a b : Expr} (h : Refers c a) : Refers c (.binary op a b)
  | right {op : BinaryOp} {a b : Expr} (h : Refers c b) : Refers c (.binary op a b)
  | subject {a low high : Expr} (h : Refers c a) : Refers c (.between a low high)
  | low {a low high : Expr} (h : Refers c low) : Refers c (.between a low high)
  | high {a low high : Expr} (h : Refers c high) : Refers c (.between a low high)
  | argument {name : String} {args : List Expr} {e : Expr} (he : e ∈ args) (h : Refers c e) :
    Refers c (.call name args)
  | item {items : List Expr} {e : Expr} (he : e ∈ items) (h : Refers c e) : Refers c (.list items)
  | labeled {e : Expr} {label : String} (h : Refers c e) : Refers c (.labeled e label)

namespace Source

/-- A relation that a source reaches, through joins of any depth. -/
inductive Reaches (r : Relation) : Source → Prop where
  | relation : Reaches r (.relation r)
  | left {kind : JoinKind} {a b : Source} {on : List Expr} (h : Reaches r a) :
    Reaches r (.join kind a b on)
  | right {kind : JoinKind} {a b : Source} {on : List Expr} (h : Reaches r b) :
    Reaches r (.join kind a b on)

/-- An ON predicate of a join, at any depth. -/
inductive Joins (p : Expr) : Source → Prop where
  | on {kind : JoinKind} {a b : Source} {on : List Expr} (hp : p ∈ on) : Joins p (.join kind a b on)
  | left {kind : JoinKind} {a b : Source} {on : List Expr} (h : Joins p a) :
    Joins p (.join kind a b on)
  | right {kind : JoinKind} {a b : Source} {on : List Expr} (h : Joins p b) :
    Joins p (.join kind a b on)

theorem mem_relations_iff {r : Relation} (source : Source) :
    r ∈ source.relations ↔ source.Reaches r := by
  cases source with
  | relation s =>
    rw [relations, List.mem_singleton]
    constructor
    · rintro rfl
      exact .relation
    · rintro ⟨⟩
      rfl
  | join kind left right on =>
    rw [relations, List.mem_append, mem_relations_iff left, mem_relations_iff right]
    constructor
    · rintro (h | h)
      · exact .left h
      · exact .right h
    · rintro (_ | h | h)
      · exact Or.inl h
      · exact Or.inr h
  | union op left right =>
    rw [relations]
    constructor
    · intro h
      exact absurd h List.not_mem_nil
    · rintro ⟨⟩

theorem mem_onPredicates_iff {p : Expr} (source : Source) :
    p ∈ source.onPredicates ↔ source.Joins p := by
  cases source with
  | relation r =>
    rw [onPredicates]
    constructor
    · intro h
      exact absurd h List.not_mem_nil
    · rintro ⟨⟩
  | join kind left right on =>
    rw [onPredicates, List.mem_append, List.mem_append, mem_onPredicates_iff left,
      mem_onPredicates_iff right]
    constructor
    · rintro ((h | h) | h)
      · exact .left h
      · exact .right h
      · exact .on h
    · rintro (h | h | h)
      · exact Or.inr h
      · exact Or.inl (Or.inl h)
      · exact Or.inl (Or.inr h)
  | union op left right =>
    rw [onPredicates]
    constructor
    · intro h
      exact absurd h List.not_mem_nil
    · rintro ⟨⟩

end Source

theorem mem_sourcesRelations_iff {r : Relation} {sources : List Source} :
    r ∈ sourcesRelations sources ↔ ∃ source ∈ sources, source.Reaches r := by
  induction sources with
  | nil => simp [sourcesRelations]
  | cons source rest ih =>
    rw [sourcesRelations, List.mem_append, Source.mem_relations_iff, ih, List.exists_mem_cons_iff]

theorem mem_sourcesOnPredicates_iff {p : Expr} {sources : List Source} :
    p ∈ sourcesOnPredicates sources ↔ ∃ source ∈ sources, source.Joins p := by
  induction sources with
  | nil => simp [sourcesOnPredicates]
  | cons source rest ih =>
    rw [sourcesOnPredicates, List.mem_append, Source.mem_onPredicates_iff, ih,
      List.exists_mem_cons_iff]

theorem Expr.Refers.mem_references {c : Column} {e : Expr} (h : e.Refers c) :
    c ∈ e.references := by
  induction h with
  | column => exact List.mem_singleton_self c
  | operand _ ih => exact ih
  | left _ ih => exact List.mem_append_left _ ih
  | right _ ih => exact List.mem_append_right _ ih
  | subject _ ih => exact List.mem_append_left _ (List.mem_append_left _ ih)
  | low _ ih => exact List.mem_append_left _ (List.mem_append_right _ ih)
  | high _ ih => exact List.mem_append_right _ ih
  | argument he _ ih | item he _ ih =>
    rw [Expr.references, references_eq_flatMap]
    exact List.mem_flatMap.mpr ⟨_, he, ih⟩
  | labeled _ ih => exact ih

mutual

theorem Expr.refers_of_mem {c : Column} : (e : Expr) → c ∈ e.references → e.Refers c
  | .value _, h | .param _, h | .star, h | .subquery _, h => absurd h List.not_mem_nil
  | .column d, h => by
    obtain rfl := List.mem_singleton.mp h
    exact .column
  | .unary _ operand, h => .operand (Expr.refers_of_mem operand h)
  | .binary _ left right, h => by
    rcases List.mem_append.mp h with h | h
    · exact .left (Expr.refers_of_mem left h)
    · exact .right (Expr.refers_of_mem right h)
  | .between subject low high, h => by
    rcases List.mem_append.mp h with h | h
    · rcases List.mem_append.mp h with h | h
      · exact .subject (Expr.refers_of_mem subject h)
      · exact .low (Expr.refers_of_mem low h)
    · exact .high (Expr.refers_of_mem high h)
  | .call _ args, h => by
    obtain ⟨e, he, hrefers⟩ := exists_refers_of_mem args h
    exact .argument he hrefers
  | .list items, h => by
    obtain ⟨e, he, hrefers⟩ := exists_refers_of_mem items h
    exact .item he hrefers
  | .labeled e _, h => .labeled (Expr.refers_of_mem e h)

theorem exists_refers_of_mem {c : Column} : (es : List Expr) → c ∈ references es →
    ∃ e ∈ es, e.Refers c
  | [], h => absurd h List.not_mem_nil
  | e :: rest, h => by
    rcases List.mem_append.mp h with h | h
    · exact ⟨e, List.mem_cons_self, Expr.refers_of_mem e h⟩
    · obtain ⟨found, hfound, hrefers⟩ := exists_refers_of_mem rest h
      exact ⟨found, List.mem_cons_of_mem _ hfound, hrefers⟩

end

theorem mem_references_iff {c : Column} {es : List Expr} :
    c ∈ references es ↔ ∃ e ∈ es, e.Refers c := by
  constructor
  · exact exists_refers_of_mem es
  · rintro ⟨e, he, hrefers⟩
    rw [references_eq_flatMap]
    exact List.mem_flatMap.mpr ⟨e, he, hrefers.mem_references⟩

/-- The first name that stands in front of itself, with distinct names in front of it. -/
def FirstRepeat (names : List String) (name : String) : Prop :=
  ∃ before after, names = before ++ name :: after ∧ before.Nodup ∧ name ∈ before

theorem firstRepeated_eq_some_iff {seen names : List String} {name : String} :
    firstRepeated seen names = some name ↔ ∃ before after, names = before ++ name :: after ∧
      before.Nodup ∧ (∀ n ∈ before, n ∉ seen) ∧ (name ∈ before ∨ name ∈ seen) := by
  induction names generalizing seen with
  | nil => simp [firstRepeated]
  | cons head rest ih =>
    by_cases hhead : head ∈ seen
    · have hstep : firstRepeated seen (head :: rest) = some head := by
        simp [firstRepeated, hhead]
      rw [hstep]
      constructor
      · rintro ⟨⟩
        exact ⟨[], rest, rfl, List.nodup_nil, by simp, Or.inr hhead⟩
      · rintro ⟨before, after, heq, -, hnew, -⟩
        cases before with
        | nil =>
          obtain ⟨rfl, -⟩ := List.cons.inj heq
          rfl
        | cons first _ =>
          obtain ⟨rfl, -⟩ := List.cons.inj heq
          exact absurd hhead (hnew head List.mem_cons_self)
    · have hstep : firstRepeated seen (head :: rest) = firstRepeated (head :: seen) rest := by
        simp [firstRepeated, hhead]
      rw [hstep, ih]
      constructor
      · rintro ⟨before, after, rfl, hnodup, hnew, hname⟩
        refine ⟨head :: before, after, rfl, ?_, ?_, ?_⟩
        · have hfresh : head ∉ before := fun hmem => hnew head hmem List.mem_cons_self
          exact List.nodup_cons.mpr ⟨hfresh, hnodup⟩
        · rw [List.forall_mem_cons]
          exact ⟨hhead, fun n hn hmem => hnew n hn (List.mem_cons_of_mem _ hmem)⟩
        · rw [List.mem_cons] at hname ⊢
          tauto
      · rintro ⟨before, after, heq, hnodup, hnew, hname⟩
        cases before with
        | nil =>
          obtain ⟨rfl, -⟩ := List.cons.inj heq
          exact absurd (hname.resolve_left List.not_mem_nil) hhead
        | cons first before =>
          obtain ⟨rfl, rfl⟩ := List.cons.inj heq
          obtain ⟨hfresh, hnodup⟩ := List.nodup_cons.mp hnodup
          obtain ⟨-, hnew⟩ := List.forall_mem_cons.mp hnew
          refine ⟨before, after, rfl, hnodup, fun n hn hmem => ?_, ?_⟩
          · rcases List.mem_cons.mp hmem with rfl | hmem
            · exact hfresh hn
            · exact hnew n hn hmem
          · rw [List.mem_cons] at hname ⊢
            tauto

theorem firstRepeat_iff {names : List String} {name : String} :
    FirstRepeat names name ↔ firstRepeated [] names = some name := by
  rw [firstRepeated_eq_some_iff, FirstRepeat]
  simp

theorem exists_firstRepeat_iff {names : List String} :
    (∃ name, FirstRepeat names name) ↔ ¬names.Nodup := by
  have hnone := @firstRepeated_eq_none_iff [] names
  simp only [List.not_mem_nil, not_false_eq_true, implies_true, and_true] at hnone
  simp only [firstRepeat_iff]
  rw [← hnone, ← Option.isSome_iff_exists, ← Option.ne_none_iff_isSome]

/-- The first of some columns that belongs to the level and lacks a property. -/
def FirstLacking (P : Column → Prop) (cs : List Column) (c : Column) : Prop :=
  ∃ before after, cs = before ++ c :: after ∧ (c.isLocal = true ∧ ¬P c) ∧
    ∀ b ∈ before, b.isLocal = true → P b

section Lacking

variable {P : Column → Prop} {p : Column → Bool}

/-- The first distinct element that passes a test is the first of all, if equal elements pass it
alike. -/
theorem find?_eraseDups {α : Type} [BEq α] {p : α → Bool}
    (hp : ∀ a b, (a == b) = true → p a = p b) : (as : List α) →
    as.eraseDups.find? p = as.find? p
  | [] => rfl
  | a :: as => by
    rw [List.eraseDups_cons, List.find?_cons, List.find?_cons]
    cases ha : p a with
    | true => rfl
    | false =>
      -- what is left out is equal to `a` and fails the test like it
      show (as.filter fun b => !b == a).eraseDups.find? p = as.find? p
      rw [find?_eraseDups hp (as.filter fun b => !b == a), List.find?_filter]
      congr 1
      funext b
      by_cases hba : (b == a) = true
      · simp [hp b a hba, ha]
      · simp [hba]
termination_by as => as.length
decreasing_by exact Nat.lt_succ_of_le (List.length_filter_le _ _)

theorem find?_distinctColumns (hp : ∀ a b : Column, a.same b = true → p a = p b)
    (es : List Expr) : (distinctColumns es).find? p = (references es).find? p :=
  find?_eraseDups hp _

theorem find?_eq_some_iff_firstLacking
    (hp : ∀ c, p c = true ↔ c.isLocal = true ∧ ¬P c) {cs : List Column} {c : Column} :
    cs.find? p = some c ↔ FirstLacking P cs c := by
  have hpass : ∀ b, (!p b) = true ↔ (b.isLocal = true → P b) := by
    intro b
    rw [Bool.not_eq_true', ← Bool.not_eq_true, hp]
    tauto
  rw [List.find?_eq_some_iff_append, FirstLacking, hp]
  simp only [hpass]
  constructor
  · rintro ⟨hc, before, after, heq, hbefore⟩
    exact ⟨before, after, heq, hc, hbefore⟩
  · rintro ⟨before, after, heq, hc, hbefore⟩
    exact ⟨hc, before, after, heq, hbefore⟩

theorem exists_firstLacking_iff {cs : List Column} :
    (∃ c, FirstLacking P cs c) ↔ ¬∀ c ∈ cs, c.isLocal = true → P c := by
  classical
  have hp : ∀ c : Column, decide (c.isLocal = true ∧ ¬P c) = true ↔ c.isLocal = true ∧ ¬P c :=
    fun c => decide_eq_true_iff
  simp only [← find?_eq_some_iff_firstLacking hp]
  rw [← Option.isSome_iff_exists, List.find?_isSome]
  simp only [hp]
  push Not
  rfl

end Lacking

namespace Query

/-- The operands of the first union among the sources. -/
def FirstUnion (q : Query) (left right : Query) : Prop :=
  ∃ before op after, q.sources = before ++ .union op left right :: after ∧
    ∀ source ∈ before, source.isUnion = false

/-- FROM answers for a column: by a relation of the owner's name, or, if it holds a union, by the
same field on a side of the first one. -/
inductive Sees (q : Query) (c : Column) : Prop where
  | owner (hplain : ∀ source ∈ q.sources, source.isUnion = false) {source : Source}
    (hsource : source ∈ q.sources) {r : Relation} (hr : source.Reaches r)
    (hname : r.name = c.owner.name)
  | output {left right : Query} (hunion : q.FirstUnion left right) {o : Column}
    (ho : .column o ∈ left.projection ∨ .column o ∈ right.projection)
    (hfield : o.sameField c = true)

/-- A relation that FROM reaches exposes a column of that name. -/
def Shows (q : Query) (c : Column) : Prop :=
  ∃ source ∈ q.sources, ∃ r, source.Reaches r ∧ ∃ shown ∈ r.columns, shown.name = c.name

variable {q : Query}

theorem isUnionFed_eq_false_iff :
    q.isUnionFed = false ↔ ∀ source ∈ q.sources, source.isUnion = false := by
  rw [isUnionFed, List.any_eq_false]
  simp only [Bool.not_eq_true]

theorem unionOutputs_eq_some_iff {outputs : List Column} :
    q.unionOutputs = some outputs ↔ ∃ left right, q.FirstUnion left right ∧
      (left.projection ++ right.projection).filterMap Expr.column? = outputs := by
  rw [unionOutputs, List.findSome?_eq_some_iff]
  constructor
  · rintro ⟨before, source, after, heq, hsource, hbefore⟩
    cases source with
    | union op left right =>
      refine ⟨left, right, ⟨before, op, after, heq, fun s hs => ?_⟩, Option.some.inj hsource⟩
      have hs := hbefore s hs
      cases s with
      | union => cases hs
      | _ => rfl
    | _ => cases hsource
  · rintro ⟨left, right, ⟨before, op, after, heq, hbefore⟩, rfl⟩
    refine ⟨before, .union op left right, after, heq, rfl, fun s hs => ?_⟩
    have hs := hbefore s hs
    cases s with
    | union => cases hs
    | _ => rfl

theorem mem_columns_iff {items : List Expr} {o : Column} :
    o ∈ items.filterMap Expr.column? ↔ .column o ∈ items := by
  rw [List.mem_filterMap]
  constructor
  · rintro ⟨e, he, hcolumn⟩
    cases e with
    | column d =>
      cases hcolumn
      exact he
    | _ => cases hcolumn
  · intro h
    exact ⟨_, h, rfl⟩

theorem firstUnion_unique {left right left' right' : Query} (h : q.FirstUnion left right)
    (h' : q.FirstUnion left' right') :
    (left.projection ++ right.projection).filterMap Expr.column? =
      (left'.projection ++ right'.projection).filterMap Expr.column? := by
  have houtputs := unionOutputs_eq_some_iff.mpr ⟨left, right, h, rfl⟩
  have houtputs' := unionOutputs_eq_some_iff.mpr ⟨left', right', h', rfl⟩
  exact Option.some.inj (houtputs.symm.trans houtputs')

theorem FirstUnion.isUnionFed {left right : Query} (h : q.FirstUnion left right) :
    q.isUnionFed = true := by
  obtain ⟨before, op, after, heq, -⟩ := h
  rw [Query.isUnionFed, heq]
  simp [Source.isUnion]

theorem reaches_iff_sees {c : Column} : q.reaches c = true ↔ q.Sees c := by
  cases houtputs : q.unionOutputs with
  | some outputs =>
    obtain ⟨left, right, hunion, rfl⟩ := unionOutputs_eq_some_iff.mp houtputs
    simp only [reaches, houtputs, List.any_eq_true, List.filterMap_append, List.mem_append,
      mem_columns_iff]
    constructor
    · rintro ⟨o, ho, hfield⟩
      exact .output hunion ho hfield
    · intro h
      cases h with
      | owner hplain _ _ _ =>
        have hfed := isUnionFed_eq_false_iff.mpr hplain
        rw [hunion.isUnionFed] at hfed
        cases hfed
      | @output left' right' hunion' o ho hfield =>
        have hsame := firstUnion_unique hunion' hunion
        have ho : o ∈ (left'.projection ++ right'.projection).filterMap Expr.column? := by
          rw [List.filterMap_append, List.mem_append, mem_columns_iff, mem_columns_iff]
          exact ho
        rw [hsame, List.filterMap_append, List.mem_append, mem_columns_iff, mem_columns_iff] at ho
        exact ⟨o, ho, hfield⟩
  | none =>
    have hfed : q.isUnionFed = false := by
      rw [isUnionFed_eq_false_iff]
      intro source hsource
      have hnone := (List.findSome?_eq_none_iff.mp houtputs) source hsource
      cases source with
      | union => cases hnone
      | _ => rfl
    have hplain := isUnionFed_eq_false_iff.mp hfed
    rw [reaches_iff hfed, mem_reachableNames_iff]
    constructor
    · rintro ⟨r, hr, hname⟩
      obtain ⟨source, hsource, hreaches⟩ := mem_sourcesRelations_iff.mp hr
      exact .owner hplain hsource hreaches hname
    · intro h
      cases h with
      | owner _ hsource hr hname =>
        exact ⟨_, mem_sourcesRelations_iff.mpr ⟨_, hsource, hr⟩, hname⟩
      | output hunion _ _ =>
        rw [hunion.isUnionFed] at hfed
        cases hfed

theorem shows_iff {c : Column} : c.name ∈ sourcesColumnNames q.sources ↔ q.Shows c := by
  rw [mem_sourcesColumnNames_iff]
  constructor
  · rintro ⟨r, hr, hexposed⟩
    obtain ⟨source, hsource, hreaches⟩ := mem_sourcesRelations_iff.mp hr
    exact ⟨source, hsource, r, hreaches, List.mem_map.mp hexposed⟩
  · rintro ⟨source, hsource, r, hreaches, hshown⟩
    exact ⟨r, mem_sourcesRelations_iff.mpr ⟨source, hsource, hreaches⟩, List.mem_map.mpr hshown⟩

/-- The first reference that FROM does not answer for, in SELECT before WHERE. -/
inductive FirstUnseen (q : Query) (c : Column) : Place → Prop where
  | select (h : FirstLacking q.Sees (references q.selectList) c) : FirstUnseen q c .select
  | filter (hselect : ∀ b ∈ references q.selectList, b.isLocal = true → q.Sees b)
    (h : FirstLacking q.Sees (references q.whereList) c) : FirstUnseen q c .filter

/-- Every column of SELECT and WHERE that belongs to the level is one that FROM answers for. -/
def OwnersSeen (q : Query) : Prop :=
  ∀ e ∈ q.selectList ++ q.whereList, ∀ c, e.Refers c → c.isLocal = true → q.Sees c

/-- Without a union in FROM, every column of SELECT and ON that belongs to the level has a name
that FROM exposes. -/
def ColumnsShown (q : Query) : Prop :=
  (∀ source ∈ q.sources, source.isUnion = false) →
    ∀ e, (e ∈ q.selectList ∨ ∃ source ∈ q.sources, source.Joins e) →
      ∀ c, e.Refers c → c.isLocal = true → q.Shows c

theorem ownersSeen_iff : q.OwnersSeen ↔
    (∀ c ∈ references q.selectList, c.isLocal = true → q.Sees c) ∧
      ∀ c ∈ references q.whereList, c.isLocal = true → q.Sees c := by
  rw [← List.forall_mem_append, ← references_append]
  simp only [mem_references_iff]
  constructor
  · rintro h c ⟨e, he, hrefers⟩
    exact h e he c hrefers
  · intro h e he c hrefers
    exact h c ⟨e, he, hrefers⟩

theorem columnsShown_iff : q.ColumnsShown ↔ (q.isUnionFed = false →
    ∀ c ∈ references (q.selectList ++ sourcesOnPredicates q.sources), c.isLocal = true →
      q.Shows c) := by
  rw [ColumnsShown, ← isUnionFed_eq_false_iff]
  refine imp_congr_right fun _ => ?_
  simp only [mem_references_iff, List.mem_append, mem_sourcesOnPredicates_iff]
  constructor
  · rintro h c ⟨e, he, hrefers⟩
    exact h e he c hrefers
  · intro h e he c hrefers
    exact h c ⟨e, he, hrefers⟩

theorem exists_firstUnseen_iff : (∃ c place, q.FirstUnseen c place) ↔ ¬q.OwnersSeen := by
  rw [ownersSeen_iff]
  constructor
  · rintro ⟨c, place, h | ⟨hselect, h⟩⟩ ⟨hall, hfilter⟩
    · exact exists_firstLacking_iff.mp ⟨c, h⟩ hall
    · exact exists_firstLacking_iff.mp ⟨c, h⟩ hfilter
  · intro h
    by_cases hselect : ∀ c ∈ references q.selectList, c.isLocal = true → q.Sees c
    · obtain ⟨c, hc⟩ := exists_firstLacking_iff.mpr fun hfilter => h ⟨hselect, hfilter⟩
      exact ⟨c, .filter, .filter hselect hc⟩
    · obtain ⟨c, hc⟩ := exists_firstLacking_iff.mpr hselect
      exact ⟨c, .select, .select hc⟩

theorem exists_firstHidden (h : ¬q.ColumnsShown) : q.isUnionFed = false ∧ ∃ c,
    FirstLacking q.Shows (references (q.selectList ++ sourcesOnPredicates q.sources)) c := by
  rw [columnsShown_iff, Classical.not_imp] at h
  obtain ⟨hfed, hshown⟩ := h
  exact ⟨hfed, exists_firstLacking_iff.mpr hshown⟩

theorem checkOwners_of_firstLacking {place : Place} {exprs : List Expr} {c : Column}
    (h : FirstLacking q.Sees (references exprs) c) :
    q.checkOwners place exprs = .error (.missingName c.owner.name place) := by
  have hfound : (references exprs).find? (fun c => c.isLocal && !q.reaches c) = some c := by
    refine (find?_eq_some_iff_firstLacking fun c => ?_).mpr h
    rw [← reaches_iff_sees, Bool.and_eq_true, Bool.not_eq_true', Bool.not_eq_true]
  have hsame : ∀ a b : Column, a.same b = true →
      (a.isLocal && !q.reaches a) = (b.isLocal && !q.reaches b) := by
    intro a b hab
    have hreaches : q.reaches a = q.reaches b :=
      Bool.eq_iff_iff.mpr ⟨reaches_of_same ((Column.same_comm b a).trans hab), reaches_of_same hab⟩
    rw [Column.isLocal_eq_of_same hab, hreaches]
  rw [checkOwners, find?_distinctColumns hsame, hfound]

theorem checkOwners_of_sees {place : Place} {exprs : List Expr}
    (h : ∀ c ∈ references exprs, c.isLocal = true → q.Sees c) :
    q.checkOwners place exprs = .ok () := by
  rw [checkOwners_ok_iff]
  intro c hc hlocal
  exact reaches_iff_sees.mpr (h c hc hlocal)

theorem validate_of_firstRepeat {name : String} (h : FirstRepeat q.reachableNames name) :
    q.validate = .error (.conflictingName name .repeated) := by
  rw [validate, checkTables, firstRepeat_iff.mp h]
  rfl

theorem validate_of_firstUnseen (hapart : q.reachableNames.Nodup) {c : Column} {place : Place}
    (h : q.FirstUnseen c place) : q.validate = .error (.missingName c.owner.name place) := by
  have hnone : firstRepeated [] q.reachableNames = none :=
    firstRepeated_eq_none_iff.mpr ⟨hapart, fun _ _ => List.not_mem_nil⟩
  rw [validate, checkTables, hnone]
  cases h with
  | select h =>
    rw [checkOwners_of_firstLacking h]
    rfl
  | filter hselect h =>
    rw [checkOwners_of_sees hselect, checkOwners_of_firstLacking h]
    rfl

theorem find?_exposureReferences {p : Column → Bool}
    (hp : ∀ a b : Column, a.same b = true → p a = p b) :
    q.exposureReferences.find? p =
      (references (q.selectList ++ sourcesOnPredicates q.sources)).find? p := by
  rw [exposureReferences, references_append, List.find?_append, List.find?_append,
    find?_distinctColumns hp, references_eq_flatMap (sourcesOnPredicates q.sources)]
  congr 1
  simp only [List.find?_flatMap, find?_distinctColumns hp, references, List.append_nil]

theorem checkColumns_of_firstLacking (hfed : q.isUnionFed = false) {c : Column}
    (h : FirstLacking q.Shows (references (q.selectList ++ sourcesOnPredicates q.sources)) c) :
    q.checkColumns = .error (.conflictingName c.name (.hidden c.owner.name
      (sourcesColumnNames q.sources) (nearestName? c.name (sourcesColumnNames q.sources)))) := by
  have hfound : (references (q.selectList ++ sourcesOnPredicates q.sources)).find?
      (fun c => c.isLocal && !(sourcesColumnNames q.sources).contains c.name) = some c := by
    refine (find?_eq_some_iff_firstLacking fun c => ?_).mpr h
    rw [← shows_iff, Bool.and_eq_true, Bool.not_eq_true', List.contains_eq_mem,
      decide_eq_false_iff_not]
  have hsame : ∀ a b : Column, a.same b = true →
      (a.isLocal && !(sourcesColumnNames q.sources).contains a.name) =
        (b.isLocal && !(sourcesColumnNames q.sources).contains b.name) := by
    intro a b hab
    rw [Column.isLocal_eq_of_same hab, Column.name_eq_of_same hab]
  have hsearch := (find?_exposureReferences hsame).trans hfound
  simp only [checkColumns, hfed, Bool.false_eq_true, if_false, hsearch]

theorem checkTables_of_seen (hapart : q.reachableNames.Nodup) (hseen : q.OwnersSeen) :
    q.checkTables = .ok () := by
  obtain ⟨hselect, hfilter⟩ := ownersSeen_iff.mp hseen
  rw [checkTables_ok_iff, references_append, List.forall_mem_append]
  refine ⟨hapart, fun c hc hlocal => ?_, fun c hc hlocal => ?_⟩
  · exact reaches_iff_sees.mpr (hselect c hc hlocal)
  · exact reaches_iff_sees.mpr (hfilter c hc hlocal)

theorem checkColumns_of_shown (hshown : q.ColumnsShown) : q.checkColumns = .ok () := by
  rw [checkColumns_ok_iff]
  intro hfed c hc hlocal
  exact shows_iff.mpr (columnsShown_iff.mp hshown hfed c hc hlocal)

/-- The checks of a level pass exactly if the names that FROM reaches are distinct, FROM answers for
the columns of SELECT and WHERE, and it exposes those of SELECT and ON. The first of the three that
fails gives the error, which names the first offender in the order of the text. -/
theorem validate_verdict (q : Query) :
    (q.validate = .ok () ↔ q.reachableNames.Nodup ∧ q.OwnersSeen ∧ q.ColumnsShown) ∧
    (¬q.reachableNames.Nodup ↔ ∃ name, FirstRepeat q.reachableNames name ∧
      q.validate = .error (.conflictingName name .repeated)) ∧
    (q.reachableNames.Nodup ∧ ¬q.OwnersSeen ↔ ∃ c place, q.FirstUnseen c place ∧
      q.validate = .error (.missingName c.owner.name place)) ∧
    (q.reachableNames.Nodup ∧ q.OwnersSeen ∧ ¬q.ColumnsShown ↔ ∃ c,
      FirstLacking q.Shows (references (q.selectList ++ sourcesOnPredicates q.sources)) c ∧
      q.validate = .error (.conflictingName c.name (.hidden c.owner.name
        (sourcesColumnNames q.sources) (nearestName? c.name (sourcesColumnNames q.sources))))) := by
  by_cases hapart : q.reachableNames.Nodup
  · by_cases hseen : q.OwnersSeen
    · by_cases hshown : q.ColumnsShown
      · have hok : q.validate = .ok () := by
          rw [validate, checkTables_of_seen hapart hseen]
          exact checkColumns_of_shown hshown
        rw [hok]
        refine ⟨iff_of_true rfl ⟨hapart, hseen, hshown⟩, ?_, ?_, ?_⟩
        · simp [hapart]
        · simp [hseen]
        · simp [hshown]
      · obtain ⟨hfed, c, hc⟩ := exists_firstHidden hshown
        have herror : q.validate = .error (.conflictingName c.name (.hidden c.owner.name
            (sourcesColumnNames q.sources)
            (nearestName? c.name (sourcesColumnNames q.sources)))) := by
          rw [validate, checkTables_of_seen hapart hseen]
          exact checkColumns_of_firstLacking hfed hc
        rw [herror]
        refine ⟨?_, ?_, ?_, iff_of_true ⟨hapart, hseen, hshown⟩ ⟨c, hc, rfl⟩⟩
        · simp [hshown]
        · simp [hapart]
        · simp [hseen]
    · obtain ⟨c, place, hc⟩ := exists_firstUnseen_iff.mpr hseen
      have herror := validate_of_firstUnseen hapart hc
      rw [herror]
      refine ⟨?_, ?_, iff_of_true ⟨hapart, hseen⟩ ⟨c, place, hc, rfl⟩, ?_⟩
      · simp [hseen]
      · simp [hapart]
      · simp [hseen]
  · obtain ⟨name, hname⟩ := exists_firstRepeat_iff.mpr hapart
    rw [validate_of_firstRepeat hname]
    refine ⟨?_, iff_of_true hapart ⟨name, hname, rfl⟩, ?_, ?_⟩
    · simp [hapart]
    · simp [hapart]
    · simp [hapart]

end Query

end QueryTree
