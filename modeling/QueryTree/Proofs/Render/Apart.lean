import QueryTree.Proofs.Render.Fragments

/-!
No two names, constants or columns of a query are written next to each other: between them stands a
text of SQL itself. A name cannot do for it, since names may be empty. What stands behind a name
starts with a sign, so no letter or digit can be taken for a part of it.
-/

namespace QueryTree.Render

/-- Each constant is parted from the one before it. The flag says whether a constant has been
written that nothing parts from what follows. -/
def Apart (pending : Bool) : List Fragment → Prop
  | [] => True
  | .constant _ :: rest => pending = false ∧ Apart true rest
  | .word _ :: rest => Apart false rest
  | .separator :: rest => Apart false rest
  | _ :: rest => Apart pending rest

/-- Whether a text of SQL starts with a sign. A keyword that something follows does not. -/
def Word.isSign : Word → Bool
  | .prefixOp _ | .clause _ => false
  | _ => true

/-- Everything that the tree gives to the text is parted from what it gave before. The flag says
whether something has been written that no sign parts from what follows. -/
def Parted (pending : Bool) : List Fragment → Prop
  | [] => True
  | .word w :: rest => (pending = true → w.isSign = true) ∧ Parted false rest
  | .separator :: rest => Parted false rest
  | .check _ :: rest => Parted pending rest
  | .number _ _ :: rest => Parted pending rest
  | .leave :: rest => Parted pending rest
  | _ :: rest => pending = false ∧ Parted true rest

theorem Parted.apart {fs : List Fragment} : {pending strict : Bool} →
    (pending = true → strict = true) → Parted strict fs → Apart pending fs := by
  induction fs with
  | nil => exact fun _ _ => trivial
  | cons f fs ih =>
    intro pending strict hpending h
    have hfree : strict = false → pending = false := by
      rintro rfl
      exact Bool.eq_false_iff.mpr fun hp => Bool.false_ne_true (hpending hp)
    cases f with
    | constant v => exact ⟨hfree h.1, ih (fun h => h) h.2⟩
    | word w => exact ih (fun h => h) h.2
    | separator => exact ih (fun h => h) h
    | check q => exact ih hpending h
    | number identity id => exact ih hpending h
    | leave => exact ih hpending h
    | _ => exact ih (fun _ => rfl) h.2

/-- A text of SQL itself, which parts what stands around it. -/
inductive Parting : Fragment → Prop
  | word {w : Word} (hw : w.isSign = true) : Parting (.word w)
  | separator : Parting .separator

theorem parted_cons_parting {f : Fragment} (hf : Parting f) {pending : Bool}
    {fs : List Fragment} (h : Parted false fs) : Parted pending (f :: fs) := by
  cases hf with
  | word hw => exact ⟨fun _ => hw, h⟩
  | separator => exact h

theorem parted_word {w : Word} {fs : List Fragment} (h : Parted false fs) :
    Parted false (.word w :: fs) :=
  And.intro (fun hpending => absurd hpending Bool.false_ne_true) h

theorem parted_nil {pending : Bool} : Parted pending [] :=
  trivial

theorem parted_name (n : String) : Parted false [.name n] :=
  ⟨rfl, trivial⟩

theorem Parted.append_parting {f : Fragment} (hf : Parting f) {pending : Bool}
    {fs gs : List Fragment} (hfs : Parted pending fs) (hgs : Parted false gs) :
    Parted pending (fs ++ f :: gs) := by
  induction fs generalizing pending with
  | nil => exact parted_cons_parting hf hgs
  | cons g fs ih =>
    cases g with
    | separator | check q | number identity id | leave => exact ih hfs
    | _ => exact ⟨hfs.1, ih hfs.2⟩

theorem Parted.append_leave {pending : Bool} {fs : List Fragment} (hfs : Parted pending fs) :
    Parted pending (fs ++ [.leave]) := by
  induction fs generalizing pending with
  | nil => trivial
  | cons g fs ih =>
    cases g with
    | separator | check q | number identity id | leave => exact ih hfs
    | _ => exact ⟨hfs.1, ih hfs.2⟩

/-- Fragments with a text of SQL between the two parts. -/
theorem Parted.word {w : Word} {fs gs : List Fragment} (hfs : Parted false fs)
    (hgs : Parted false gs) (hw : w.isSign = true) : Parted false (fs ++ .word w :: gs) :=
  hfs.append_parting (.word hw) hgs

theorem Parted.enclosed {fs : List Fragment} (h : Parted false fs) : Parted false (enclosed fs) :=
  parted_word (h.word parted_nil rfl)

theorem parted_joined {f : Fragment} (hf : Parting f) {ps : List (List Fragment)}
    (h : ∀ p ∈ ps, Parted false p) : Parted false (joined f ps) := by
  induction ps with
  | nil => trivial
  | cons p ps ih =>
    rw [List.forall_mem_cons] at h
    cases ps with
    | nil => exact h.1
    | cons q qs => exact h.1.append_parting hf (ih h.2)

theorem parted_listed {ps : List (List Fragment)} (h : ∀ p ∈ ps, Parted false p) :
    Parted false (listed ps) :=
  parted_joined (.word rfl) h

/-- ON parts its predicates from the sources before it. -/
theorem Parted.append_on {fs : List Fragment} (hfs : Parted false fs) {ps : List (List Fragment)}
    (h : ∀ p ∈ ps, Parted false p) : Parted false (fs ++ onFragments ps) := by
  cases ps with
  | nil => simpa [onFragments] using hfs
  | cons first ps =>
    rw [List.forall_mem_cons] at h
    refine hfs.word ?_ rfl
    obtain ⟨hfirst, hps⟩ := h
    induction ps generalizing first with
    | nil => exact hfirst
    | cons p ps ih =>
      rw [List.forall_mem_cons] at hps
      exact ih _ (hfirst.word hps.1 rfl).enclosed hps.2

theorem parted_clause {kind : ClauseKind} {items : List (List Fragment)}
    (h : ∀ p ∈ items, Parted false p) : ∀ p ∈ clauseFragments kind items, Parted false p := by
  unfold clauseFragments
  split
  · simp
  · intro p hp
    rw [List.mem_singleton.mp hp]
    exact parted_word (parted_listed h)

theorem parted_select {items : List (List Fragment)} (h : ∀ p ∈ items, Parted false p) :
    ∀ p ∈ selectFragments items, Parted false p := by
  apply parted_clause
  split
  · intro p hp
    rw [List.mem_singleton.mp hp]
    trivial
  · exact h

theorem parted_level {level : LevelParts} (hselect : ∀ p ∈ level.select, Parted false p)
    (hsources : ∀ p ∈ level.sources, Parted false p) (hfilter : ∀ p ∈ level.filter, Parted false p)
    (hgroup : ∀ p ∈ level.group, Parted false p) (hhaving : ∀ p ∈ level.having, Parted false p)
    (horder : ∀ p ∈ level.order, Parted false p) (hlimit : ∀ p ∈ level.limit, Parted false p) :
    Parted false level.fragments := by
  apply parted_joined .separator
  simp only [List.forall_mem_append]
  exact ⟨⟨⟨⟨⟨⟨parted_select hselect, parted_clause hsources⟩, parted_clause hfilter⟩,
    parted_clause hgroup⟩, parted_clause hhaving⟩, parted_clause horder⟩, parted_clause hlimit⟩

theorem Parted.append_label {fs : List Fragment} (h : Parted false fs) (scopes : Scopes)
    (e : Expr) :
    Parted false (fs ++ labelFragments scopes e) := by
  cases e with
  | column c =>
    cases hlabel : c.label with
    | none => simpa [labelFragments, hlabel] using h
    | some label =>
      cases hbare : scopes.isBare with
      | true => simpa [labelFragments, hlabel, hbare] using h
      | false => simpa [labelFragments, hlabel, hbare] using h.word (parted_name label) rfl
  | labeled e label => exact h.word (parted_name label) rfl
  | _ => simpa [labelFragments] using h

theorem parted_items (scopes : Scopes) (es : List Expr) {ps : List (List Fragment)}
    (h : ∀ p ∈ ps, Parted false p) : ∀ p ∈ itemFragments scopes es ps, Parted false p := by
  induction es generalizing ps with
  | nil => simp [itemFragments]
  | cons e es ih =>
    cases ps with
    | nil => simp [itemFragments]
    | cons p ps =>
      rw [List.forall_mem_cons] at h
      exact List.forall_mem_cons.mpr ⟨h.1.append_label scopes e, ih h.2⟩

mutual

theorem parted_expr (scopes : Scopes) : (e : Expr) → Parted false (exprFragments scopes e)
  | .value v => ⟨rfl, trivial⟩
  | .param key => ⟨rfl, trivial⟩
  | .star => parted_word parted_nil
  | .column ⟨owner, field, label, correlated⟩ => parted_column scopes _ owner
  | .unary op operand => by
    have h := parted_expr scopes operand
    rw [exprFragments]
    split
    · exact h.word parted_nil rfl
    · exact Parted.enclosed (parted_word h)
  | .binary op left right =>
    ((parted_expr scopes left).word (parted_expr scopes right) rfl).enclosed
  | .between subject low high =>
    ((parted_expr scopes subject).word
      ((parted_expr scopes low).word (parted_expr scopes high) rfl) rfl).enclosed
  | .call name args =>
    ⟨rfl, fun _ => rfl, (parted_listed (parted_exprs scopes args)).word parted_nil rfl⟩
  | .list items => (parted_listed (parted_exprs scopes items)).enclosed
  | .labeled e _ => parted_expr scopes e
  | .subquery ⟨name, q⟩ => (parted_query scopes (some name) .own none (by simp) q).enclosed

theorem parted_exprs (scopes : Scopes) : (es : List Expr) →
    ∀ p ∈ exprsFragments scopes es, Parted false p
  | [] => by simp [exprsFragments]
  | e :: rest => by
    rw [exprsFragments]
    exact List.forall_mem_cons.mpr ⟨parted_expr scopes e, parted_exprs scopes rest⟩

theorem parted_column (scopes : Scopes) (c : Column) : (owner : Relation) →
    Parted false (columnFragments scopes c owner)
  | .projected (.unfolded ⟨name, q⟩) source => by
    have hsource := fun scopes => parted_column scopes (Column.plain source c.field) source
    exact (parted_query scopes (some name) .made _ (by simpa using hsource) q).enclosed
  | .projected (.derived d) source => ⟨rfl, trivial⟩
  | .table t => ⟨rfl, trivial⟩
  | .alias_ a => ⟨rfl, trivial⟩
  | .derived d => ⟨rfl, trivial⟩

theorem parted_query (scopes : Scopes) (alias_ : Option String) (identity : Identity)
    (only : Option (Narrowing Fragment)) (h : ∀ c ∈ only, ∀ scopes, Parted false (c.2 scopes)) :
    (q : Query) → Parted false (queryFragments scopes alias_ identity only q)
  | ⟨select, sub, sources, filter, group, having, order, limit, id⟩ => by
    have hselect := fun scopes => parted_items scopes select (parted_exprs scopes select)
    have hitems : ∀ inside, ∀ p ∈ narrowedItems only inside
        (itemFragments inside select (exprsFragments inside select)), Parted false p := by
      intro inside
      cases only with
      | none => exact hselect inside
      | some c => simpa [narrowedItems] using h c rfl inside
    have hsources := fun scopes => parted_sources scopes identity sources
    rw [queryFragments]
    simp only [Parted]
    split
    · exact parted_bareUnion _ identity sources
    · exact (parted_level (hitems _) (hsources _) (parted_exprs _ filter) (parted_exprs _ group)
        (parted_exprs _ having) (parted_exprs _ order) (parted_exprs _ limit)).append_leave

theorem parted_bareUnion (scopes : Scopes) (identity : Identity) : (sources : List Source) →
    Parted false (bareUnionFragments scopes identity sources)
  | .union op left right :: _ =>
    (parted_query scopes none identity.ofOperands none (by simp) left).word
      (parted_query scopes none identity.ofOperands none (by simp) right) rfl
  | .relation _ :: _ => trivial
  | .join .. :: _ => trivial
  | [] => trivial

theorem parted_sources (scopes : Scopes) (identity : Identity) : (sources : List Source) →
    ∀ p ∈ sourcesFragments scopes identity sources, Parted false p
  | [] => by simp [sourcesFragments]
  | source :: rest => by
    rw [sourcesFragments]
    exact List.forall_mem_cons.mpr
      ⟨parted_source scopes identity source, parted_sources scopes identity rest⟩

theorem parted_source (scopes : Scopes) (identity : Identity) : (source : Source) →
    Parted false (sourceFragments scopes identity source)
  | .relation (.table t) => parted_name t.name
  | .relation (.alias_ a) => (parted_name a.table.name).word (parted_name a.name) rfl
  | .relation (.projected scope _) => parted_name scope.name
  | .relation (.derived ⟨name, q, _⟩) =>
    (parted_query scopes (some name) .own none (by simp) q).enclosed.word (parted_name name) rfl
  | .join kind left right on => by
    have hleft := parted_source scopes identity left
    have hright := parted_source scopes identity right
    have hjoined : Parted false (if right.isJoin
        then enclosed (sourceFragments scopes identity right)
        else sourceFragments scopes identity right) := by
      split
      · exact hright.enclosed
      · exact hright
    exact hleft.word (hjoined.append_on (parted_exprs scopes on)) rfl
  | .union op left right => by
    have hleft := parted_query scopes none identity.ofOperands none (by simp) left
    have hright := parted_query scopes none identity.ofOperands none (by simp) right
    have hname : Parted false [.generated] := ⟨rfl, trivial⟩
    exact (hleft.word hright rfl).enclosed.word hname rfl

end

end QueryTree.Render

namespace QueryTree

theorem Query.parted_fragments (q : Query) : Render.Parted false q.fragments :=
  Render.parted_query [] none .own none (by simp) q

theorem Query.apart_fragments (q : Query) : Render.Apart false q.fragments :=
  q.parted_fragments.apart fun h => h

end QueryTree
