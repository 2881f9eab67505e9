import QueryTree.Proofs.Naming.Registry
import QueryTree.Proofs.Render.Runs
import QueryTree.Proofs.Tree.Queries

/-!
What writing does to the registry, whether it succeeds or fails. A level that is written may ask for
a name for its number. So only query objects of the tree get names, and the ones that are made for
the occasion, whose numbers are new.
-/

namespace QueryTree.Render

open Registry (Grown)

section
variable {α β : Type} {asked asked' : Nat → Prop}

/-- The writer asks for names for the given numbers and new ones only. -/
def Asks (asked : Nat → Prop) (w : Writer α) : Prop :=
  ∀ state : State, (∀ id, asked id → id < state.registry.issued) →
    Grown asked state.registry (w state).2.registry

namespace Asks

theorem pure (a : α) : Asks asked (pure a) :=
  fun state _ => .refl state.registry

theorem lift (x : Except QueryError α) : Asks asked (liftM x) :=
  fun state _ => by cases x <;> exact .refl state.registry

theorem bind {x : Writer α} {f : α → Writer β} (hx : Asks asked x) (hf : ∀ a, Asks asked (f a)) :
    Asks asked (x >>= f) := by
  intro state hissued
  have hfirst := hx state hissued
  rw [bind_run]
  cases hrun : x state with
  | mk result between =>
    rw [hrun] at hfirst
    cases result with
    | error e => exact hfirst
    | ok a =>
      have hlater : ∀ id, asked id → id < between.registry.issued :=
        fun id hid => Nat.lt_of_lt_of_le (hissued id hid) hfirst.issued
      exact hfirst.trans (hf a between hlater)

theorem map (f : α → β) {x : Writer α} (h : Asks asked x) : Asks asked (f <$> x) := by
  rw [map_eq_pure_bind]
  exact h.bind fun a => .pure (f a)

theorem placeholder (s : Setting) (key : String) : Asks asked (s.placeholder key) :=
  (lift (s.scopes.lookUp s.bindings key)).bind fun _ => fun state _ => .refl state.registry

theorem nameOf {id : Nat} (h : asked id) : Asks asked (naming (Registry.nameOf id)) := by
  intro state hissued
  refine (Registry.grown_nameOf (hissued id h)).mono ?_
  rintro _ rfl
  exact .inl h

theorem mono {w : Writer α} (h : Asks asked w) (hasked : ∀ id, asked id → asked' id) :
    Asks asked' w :=
  fun state hissued =>
    (h state fun id hid => hissued id (hasked id hid)).mono fun id hid => .inl (hasked id hid)

end Asks

/-- A level goes by its own number or by a new one. -/
theorem number_cases (identity : Identity) (id : Nat) (registry : Registry) :
    identity.number id registry = (id, registry) ∨
      identity.number id registry = Registry.fresh registry := by
  cases identity with
  | own => exact .inl rfl
  | made => exact .inr rfl
  | copied =>
    rcases Registry.copyOf_cases id registry with ⟨-, hcopy⟩ | ⟨-, hcopy⟩
    · exact .inl hcopy
    · exact .inr hcopy

theorem named_number (identity : Identity) (id : Nat) (registry : Registry) :
    (identity.number id registry).2.named = registry.named := by
  rcases number_cases identity id registry with hnumber | hnumber
  · rw [hnumber]
  · rw [hnumber]
    rfl

theorem issued_le_number (identity : Identity) (id : Nat) (registry : Registry) :
    registry.issued ≤ (identity.number id registry).2.issued := by
  rcases number_cases identity id registry with hnumber | hnumber
  · exact Nat.le_of_eq (by rw [hnumber])
  · rw [hnumber]
    exact Nat.le_succ registry.issued

/-- Inside a level names may also be asked for under the number that the level goes by. -/
theorem Asks.number {identity : Identity} {id : Nat} {f : Nat → Writer β} (hid : asked id)
    (hf : ∀ n, Asks (fun i => asked i ∨ i = n) (f n)) :
    Asks asked (naming (identity.number id) >>= f) := by
  intro state hissued
  have hrun : (naming (identity.number id) >>= f) state =
      f (identity.number id state.registry).1
        ⟨state.params, (identity.number id state.registry).2⟩ := rfl
  rw [hrun]
  rcases number_cases identity id state.registry with hnumber | hnumber
  · rw [hnumber]
    have hasked : ∀ i, asked i ∨ i = id → asked i := by
      rintro i (hi | rfl)
      · exact hi
      · exact hid
    exact (hf id _ fun i hi => hissued i (hasked i hi)).mono fun i hi => .inl (hasked i hi)
  · rw [hnumber]
    have hlater : ∀ i, asked i ∨ i = state.registry.issued → i < state.registry.issued + 1 := by
      rintro i (hi | rfl)
      · exact Nat.lt_succ_of_lt (hissued i hi)
      · exact Nat.lt_succ_self _
    have hinside :=
      hf state.registry.issued ⟨state.params, (Registry.fresh state.registry).2⟩ hlater
    refine ((Registry.grown_fresh _ state.registry).trans hinside).mono ?_
    rintro i (hi | rfl)
    · exact .inl hi
    · exact .inr (Nat.le_refl _)

end

theorem asks_onlyColumn {asked : Nat → Prop} {only : Option OnlyColumn} {s : Setting}
    (h : ∀ c ∈ only, ∀ s, Asks asked (c.text s)) {given : Writer (List String)}
    (hgiven : Asks asked given) : Asks asked (OnlyColumn.items only s given) := by
  cases only with
  | none => exact hgiven
  | some c => exact (h c rfl s).map _

-- By induction on the tree. The numbers that may be asked for become more on the way inward, so the
-- induction is for all of them.
mutual

theorem asks_expr : (e : Expr) → ∀ {asked : Nat → Prop}, (∀ x ∈ e.queries, asked x.id) →
    ∀ s, Asks asked (expr s e)
  | .value v, _, _, _ => .pure v.literal
  | .param key, _, _, s => .placeholder s key
  | .star, _, _, _ => .pure "*"
  | .column ⟨owner, _, _, _⟩, _, h, s => asks_column owner h s _
  | .unary _ operand, _, h, s => (asks_expr operand h s).bind fun _ => .pure _
  | .binary _ left right, _, h, s => by
    rw [Expr.queries, List.forall_mem_append] at h
    exact (asks_expr left h.1 s).bind fun _ => (asks_expr right h.2 s).bind fun _ => .pure _
  | .between subject low high, _, h, s => by
    rw [Expr.queries, List.forall_mem_append, List.forall_mem_append] at h
    obtain ⟨⟨hsubject, hlow⟩, hhigh⟩ := h
    exact (asks_expr subject hsubject s).bind fun _ => (asks_expr low hlow s).bind fun _ =>
      (asks_expr high hhigh s).bind fun _ => .pure _
  | .call _ args, _, h, s => (asks_exprs args h s).bind fun _ => .pure _
  | .list items, _, h, s => (asks_exprs items h s).bind fun _ => .pure _
  | .labeled e _, _, h, s => asks_expr e h s
  | .subquery ⟨name, q⟩, _, h, s =>
    (asks_query q h s (some name) .own none (by simp)).bind fun _ => .pure _

theorem asks_exprs : (es : List Expr) → ∀ {asked : Nat → Prop},
    (∀ x ∈ exprsQueries es, asked x.id) → ∀ s, Asks asked (exprs s es)
  | [], _, _, _ => .pure []
  | e :: rest, _, h, s => by
    rw [exprsQueries, List.forall_mem_append] at h
    exact (asks_expr e h.1 s).bind fun _ => (asks_exprs rest h.2 s).bind fun _ => .pure _

theorem asks_column : (owner : Relation) → ∀ {asked : Nat → Prop},
    (∀ x ∈ owner.queries, asked x.id) → ∀ s c, Asks asked (column s c owner)
  | .projected (.unfolded ⟨name, q⟩) source, _, h, s, c => by
    rw [Relation.queries, Scope.queries, List.forall_mem_append] at h
    refine (asks_query q h.1 s (some name) .made _ ?_).bind fun _ => .pure _
    rintro _ ⟨⟩ s
    exact asks_column source h.2 s _
  | .projected (.derived _) _, _, _, s, c => .lift (s.column c)
  | .table _, _, _, s, c => .lift (s.column c)
  | .alias_ _, _, _, s, c => .lift (s.column c)
  | .derived _, _, _, s, c => .lift (s.column c)

theorem asks_query : (q : Query) → ∀ {asked : Nat → Prop}, (∀ x ∈ q.queries, asked x.id) →
    ∀ (s : Setting) (alias_ : Option String) (identity : Identity) (only : Option OnlyColumn),
      (∀ c ∈ only, ∀ s, Asks asked (c.text s)) → Asks asked (query s alias_ identity only q)
  | ⟨select, sub, sources, filter, group, having, order, limit, id⟩, asked, h, s, alias_, identity,
      only, honly => by
    simp only [Query.queries, List.forall_mem_cons, List.forall_mem_append] at h
    obtain ⟨hid, ⟨⟨⟨⟨⟨hselect, hsources⟩, hfilter⟩, hgroup⟩, hhaving⟩, horder⟩, hlimit⟩ := h
    rw [query]
    refine (Asks.lift _).bind fun _ => ?_
    split
    · exact asks_bareUnion sources hsources _ identity
    · refine Asks.number hid fun n => ?_
      have hmore : ∀ {queries : List Query}, (∀ x ∈ queries, asked x.id) →
          ∀ x ∈ queries, asked x.id ∨ x.id = n := fun hqueries x hx => .inl (hqueries x hx)
      have hcolumn : ∀ c ∈ only, ∀ s, Asks (fun i => asked i ∨ i = n) (c.text s) :=
        fun c hc s => (honly c hc s).mono fun _ => .inl
      refine (asks_onlyColumn hcolumn ((asks_exprs select (hmore hselect) _).map _)).bind
        fun _ => ?_
      refine (asks_sources sources (hmore hsources) (.inr rfl) _ identity).bind fun _ => ?_
      refine (asks_exprs filter (hmore hfilter) _).bind fun _ => ?_
      refine (asks_exprs group (hmore hgroup) _).bind fun _ => ?_
      refine (asks_exprs having (hmore hhaving) _).bind fun _ => ?_
      refine (asks_exprs order (hmore horder) _).bind fun _ => ?_
      exact (asks_exprs limit (hmore hlimit) _).bind fun _ => .pure _

theorem asks_bareUnion : (sources : List Source) → ∀ {asked : Nat → Prop},
    (∀ x ∈ sourcesQueries sources, asked x.id) →
    ∀ s identity, Asks asked (bareUnion s identity sources)
  | .union _ left right :: _, _, h, s, identity => by
    rw [sourcesQueries, Source.queries, List.forall_mem_append, List.forall_mem_append] at h
    obtain ⟨⟨hleft, hright⟩, -⟩ := h
    exact (asks_query left hleft s none identity.ofOperands none (by simp)).bind fun _ =>
      (asks_query right hright s none identity.ofOperands none (by simp)).bind fun _ => .pure _
  | .relation _ :: _, _, _, _, _ => .pure ""
  | .join .. :: _, _, _, _, _ => .pure ""
  | [], _, _, _, _ => .pure ""

theorem asks_sources : (sources : List Source) → ∀ {asked : Nat → Prop} {id : Nat},
    (∀ x ∈ sourcesQueries sources, asked x.id) → asked id →
    ∀ s identity, Asks asked (sourceTexts s identity id sources)
  | [], _, _, _, _, _, _ => .pure []
  | source :: rest, _, _, h, hid, s, identity => by
    rw [sourcesQueries, List.forall_mem_append] at h
    exact (asks_source source h.1 hid s identity).bind fun _ =>
      (asks_sources rest h.2 hid s identity).bind fun _ => .pure _

/-- A union asks for the name of the level that it is in. -/
theorem asks_source : (source : Source) → ∀ {asked : Nat → Prop} {id : Nat},
    (∀ x ∈ source.queries, asked x.id) → asked id →
    ∀ s identity, Asks asked (sourceText s identity id source)
  | .relation (.table t), _, _, _, _, _, _ => .pure t.name
  | .relation (.alias_ a), _, _, _, _, _, _ => .pure (a.table.name ++ " as " ++ a.name)
  | .relation (.projected scope _), _, _, _, _, _, _ => .pure scope.name
  | .relation (.derived ⟨name, q, _⟩), _, _, h, _, s, _ => by
    rw [Source.queries, Relation.queries, List.forall_mem_append] at h
    exact (asks_query q h.1 s (some name) .own none (by simp)).bind fun _ => .pure _
  | .join _ left right on, _, _, h, hid, s, identity => by
    rw [Source.queries, List.forall_mem_append, List.forall_mem_append] at h
    obtain ⟨⟨hleft, hright⟩, hon⟩ := h
    exact (asks_source left hleft hid s identity).bind fun _ =>
      (asks_source right hright hid s identity).bind fun _ =>
        (asks_exprs on hon s).bind fun _ => .pure _
  | .union _ left right, _, _, h, hid, s, identity => by
    rw [Source.queries, List.forall_mem_append] at h
    exact (asks_query left h.1 s none identity.ofOperands none (by simp)).bind fun _ =>
      (asks_query right h.2 s none identity.ofOperands none (by simp)).bind fun _ =>
        (Asks.nameOf hid).bind fun _ => .pure _

end

/-- A statement, whether it comes about or not, gives names to queries in the tree and to numbers
that are new. -/
theorem grown_statement {q : Query} {bindings : Bindings} {options : Options} {registry : Registry}
    (h : ∀ x ∈ q.queries, x.id < registry.issued) :
    Grown (fun id => ∃ x ∈ q.queries, x.id = id) registry
      (q.statement bindings options registry).2 := by
  have hasks : Asks (fun id => ∃ x ∈ q.queries, x.id = id)
      (query ⟨bindings, options, []⟩ none .own none q) :=
    asks_query q (fun x hx => ⟨x, hx, rfl⟩) _ none .own none (by simp)
  have hgrown := hasks ⟨[], registry⟩ fun id hid => by
    obtain ⟨x, hx, rfl⟩ := hid
    exact h x hx
  rw [statement_run]
  cases hrun : query ⟨bindings, options, []⟩ none .own none q ⟨[], registry⟩ with
  | mk result state =>
    rw [hrun] at hgrown
    cases result <;> exact hgrown

/-! Whatever is written, and even if it fails, no name is taken back. -/

section
variable {α β : Type}

def KeepsNames (w : Writer α) : Prop :=
  ∀ state : State, state.registry.named <+: (w state).2.registry.named

namespace KeepsNames

theorem pure (a : α) : KeepsNames (pure a) :=
  fun _ => List.prefix_rfl

theorem lift (x : Except QueryError α) : KeepsNames (liftM x) :=
  fun _ => by cases x <;> exact List.prefix_rfl

theorem bind {x : Writer α} {f : α → Writer β} (hx : KeepsNames x) (hf : ∀ a, KeepsNames (f a)) :
    KeepsNames (x >>= f) := by
  intro state
  have hfirst := hx state
  rw [bind_run]
  cases hrun : x state with
  | mk result between =>
    rw [hrun] at hfirst
    cases result with
    | error e => exact hfirst
    | ok a => exact hfirst.trans (hf a between)

theorem placeholder (s : Setting) (key : String) : KeepsNames (s.placeholder key) :=
  (lift (s.scopes.lookUp s.bindings key)).bind fun _ => fun _ => List.prefix_rfl

theorem number (identity : Identity) (id : Nat) : KeepsNames (naming (identity.number id)) := by
  intro state
  show state.registry.named <+: (identity.number id state.registry).2.named
  exact ⟨[], by rw [named_number, List.append_nil]⟩

theorem nameOf (id : Nat) : KeepsNames (naming (Registry.nameOf id)) :=
  fun state => Registry.isPrefix_nameOf id state.registry

theorem of_keeping {numbers : List Nat} {w : Writer α} (h : KeepsNames (keeping numbers w)) :
    KeepsNames w := by
  intro state
  have hboth := h state
  rw [keeping, bind_run] at hboth
  cases hrun : w state with
  | mk result after =>
    rw [hrun] at hboth
    cases result with
    | error e => exact hboth
    | ok a => exact hboth

end KeepsNames

end

section
variable (bindings : Bindings) (options : Options)

theorem keepsNames_write (f : Fragment) (numbers : List Nat) :
    KeepsNames (f.write bindings options numbers) := by
  cases f with
  | marker scopes key => exact (KeepsNames.placeholder _ key).bind fun _ => .pure _
  | column scopes c => exact (KeepsNames.lift _).bind fun _ => .pure _
  | check q => exact (KeepsNames.lift _).bind fun _ => .pure _
  | number identity id => exact (KeepsNames.number identity id).bind fun _ => .pure _
  | generated => exact (KeepsNames.nameOf _).bind fun _ => .pure _
  | _ => exact .pure _

theorem keepsNames_writeAll (fs : List Fragment) (numbers : List Nat) :
    KeepsNames (writeAll bindings options fs numbers) := by
  induction fs generalizing numbers with
  | nil => exact .pure _
  | cons f fs ih =>
    exact (keepsNames_write bindings options f numbers).bind fun first =>
      (ih first.2).bind fun _ => .pure _

theorem keepsNames_writeEach (ps : List (List Fragment)) (numbers : List Nat) :
    KeepsNames (writeEach bindings options ps numbers) := by
  induction ps generalizing numbers with
  | nil => exact .pure _
  | cons part ps ih =>
    exact (keepsNames_writeAll bindings options part numbers).bind fun first =>
      (ih first.2).bind fun _ => .pure _

end

theorem keepsNames_exprs (s : Setting) (es : List Expr) : KeepsNames (exprs s es) := by
  have h := keepsNames_writeEach s.bindings s.options (exprsFragments s.scopes es) []
  rw [writeEach_exprs] at h
  exact h.of_keeping

theorem keepsNames_source (s : Setting) (identity : Identity) (id : Nat) (source : Source) :
    KeepsNames (sourceText s identity id source) := by
  have h := keepsNames_writeAll s.bindings s.options (sourceFragments s.scopes identity source) [id]
  rw [writeAll_source] at h
  exact h.of_keeping

theorem keepsNames_sources (s : Setting) (identity : Identity) (id : Nat) (sources : List Source) :
    KeepsNames (sourceTexts s identity id sources) := by
  have h := keepsNames_writeEach s.bindings s.options
    (sourcesFragments s.scopes identity sources) [id]
  rw [writeEach_sources] at h
  exact h.of_keeping

end QueryTree.Render
