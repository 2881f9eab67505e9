import QueryTree.Proofs.Render.Writing

/-! Runs of writers that succeed, and what a statement has to do with them. -/

namespace QueryTree.Render

section
variable {α β : Type}

@[simp] theorem pure_ok_iff {a b : α} {state after : State} :
    (pure a : Writer α) state = (.ok b, after) ↔ a = b ∧ state = after := by
  constructor
  · intro h
    cases h
    exact ⟨rfl, rfl⟩
  · rintro ⟨rfl, rfl⟩
    rfl

theorem bind_run (x : Writer α) (f : α → Writer β) (state : State) :
    (x >>= f) state = match x state with
      | (.ok a, between) => f a between
      | (.error e, between) => (.error e, between) := by
  change ExceptT.bindCont f (x state).1 (x state).2 = _
  cases x state with
  | mk result between => cases result <;> rfl

theorem bind_ok_iff {x : Writer α} {f : α → Writer β} {b : β} {state after : State} :
    (x >>= f) state = (.ok b, after) ↔
      ∃ a between, x state = (.ok a, between) ∧ f a between = (.ok b, after) := by
  rw [bind_run]
  constructor
  · intro h
    split at h
    next a between hx => exact ⟨a, between, hx, h⟩
    next => cases h
  · rintro ⟨a, between, hx, hf⟩
    rw [hx]
    exact hf

/-- A step that cannot change the state succeeds with its value. -/
theorem lift_ok_iff {x : Except QueryError α} {a : α} {state after : State} :
    (liftM x : Writer α) state = (.ok a, after) ↔ x = .ok a ∧ state = after := by
  cases x with
  | error e =>
    constructor
    · intro h
      cases h
    · rintro ⟨h, -⟩
      cases h
  | ok b =>
    constructor
    · intro h
      cases h
      exact ⟨rfl, rfl⟩
    · rintro ⟨h, rfl⟩
      cases h
      rfl

/-- A step that only gives out names always succeeds, and the parameters stay as they are. -/
theorem naming_ok_iff {step : Naming α} {a : α} {state after : State} :
    naming step state = (.ok a, after) ↔
      (step state.registry).1 = a ∧ ⟨state.params, (step state.registry).2⟩ = after := by
  constructor
  · intro h
    cases h
    exact ⟨rfl, rfl⟩
  · rintro ⟨rfl, rfl⟩
    rfl

end

section
variable {bindings : Bindings} {options : Options} {numbers : List Nat} {state after : State}

theorem placeholder_ok_iff {s : Setting} {key text : String} :
    s.placeholder key state = (.ok text, after) ↔ ∃ value,
      s.scopes.lookUp s.bindings key = .ok value ∧ "?" = text ∧
        ⟨state.params ++ [value], state.registry⟩ = after := by
  simp only [Setting.placeholder, bind_ok_iff, lift_ok_iff, pure_ok_iff]
  constructor
  · rintro ⟨value, _, ⟨hvalue, rfl⟩, _, _, hmodify, rfl, rfl⟩
    cases hmodify
    exact ⟨value, hvalue, rfl, rfl⟩
  · rintro ⟨value, hvalue, rfl, rfl⟩
    exact ⟨value, state, ⟨hvalue, rfl⟩, (), _, rfl, rfl, rfl⟩

theorem check_ok_iff {s : Setting} {q : Query} :
    s.check q = .ok () ↔ (s.options.validate = true → q.validate = .ok ()) := by
  unfold Setting.check
  split
  next h => simp [h]
  next h => simp [h]

/-- What a fragment does when it succeeds: the text that it writes, the numbers that it leaves and
the state after it. -/
theorem write_ok_iff {f : Fragment} {r : String × List Nat} :
    f.write bindings options numbers state = (.ok r, after) ↔ match f with
      | .word w => (w.text, numbers) = r ∧ state = after
      | .name n => (n, numbers) = r ∧ state = after
      | .function n => (Text.upper n, numbers) = r ∧ state = after
      | .constant v => (v.literal, numbers) = r ∧ state = after
      | .marker scopes key => ∃ value, scopes.lookUp bindings key = .ok value ∧
          ("?", numbers) = r ∧ ⟨state.params ++ [value], state.registry⟩ = after
      | .column scopes c => ∃ text, Setting.column ⟨bindings, options, scopes⟩ c = .ok text ∧
          (text, numbers) = r ∧ state = after
      | .separator => (options.separator, numbers) = r ∧ state = after
      | .check q => (options.validate = true → q.validate = .ok ()) ∧ ("", numbers) = r ∧
          state = after
      | .number identity id =>
          ("", (identity.number id state.registry).1 :: numbers) = r ∧
            ⟨state.params, (identity.number id state.registry).2⟩ = after
      | .generated =>
          ((Registry.nameOf (numbers.headD 0) state.registry).1, numbers) = r ∧
            ⟨state.params, (Registry.nameOf (numbers.headD 0) state.registry).2⟩ = after
      | .leave => ("", numbers.tail) = r ∧ state = after := by
  cases f with
  | marker scopes key =>
    simp only [Fragment.write, bind_ok_iff, placeholder_ok_iff, pure_ok_iff]
    constructor
    · rintro ⟨_, _, ⟨value, hvalue, rfl, rfl⟩, rfl, rfl⟩
      exact ⟨value, hvalue, rfl, rfl⟩
    · rintro ⟨value, hvalue, rfl, rfl⟩
      exact ⟨_, _, ⟨value, hvalue, rfl, rfl⟩, rfl, rfl⟩
  | column scopes c =>
    simp only [Fragment.write, bind_ok_iff, lift_ok_iff, pure_ok_iff]
    constructor
    · rintro ⟨text, _, ⟨htext, rfl⟩, rfl, rfl⟩
      exact ⟨text, htext, rfl, rfl⟩
    · rintro ⟨text, htext, rfl, rfl⟩
      exact ⟨text, _, ⟨htext, rfl⟩, rfl, rfl⟩
  | check q =>
    simp only [Fragment.write, bind_ok_iff, lift_ok_iff, pure_ok_iff]
    constructor
    · rintro ⟨_, _, ⟨hcheck, rfl⟩, rfl, rfl⟩
      exact ⟨check_ok_iff.mp hcheck, rfl, rfl⟩
    · rintro ⟨hcheck, rfl, rfl⟩
      exact ⟨(), _, ⟨check_ok_iff.mpr hcheck, rfl⟩, rfl, rfl⟩
  | number identity id =>
    simp only [Fragment.write, bind_ok_iff, naming_ok_iff, pure_ok_iff]
    constructor
    · rintro ⟨_, _, ⟨rfl, rfl⟩, rfl, rfl⟩
      exact ⟨rfl, rfl⟩
    · rintro ⟨rfl, rfl⟩
      exact ⟨_, _, ⟨rfl, rfl⟩, rfl, rfl⟩
  | generated =>
    simp only [Fragment.write, bind_ok_iff, naming_ok_iff, pure_ok_iff]
    constructor
    · rintro ⟨_, _, ⟨rfl, rfl⟩, rfl, rfl⟩
      exact ⟨rfl, rfl⟩
    · rintro ⟨rfl, rfl⟩
      exact ⟨_, _, ⟨rfl, rfl⟩, rfl, rfl⟩
  | _ => exact pure_ok_iff

@[simp] theorem writeAll_nil_ok_iff {r : String × List Nat} :
    writeAll bindings options [] numbers state = (.ok r, after) ↔
      ("", numbers) = r ∧ state = after :=
  pure_ok_iff

/-- A run of fragments is a run of the first one and then of the others. -/
theorem writeAll_cons_ok_iff {f : Fragment} {fs : List Fragment} {r : String × List Nat} :
    writeAll bindings options (f :: fs) numbers state = (.ok r, after) ↔
      ∃ first between, f.write bindings options numbers state = (.ok first, between) ∧
        ∃ others, writeAll bindings options fs first.2 between = (.ok others, after) ∧
          (first.1 ++ others.1, others.2) = r := by
  simp only [writeAll, bind_ok_iff, pure_ok_iff]
  constructor
  · rintro ⟨first, between, hfirst, others, last, hothers, rfl, rfl⟩
    exact ⟨first, between, hfirst, others, hothers, rfl⟩
  · rintro ⟨first, between, hfirst, others, hothers, rfl⟩
    exact ⟨first, between, hfirst, others, after, hothers, rfl, rfl⟩

theorem writeAll_append_ok_iff {fs gs : List Fragment} {r : String × List Nat} :
    writeAll bindings options (fs ++ gs) numbers state = (.ok r, after) ↔
      ∃ first between, writeAll bindings options fs numbers state = (.ok first, between) ∧
        ∃ others, writeAll bindings options gs first.2 between = (.ok others, after) ∧
          (first.1 ++ others.1, others.2) = r := by
  simp only [writeAll_append, bind_ok_iff, pure_ok_iff]
  constructor
  · rintro ⟨first, between, hfirst, others, last, hothers, rfl, rfl⟩
    exact ⟨first, between, hfirst, others, hothers, rfl⟩
  · rintro ⟨first, between, hfirst, others, hothers, rfl⟩
    exact ⟨first, between, hfirst, others, after, hothers, rfl, rfl⟩

theorem issued_le_of_write {f : Fragment} {r : String × List Nat}
    (h : f.write bindings options numbers state = (.ok r, after)) :
    state.registry.issued ≤ after.registry.issued := by
  rw [write_ok_iff] at h
  cases f with
  | marker scopes key =>
    obtain ⟨_, -, -, rfl⟩ := h
    exact Nat.le_refl _
  | column scopes c =>
    obtain ⟨_, -, -, rfl⟩ := h
    exact Nat.le_refl _
  | check q =>
    obtain ⟨-, -, rfl⟩ := h
    exact Nat.le_refl _
  | number identity id =>
    obtain ⟨-, rfl⟩ := h
    cases identity with
    | own => exact Nat.le_refl _
    | copied =>
      simp only [Identity.number, Registry.copyOf]
      split
      · exact Nat.le_refl _
      · exact Nat.le_succ _
    | made => exact Nat.le_succ _
  | generated =>
    obtain ⟨-, rfl⟩ := h
    unfold Registry.nameOf
    split <;> exact Nat.le_refl _
  | _ =>
    obtain ⟨-, rfl⟩ := h
    exact Nat.le_refl _

/-- No number is handed out twice in a run. -/
theorem issued_le_of_writeAll {fs : List Fragment} {r : String × List Nat}
    (h : writeAll bindings options fs numbers state = (.ok r, after)) :
    state.registry.issued ≤ after.registry.issued := by
  induction fs generalizing numbers state r with
  | nil =>
    obtain ⟨-, rfl⟩ := writeAll_nil_ok_iff.mp h
    exact Nat.le_refl _
  | cons f fs ih =>
    obtain ⟨first, between, hfirst, others, hothers, -⟩ := writeAll_cons_ok_iff.mp h
    exact Nat.le_trans (issued_le_of_write hfirst) (ih hothers)

/-- A query made for the occasion takes up a number. -/
theorem issued_lt_of_writeAll {fs : List Fragment} {id : Nat} {r : String × List Nat}
    (h : writeAll bindings options fs numbers state = (.ok r, after))
    (hmade : .number .made id ∈ fs) : state.registry.issued < after.registry.issued := by
  induction fs generalizing numbers state r with
  | nil => cases hmade
  | cons f fs ih =>
    obtain ⟨first, between, hfirst, others, hothers, -⟩ := writeAll_cons_ok_iff.mp h
    rcases List.mem_cons.mp hmade with rfl | hmade
    · obtain ⟨-, rfl⟩ := write_ok_iff.mp hfirst
      exact issued_le_of_writeAll hothers
    · exact Nat.lt_of_le_of_lt (issued_le_of_write hfirst) (ih hothers hmade)

theorem statement_run (q : Query) (registry : Registry) :
    q.statement bindings options registry =
      match query ⟨bindings, options, []⟩ none .own none q ⟨[], registry⟩ with
      | (.ok text, state) => (.ok ⟨text, state.params⟩, state.registry)
      | (.error e, state) => (.error e, state.registry) := by
  unfold Query.statement Context.write Context.start
  simp only [bind, ExceptT.bind, ExceptT.mk, StateT.bind, ExceptT.bindCont, liftM, monadLift,
    MonadLift.monadLift, ExceptT.lift, Functor.map, StateT.map]
  cases query ⟨bindings, options, []⟩ none .own none q ⟨[], registry⟩ with
  | mk outcome state => cases outcome <;> rfl

/-- A statement is what writing the fragments of the query leaves behind. -/
theorem statement_ok_iff {q : Query} {registry last : Registry} {result : Statement} :
    q.statement bindings options registry = (.ok result, last) ↔
      ∃ numbers, writeAll bindings options q.fragments [] ⟨[], registry⟩ =
        (.ok (result.sql, numbers), ⟨result.params, last⟩) := by
  have hq : query ⟨bindings, options, []⟩ none .own none q ⟨[], registry⟩ =
      (Prod.fst <$> writeAll bindings options q.fragments []) ⟨[], registry⟩ :=
    congrFun (query_eq_writeAll bindings options [] none .own q) _
  rw [statement_run, hq, map_eq_pure_bind, bind_run]
  cases hrun : writeAll bindings options q.fragments [] ⟨[], registry⟩ with
  | mk outcome state =>
    cases outcome with
    | error e =>
      constructor
      · intro h
        cases h
      · rintro ⟨numbers, h⟩
        cases h
    | ok r =>
      constructor
      · intro h
        cases h
        exact ⟨r.2, rfl⟩
      · rintro ⟨numbers, h⟩
        cases h
        rfl

/-- What a fragment in some place writes stands in the text of the statement, behind what the
fragments in front of it write. -/
theorem exists_text_of_statement {q : Query} {pre post : List Fragment} {f : Fragment}
    (hplace : q.fragments = pre ++ f :: post) {registry last : Registry} {result : Statement}
    (h : q.statement bindings options registry = (.ok result, last)) :
    ∃ before state written state' later,
      writeAll bindings options pre [] ⟨[], registry⟩ = (.ok before, state) ∧
      f.write bindings options before.2 state = (.ok written, state') ∧
      result.sql = before.1 ++ written.1 ++ later := by
  obtain ⟨numbers, hrun⟩ := statement_ok_iff.mp h
  rw [hplace] at hrun
  obtain ⟨before, state, hbefore, rest, hrest, htext⟩ := writeAll_append_ok_iff.mp hrun
  obtain ⟨written, state', hwritten, others, -, hothers⟩ := writeAll_cons_ok_iff.mp hrest
  refine ⟨before, state, written, state', others.1, hbefore, hwritten, ?_⟩
  rw [← hothers] at htext
  rw [String.append_assoc]
  exact (congrArg Prod.fst htext).symm

end

end QueryTree.Render
