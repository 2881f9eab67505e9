import QueryTree.Proofs.Bindings
import QueryTree.Proofs.Render.Parameters

/-!
Writing with other constants under the same keys. The constants only go to the parameters, so what
is written, how it fails and the names that are given out stay the same.
-/

namespace QueryTree

namespace Render

section
variable {α β : Type}

/-- Both come to the same and give out the same names. What they append may differ. -/
def Alike (x y : Writer α) : Prop :=
  ∀ registry params others, (x ⟨params, registry⟩).1 = (y ⟨others, registry⟩).1 ∧
    (x ⟨params, registry⟩).2.registry = (y ⟨others, registry⟩).2.registry

namespace Alike

theorem pure (a : α) : Alike (pure a) (pure a) :=
  fun _ _ _ => ⟨rfl, rfl⟩

theorem lift (x : Except QueryError α) : Alike (liftM x) (liftM x) :=
  fun _ _ _ => by cases x <;> exact ⟨rfl, rfl⟩

theorem naming (step : Naming α) : Alike (naming step) (Render.naming step) :=
  fun _ _ _ => ⟨rfl, rfl⟩

theorem bind {x y : Writer α} {f g : α → Writer β} (h : Alike x y)
    (hrest : ∀ a, Alike (f a) (g a)) :
    Alike (x >>= f) (y >>= g) := by
  intro registry params others
  obtain ⟨hresult, hregistry⟩ := h registry params others
  rw [bind_run, bind_run]
  cases hx : x ⟨params, registry⟩ with
  | mk result between =>
    cases hy : y ⟨others, registry⟩ with
    | mk same between' =>
      rw [hx, hy] at hresult hregistry
      obtain rfl : result = same := hresult
      obtain ⟨more, last⟩ := between
      obtain ⟨more', last'⟩ := between'
      obtain rfl : last = last' := hregistry
      cases result with
      | error e => exact ⟨rfl, rfl⟩
      | ok a => exact hrest a last more more'

end Alike

end

variable {bindings other : Bindings} {options : Options}

theorem isSome_value? (h : bindings.SameKeys other) (o : Occurrence) :
    (o.value? bindings).isSome = (o.value? other).isSome := by
  rw [Occurrence.value?, Occurrence.value?]
  split
  · exact h o.key
  · rw [Option.isSome_or, Option.isSome_or, h, h]

theorem Alike.placeholder (h : bindings.SameKeys other) (scopes : Scopes) (key : String) :
    Alike (Setting.placeholder ⟨bindings, options, scopes⟩ key)
      (Setting.placeholder ⟨other, options, scopes⟩ key) := by
  intro registry params others
  have hbound := isSome_value? h ⟨scopes.names, key⟩
  simp only [Setting.placeholder, lookUp_eq]
  cases hvalue : (Occurrence.mk scopes.names key).value? bindings with
  | some value =>
    rw [hvalue, Option.isSome_some, eq_comm, Option.isSome_iff_exists] at hbound
    obtain ⟨value', hvalue'⟩ := hbound
    rw [hvalue']
    exact ⟨rfl, rfl⟩
  | none =>
    rw [hvalue, Option.isSome_none, eq_comm, Option.isSome_eq_false_iff,
      Option.isNone_iff_eq_none] at hbound
    rw [hbound]
    exact ⟨rfl, rfl⟩

theorem write_alike (h : bindings.SameKeys other) (f : Fragment) (numbers : List Nat) :
    Alike (f.write bindings options numbers) (f.write other options numbers) := by
  cases f with
  | marker scopes key => exact (Alike.placeholder h scopes key).bind fun _ => .pure _
  | column scopes c =>
    exact (Alike.lift (Setting.column ⟨other, options, scopes⟩ c)).bind fun _ => .pure _
  | check q => exact (Alike.lift (Setting.check ⟨other, options, []⟩ q)).bind fun _ => .pure _
  | number identity id => exact (Alike.naming _).bind fun _ => .pure _
  | generated => exact (Alike.naming _).bind fun _ => .pure _
  | _ => exact .pure _

theorem writeAll_alike (h : bindings.SameKeys other) (fs : List Fragment) (numbers : List Nat) :
    Alike (writeAll bindings options fs numbers) (writeAll other options fs numbers) := by
  induction fs generalizing numbers with
  | nil => exact .pure _
  | cons f fs ih =>
    exact (write_alike h f numbers).bind fun first => (ih first.2).bind fun _ => .pure _

/-- Under bindings of the same keys a query fails with the same error or has the same text, and the
same names are given out. -/
theorem statement_rebound (h : bindings.SameKeys other) (q : Query) (registry : Registry) :
    (∃ e last, q.statement bindings options registry = (.error e, last) ∧
        q.statement other options registry = (.error e, last)) ∨
      ∃ sql params params' last,
        q.statement bindings options registry = (.ok ⟨sql, params⟩, last) ∧
        q.statement other options registry = (.ok ⟨sql, params'⟩, last) := by
  have hquery : Alike (query ⟨bindings, options, []⟩ none .own none q)
      (query ⟨other, options, []⟩ none .own none q) := by
    rw [query_eq_writeAll, query_eq_writeAll, map_eq_pure_bind, map_eq_pure_bind]
    exact (writeAll_alike h _ _).bind fun _ => .pure _
  obtain ⟨hresult, hlast⟩ := hquery registry [] []
  rw [statement_run, statement_run]
  cases hleft : query ⟨bindings, options, []⟩ none .own none q ⟨[], registry⟩ with
  | mk result state =>
    cases hright : query ⟨other, options, []⟩ none .own none q ⟨[], registry⟩ with
    | mk same state' =>
      rw [hleft, hright] at hresult hlast
      obtain rfl : result = same := hresult
      obtain ⟨params, last⟩ := state
      obtain ⟨params', last'⟩ := state'
      obtain rfl : last = last' := hlast
      cases result with
      | error e => exact .inl ⟨e, last, rfl, rfl⟩
      | ok sql => exact .inr ⟨sql, params, params', last, rfl, rfl⟩

end Render

end QueryTree
