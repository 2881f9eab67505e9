import Mathlib.Tactic.Choose
import QueryTree.Proofs.Render.Agreement
import QueryTree.Proofs.Render.Marks

/-!
What the settings of the layout change. Owners in front of columns and line ends between clauses
are text and nothing else: the four settings fail alike, record the same parameters and give out
the same names. A line end is written by the separator alone, so on one line there is a blank for
each.
-/

namespace QueryTree

/-- A text with blanks in place of its line ends. -/
def Text.unbroken (text : String) : String :=
  text.map fun c => if c = '\n' then ' ' else c

namespace Text

theorem unbroken_empty : unbroken "" = "" := by
  rw [← String.toList_inj, unbroken, String.toList_map]
  rfl

theorem unbroken_newline : unbroken "\n" = " " := by
  rw [← String.toList_inj, unbroken, String.toList_map]
  rfl

theorem unbroken_append (a b : String) : unbroken (a ++ b) = unbroken a ++ unbroken b := by
  rw [← String.toList_inj, unbroken, unbroken, unbroken]
  simp only [String.toList_map, String.toList_append, List.map_append]

theorem unbroken_eq_self {text : String} (h : '\n' ∉ text.toList) : unbroken text = text := by
  rw [← String.toList_inj, unbroken, String.toList_map]
  calc text.toList.map (fun c => if c = '\n' then ' ' else c)
      = text.toList.map id := by
        refine List.map_congr_left fun c hc => if_neg ?_
        rintro rfl
        exact h hc
    _ = text.toList := List.map_id _

end Text

namespace Render

section
variable {α β γ δ : Type}

/-- Both leave the same behind, and they fail alike or come to what belongs together. -/
def Related (R : α → β → Prop) (x : Writer α) (y : Writer β) : Prop :=
  ∀ state, ∃ after,
    (∃ e, x state = (.error e, after) ∧ y state = (.error e, after)) ∨
    ∃ a b, R a b ∧ x state = (.ok a, after) ∧ y state = (.ok b, after)

namespace Related

theorem pure {R : α → β → Prop} {a : α} {b : β} (h : R a b) :
    Related R (pure a) (pure b) :=
  fun state => ⟨state, .inr ⟨a, b, h, rfl, rfl⟩⟩

theorem refl {R : α → α → Prop} {x : Writer α}
    (h : ∀ {state after a}, x state = (.ok a, after) → R a a) : Related R x x := by
  intro state
  cases hx : x state with
  | mk result after =>
    cases result with
    | error e => exact ⟨after, .inl ⟨e, rfl, rfl⟩⟩
    | ok a => exact ⟨after, .inr ⟨a, a, h hx, rfl, rfl⟩⟩

theorem bind {R : α → β → Prop} {S : γ → δ → Prop} {x : Writer α} {y : Writer β}
    {f : α → Writer γ} {g : β → Writer δ} (h : Related R x y)
    (hrest : ∀ a b, R a b → Related S (f a) (g b)) : Related S (x >>= f) (y >>= g) := by
  intro state
  obtain ⟨between, ⟨e, hx, hy⟩ | ⟨a, b, hab, hx, hy⟩⟩ := h state
  · refine ⟨between, .inl ⟨e, ?_, ?_⟩⟩
    · rw [bind_run, hx]
    · rw [bind_run, hy]
  · rw [bind_run, bind_run, hx, hy]
    exact hrest a b hab between

end Related

end

section
variable {bindings : Bindings} {options other : Options}

/-- Texts that belong together, over the same numbers of levels. -/
def Beside (T : String → String → Prop) (r s : String × List Nat) : Prop :=
  T r.1 s.1 ∧ r.2 = s.2

theorem writeAll_related (T : String → String → Prop) (hnil : T "" "")
    (happend : ∀ {a b c d}, T a b → T c d → T (a ++ c) (b ++ d)) {fs : List Fragment}
    (h : ∀ f ∈ fs, ∀ numbers, Related (Beside T) (f.write bindings options numbers)
      (f.write bindings other numbers)) (numbers : List Nat) :
    Related (Beside T) (writeAll bindings options fs numbers)
      (writeAll bindings other fs numbers) := by
  induction fs generalizing numbers with
  | nil => exact .pure ⟨hnil, rfl⟩
  | cons f fs ih =>
    obtain ⟨hf, hfs⟩ := List.forall_mem_cons.mp h
    refine (hf numbers).bind fun r s hfirst => ?_
    obtain ⟨htext, hnumbers⟩ := hfirst
    rw [hnumbers]
    refine (ih hfs s.2).bind fun r' s' hothers => ?_
    exact .pure ⟨happend htext hothers.1, hothers.2⟩

/-- Whether a column is found does not depend on how it is written. -/
theorem column_related (hvalidate : options.validate = other.validate) (scopes : Scopes)
    (c : Column) : Related (fun _ _ => True)
      (liftM (Setting.column ⟨bindings, options, scopes⟩ c))
      (liftM (Setting.column ⟨bindings, other, scopes⟩ c)) := by
  have hplain : ∀ one : Bool, ∃ text, (if one then .ok c.name
      else .ok (c.owner.name ++ "." ++ c.name) : Except QueryError String) = .ok text := by
    intro one
    cases one with
    | false => exact ⟨_, rfl⟩
    | true => exact ⟨_, rfl⟩
  unfold Setting.column
  cases scopes.isBare with
  | true => exact .pure trivial
  | false =>
    cases c.correlated with
    | true =>
      simp only [hvalidate]
      exact .refl fun _ => trivial
    | false =>
      obtain ⟨text, htext⟩ := hplain options.oneTable
      obtain ⟨text', htext'⟩ := hplain other.oneTable
      simp only [Bool.false_eq_true, if_false, htext, htext']
      exact .pure trivial

theorem foreign_newline : Foreign '\n' :=
  ⟨by decide, by decide⟩

theorem write_related (hvalidate : options.validate = other.validate) (f : Fragment)
    (numbers : List Nat) : Related (Beside fun _ _ => True) (f.write bindings options numbers)
      (f.write bindings other numbers) := by
  cases f with
  | column scopes c =>
    exact (column_related hvalidate scopes c).bind fun _ _ _ => .pure ⟨trivial, rfl⟩
  | separator => exact .pure ⟨trivial, rfl⟩
  | check q =>
    have hsame : Setting.check ⟨bindings, options, []⟩ q =
        Setting.check ⟨bindings, other, []⟩ q := by
      simp only [Setting.check, hvalidate]
    rw [Fragment.write, Fragment.write, hsame]
    exact .refl fun _ => ⟨trivial, rfl⟩
  | _ => exact .refl fun _ => ⟨trivial, rfl⟩

/-- Where no leaf has a line end, the text on one line is the other one with a blank for each. -/
theorem write_unbroken {validate oneTable : Bool} {f : Fragment}
    (hfree : FreeOf '\n' f.leaves) (numbers : List Nat) :
    Related (Beside fun one many => one = Text.unbroken many)
      (f.write bindings ⟨validate, oneTable, true⟩ numbers)
      (f.write bindings ⟨validate, oneTable, false⟩ numbers) := by
  by_cases hseparator : f = .separator
  · rw [hseparator]
    exact .pure ⟨Text.unbroken_newline.symm, rfl⟩
  · have hsame : f.write bindings ⟨validate, oneTable, true⟩ numbers =
        f.write bindings ⟨validate, oneTable, false⟩ numbers := by
      cases f with
      | separator => exact absurd rfl hseparator
      | _ => rfl
    rw [hsame]
    refine .refl fun {state after r} hwrite => ⟨?_, rfl⟩
    refine (Text.unbroken_eq_self fun hmem => ?_).symm
    rcases foreign_newline.of_mem_write hfree hwrite hmem with ⟨scopes, key, rfl⟩ | h
    · obtain ⟨_, -, rfl, -⟩ := write_ok_iff.mp hwrite
      have hmarker : '\n' ∉ "?".toList := by decide
      exact hmarker hmem
    · exact hseparator h

theorem query_related {T : String → String → Prop} {scopes : Scopes} {alias_ : Option String}
    {identity : Identity} {q : Query}
    (h : Related (Beside T)
      (writeAll bindings options (queryFragments scopes alias_ identity none q) [])
      (writeAll bindings other (queryFragments scopes alias_ identity none q) [])) :
    Related T (query ⟨bindings, options, scopes⟩ alias_ identity none q)
      (query ⟨bindings, other, scopes⟩ alias_ identity none q) := by
  rw [query_eq_writeAll, query_eq_writeAll, map_eq_pure_bind, map_eq_pure_bind]
  exact h.bind fun _ _ hboth => .pure hboth.1

end

section
variable (bindings : Bindings) (validate : Bool) (scopes : Scopes) (q : Query)

/-- The settings of the layout change the text of a query and nothing else. On one line it is the
text on several lines with a blank for each line end, if no name and no text constant has one. -/
theorem query_formatting (state : State) :
    (∃ e after, ∀ oneTable oneLine,
      query ⟨bindings, ⟨validate, oneTable, oneLine⟩, scopes⟩ none .own none q state =
        (.error e, after)) ∨
    ∃ (sql : Bool → Bool → String) (after : State), ∀ oneTable,
      (∀ oneLine,
        query ⟨bindings, ⟨validate, oneTable, oneLine⟩, scopes⟩ none .own none q state =
          (.ok (sql oneTable oneLine), after)) ∧
      (FreeOf '\n' q.leaves → sql oneTable true = Text.unbroken (sql oneTable false)) := by
  have hany : ∀ oneTable oneLine, Related (fun _ _ => True)
      (query ⟨bindings, ⟨validate, false, false⟩, scopes⟩ none .own none q)
      (query ⟨bindings, ⟨validate, oneTable, oneLine⟩, scopes⟩ none .own none q) := by
    intro oneTable oneLine
    apply query_related
    refine writeAll_related (fun _ _ => True) trivial (fun _ _ => trivial) (fun f _ numbers => ?_)
      []
    apply write_related
    rfl
  have hlines : FreeOf '\n' q.leaves → ∀ oneTable,
      Related (fun one many => one = Text.unbroken many)
        (query ⟨bindings, ⟨validate, oneTable, true⟩, scopes⟩ none .own none q)
        (query ⟨bindings, ⟨validate, oneTable, false⟩, scopes⟩ none .own none q) := by
    intro hfree oneTable
    have hleafy := leafy_query scopes none .own none (by simp) q fun _ h => h
    have happend : ∀ {a b c d : String}, a = Text.unbroken b → c = Text.unbroken d →
        a ++ c = Text.unbroken (b ++ d) := by
      rintro a b c d rfl rfl
      exact (Text.unbroken_append b d).symm
    apply query_related
    refine writeAll_related (fun one many => one = Text.unbroken many) Text.unbroken_empty.symm
      happend (fun f hf numbers => ?_) []
    refine write_unbroken (fun l hl => ?_) numbers
    exact hfree l (hleafy l (List.mem_flatMap.mpr ⟨f, hf, hl⟩))
  obtain ⟨after, ⟨e, hbase, -⟩ | ⟨text, -, -, hbase, -⟩⟩ := hany false false state
  · refine .inl ⟨e, after, fun oneTable oneLine => ?_⟩
    obtain ⟨_, ⟨_, hbase', hrun⟩ | ⟨_, _, -, hbase', -⟩⟩ := hany oneTable oneLine state
    · cases hbase.symm.trans hbase'
      exact hrun
    · cases hbase.symm.trans hbase'
  · have hrun : ∀ oneTable oneLine, ∃ sql,
        query ⟨bindings, ⟨validate, oneTable, oneLine⟩, scopes⟩ none .own none q state =
          (.ok sql, after) := by
      intro oneTable oneLine
      obtain ⟨_, ⟨_, hbase', -⟩ | ⟨_, sql, -, hbase', hrun⟩⟩ := hany oneTable oneLine state
      · cases hbase.symm.trans hbase'
      · cases hbase.symm.trans hbase'
        exact ⟨sql, hrun⟩
    choose sql hsql using hrun
    refine .inr ⟨sql, after, fun oneTable => ⟨hsql oneTable, fun hfree => ?_⟩⟩
    obtain ⟨_, ⟨_, hone, -⟩ | ⟨one, many, hunbroken, hone, hmany⟩⟩ := hlines hfree oneTable state
    · cases (hsql oneTable true).symm.trans hone
    · cases (hsql oneTable true).symm.trans hone
      cases (hsql oneTable false).symm.trans hmany
      exact hunbroken

/-- The four layouts of a statement fail with the same error or all succeed, with the same
parameters, and give out the same names. -/
theorem statement_formatting (registry : Registry) :
    (∃ e last, ∀ oneTable oneLine,
      q.statement bindings ⟨validate, oneTable, oneLine⟩ registry = (.error e, last)) ∨
    ∃ (sql : Bool → Bool → String) (params : List Value) (last : Registry), ∀ oneTable,
      (∀ oneLine, q.statement bindings ⟨validate, oneTable, oneLine⟩ registry =
        (.ok ⟨sql oneTable oneLine, params⟩, last)) ∧
      (FreeOf '\n' q.leaves → sql oneTable true = Text.unbroken (sql oneTable false)) := by
  rcases query_formatting bindings validate [] q ⟨[], registry⟩ with
    ⟨e, after, hrun⟩ | ⟨sql, after, hrun⟩
  · refine .inl ⟨e, after.registry, fun oneTable oneLine => ?_⟩
    rw [statement_run, hrun]
  · refine .inr ⟨sql, after.params, after.registry, fun oneTable => ?_⟩
    obtain ⟨hsql, hlines⟩ := hrun oneTable
    refine ⟨fun oneLine => ?_, hlines⟩
    rw [statement_run, hsql]

/-- Compiling into a context, whatever it holds already, is as independent of the layout. -/
theorem compile_formatting {q : Query} (hq : Built (.query q)) (ctx : Context)
    (registry : Registry) :
    (∃ e after last, ∀ oneTable oneLine,
      ctx.compile ⟨validate, oneTable, oneLine⟩ q registry = ((.error e, after), last)) ∨
    ∃ (sql : Bool → Bool → String) (after : Context) (last : Registry), ∀ oneTable,
      (∀ oneLine, ctx.compile ⟨validate, oneTable, oneLine⟩ q registry =
        ((.ok (sql oneTable oneLine), after), last)) ∧
      (FreeOf '\n' q.leaves → sql oneTable true = Text.unbroken (sql oneTable false)) := by
  simp only [compile_eq_write hq, Context.write]
  rcases query_formatting ctx.bindings validate ctx.scopes q ⟨ctx.params, registry⟩ with
    ⟨e, after, hrun⟩ | ⟨sql, after, hrun⟩
  · refine .inl ⟨e, { ctx with params := after.params }, after.registry, ?_⟩
    intro oneTable oneLine
    rw [hrun]
  · refine .inr ⟨sql, { ctx with params := after.params }, after.registry, fun oneTable => ?_⟩
    obtain ⟨hsql, hlines⟩ := hrun oneTable
    refine ⟨fun oneLine => ?_, hlines⟩
    rw [hsql]

end

def shelf : Relation := .table ⟨0, "Shelf", ["id"]⟩

/-- The numbers of the shelves, read from a derived table. -/
def shelved : Query :=
  let inner : Query := ⟨[.column ((Column.plain shelf "id").aliased "n")], true, [.relation shelf],
    [], [], [], [], [], 1⟩
  let given : Query := ⟨[], false, [.relation shelf], [], [], [], [], [], 2⟩
  let d : Relation := .derived ⟨"d", inner, given⟩
  ⟨[.column (.plain d "n")], false, [.relation d], [], [], [], [], [], 3⟩

/-- Both levels have their line ends, and on one line both have blanks. -/
theorem statement_formatting_shelved :
    FreeOf '\n' shelved.leaves ∧
      shelved.statement .empty ⟨false, false, false⟩ {} =
        (.ok ⟨"SELECT d.n\nFROM (SELECT Shelf.id as n\nFROM Shelf) as d", []⟩, {}) ∧
      shelved.statement .empty ⟨false, false, true⟩ {} =
        (.ok ⟨Text.unbroken "SELECT d.n\nFROM (SELECT Shelf.id as n\nFROM Shelf) as d", []⟩, {}) ∧
      shelved.statement .empty ⟨false, true, false⟩ {} =
        (.ok ⟨"SELECT n\nFROM (SELECT id as n\nFROM Shelf) as d", []⟩, {}) := by
  have hfree : FreeOf '\n' shelved.leaves := by decide
  have hmany : shelved.statement .empty ⟨false, false, false⟩ {} =
      (.ok ⟨"SELECT d.n\nFROM (SELECT Shelf.id as n\nFROM Shelf) as d", []⟩, {}) := rfl
  rcases statement_formatting .empty false shelved {} with ⟨e, last, hrun⟩ |
    ⟨sql, params, last, hrun⟩
  · cases hmany.symm.trans (hrun false false)
  · obtain ⟨hsql, hlines⟩ := hrun false
    obtain ⟨hresult, rfl⟩ := Prod.mk.inj (hmany.symm.trans (hsql false))
    obtain ⟨htext, rfl⟩ := Statement.mk.inj (Except.ok.inj hresult)
    refine ⟨hfree, hmany, ?_, rfl⟩
    rw [hsql, hlines hfree, htext]

end Render

end QueryTree
