import QueryTree.Proofs.Naming.Names
import QueryTree.Proofs.Naming.Numbers
import QueryTree.Proofs.Render.Apart
import QueryTree.Proofs.Render.Correlation

/-!
Statements of one query at two times. A level under a number that there was before finds its name
again. A query that is made for the occasion has a new number each time, and its name is lost: if a
union in it asks for one, the next statement has another.
-/

namespace QueryTree

namespace Text

/-- What a text starts with decides whether a word goes on in it. -/
theorem endsWord_append {cs : List Char}
    (h : (cs.head?.any fun c => !isNamePart c) = true) (rest : List Char) :
    EndsWord (cs ++ rest) := by
  cases cs with
  | nil => cases h
  | cons c cs => exact endsWord_of_sign (by simpa using h) (cs ++ rest)

end Text

/-- Two generated names cannot be taken for each other where they end. -/
theorem generatedName_append_inj {place place' : Nat} {rest rest' : String}
    (hrest : Text.EndsWord rest.toList) (hrest' : Text.EndsWord rest'.toList)
    (h : generatedName place ++ rest = generatedName place' ++ rest') : place = place' := by
  have hparts : ∀ place, ∀ c ∈ (generatedName place).toList, Text.isNamePart c = true := by
    intro place c hc
    simpa [Text.isNamePart] using Render.alphanum_of_mem_generated hc
  have hcut := Text.cutWord_append (hparts place) hrest
  rw [← String.toList_append, h, String.toList_append,
    Text.cutWord_append (hparts place') hrest'] at hcut
  obtain ⟨hnames, -⟩ := Prod.mk.inj hcut
  exact (generatedName_inj.mp (String.toList_inj.mp hnames)).symm

/-- All numbers that have names are old ones. -/
def Registry.NamesBelow (bound : Nat) (registry : Registry) : Prop :=
  ∀ id ∈ registry.named, id < bound

namespace Render

theorem Word.endsWord_of_isSign {w : Word} (h : w.isSign = true) (rest : List Char) :
    Text.EndsWord (w.text.toList ++ rest) := by
  apply Text.endsWord_append
  cases w with
  | prefixOp op => cases h
  | clause kind => cases h
  | postfixOp op => cases op <;> decide
  | binaryOp op => cases op <;> decide
  | join kind => cases kind <;> decide
  | set op => cases op <;> decide
  | _ => decide

theorem endsWord_separator (options : Options) (rest : List Char) :
    Text.EndsWord (options.separator.toList ++ rest) := by
  apply Text.endsWord_append
  unfold Options.separator
  split <;> decide

theorem Parted.tail {pending : Bool} {f : Fragment} {fs : List Fragment}
    (h : Parted pending (f :: fs)) : ∃ pending', Parted pending' fs := by
  cases f with
  | separator | check q | number identity id | leave => exact ⟨_, h⟩
  | _ => exact ⟨_, h.2⟩

section
variable {bindings : Bindings} {options : Options} {numbers numbers' : List Nat}
  {state state' between between' after after' : State} {r r' : String × List Nat}

/-- What is parted from a name in front of it ends the name. -/
theorem endsWord_of_parted {fs : List Fragment} (hfs : Parted true fs)
    (h : writeAll bindings options fs numbers state = (.ok r, after)) :
    Text.EndsWord r.1.toList := by
  induction fs generalizing numbers state r with
  | nil =>
    obtain ⟨rfl, -⟩ := writeAll_nil_ok_iff.mp h
    exact fun _ hc => nomatch hc
  | cons f fs ih =>
    obtain ⟨first, between, hfirst, others, hothers, rfl⟩ := writeAll_cons_ok_iff.mp h
    rw [write_ok_iff] at hfirst
    rw [String.toList_append]
    cases f with
    | word w =>
      obtain ⟨rfl, -⟩ := hfirst
      exact Word.endsWord_of_isSign (hfs.1 rfl) _
    | separator =>
      obtain ⟨rfl, -⟩ := hfirst
      exact endsWord_separator options _
    | check q =>
      obtain ⟨-, rfl, -⟩ := hfirst
      exact ih hfs hothers
    | number identity id =>
      obtain ⟨rfl, -⟩ := hfirst
      exact ih hfs hothers
    | leave =>
      obtain ⟨rfl, -⟩ := hfirst
      exact ih hfs hothers
    | _ => exact absurd hfs.1 Bool.noConfusion

/-! ### Two runs over the same fragments, the second one when the first is over -/

/-- A level goes by one old number both times, or by numbers of which the first was new. -/
def SameOrNew (base : Nat) (id id' : Nat) : Prop :=
  id = id' ∧ id < base ∨ base ≤ id ∧ id ≠ id'

/-- How two runs stand to each other. The first one started with the numbers below the base, has
named only old ones so far and will leave behind the last registry. The second one started from
there or later. -/
structure Again (base : Nat) (last : Registry) (numbers numbers' : List Nat)
    (first second : Registry) : Prop where
  levels : List.Forall₂ (SameOrNew base) numbers numbers'
  started : base ≤ first.issued
  below : first.NamesBelow base
  issued : last.issued ≤ second.issued
  named : last.named <+: second.named

variable {base : Nat} {last : Registry}

theorem sameOrNew_headD (hbase : 0 < base) (h : List.Forall₂ (SameOrNew base) numbers numbers') :
    SameOrNew base (numbers.headD 0) (numbers'.headD 0) := by
  cases h with
  | nil => exact .inl ⟨rfl, hbase⟩
  | cons hhead _ => exact hhead

/-- What is written without the registry comes out alike. -/
theorem write_plain_again {f : Fragment} (hids : f.ids = []) (hgenerated : f ≠ .generated)
    (hlevels : List.Forall₂ (SameOrNew base) numbers numbers')
    (h : f.write bindings options numbers state = (.ok r, between))
    (h' : f.write bindings options numbers' state' = (.ok r', between')) :
    r'.1 = r.1 ∧ List.Forall₂ (SameOrNew base) r.2 r'.2 ∧ between.registry = state.registry ∧
      between'.registry = state'.registry := by
  rw [write_ok_iff] at h h'
  cases f with
  | marker scopes key =>
    obtain ⟨_, -, rfl, rfl⟩ := h
    obtain ⟨_, -, rfl, rfl⟩ := h'
    exact ⟨rfl, hlevels, rfl, rfl⟩
  | column scopes c =>
    obtain ⟨text, htext, rfl, rfl⟩ := h
    obtain ⟨text', htext', rfl, rfl⟩ := h'
    obtain rfl : text = text' := Except.ok.inj (htext.symm.trans htext')
    exact ⟨rfl, hlevels, rfl, rfl⟩
  | check q =>
    obtain ⟨-, rfl, rfl⟩ := h
    obtain ⟨-, rfl, rfl⟩ := h'
    exact ⟨rfl, hlevels, rfl, rfl⟩
  | leave =>
    obtain ⟨rfl, rfl⟩ := h
    obtain ⟨rfl, rfl⟩ := h'
    refine ⟨rfl, ?_, rfl, rfl⟩
    cases hlevels with
    | nil => exact .nil
    | cons _ hrest => exact hrest
  | number identity id => cases hids
  | generated => exact absurd rfl hgenerated
  | _ =>
    obtain ⟨rfl, rfl⟩ := h
    obtain ⟨rfl, rfl⟩ := h'
    exact ⟨rfl, hlevels, rfl, rfl⟩

/-- Handing out numbers leaves two runs as they stand to each other. -/
theorem Again.enter {id id' : Nat} {first second entered entered' : Registry}
    (h : Again base last numbers numbers' first second) (hlevel : SameOrNew base id id')
    (hissued : first.issued ≤ entered.issued) (hnamed : entered.named = first.named)
    (hissued' : second.issued ≤ entered'.issued) (hnamed' : entered'.named = second.named) :
    Again base last (id :: numbers) (id' :: numbers') entered entered' where
  levels := .cons hlevel h.levels
  started := Nat.le_trans h.started hissued
  below := by
    rw [Registry.NamesBelow, hnamed]
    exact h.below
  issued := Nat.le_trans h.issued hissued'
  named := by
    rw [hnamed']
    exact h.named

/-- The number that a level goes by: one that the first run hands out is none that the second one
comes to. -/
theorem Again.sameOrNew {identity : Identity} {id : Nat} {first second : Registry}
    (h : Again base last numbers numbers' first second) (hid : id < base)
    (hissued : (identity.number id first).2.issued ≤ last.issued)
    (hnamed : first.named <+: last.named) :
    SameOrNew base (identity.number id first).1 (identity.number id second).1 := by
  have hstarted := h.started
  have hlater := h.issued
  have hboth : (Registry.fresh first).2.issued ≤ last.issued →
      SameOrNew base first.issued second.issued := by
    intro hnew
    have hlt : first.issued < last.issued := hnew
    exact .inr ⟨hstarted, by omega⟩
  cases identity with
  | own => exact .inl ⟨rfl, hid⟩
  | made => exact hboth hissued
  | copied =>
    simp only [Identity.number] at hissued ⊢
    rcases Registry.copyOf_cases id first with ⟨⟨n, hname⟩, hcopy⟩ | ⟨-, hcopy⟩
    · have hname' := Registry.name?_of_isPrefix (hnamed.trans h.named) hname
      rcases Registry.copyOf_cases id second with ⟨-, hcopy'⟩ | ⟨hnone, -⟩
      · rw [hcopy, hcopy']
        exact .inl ⟨rfl, hid⟩
      · rw [hnone] at hname'
        cases hname'
    · rw [hcopy] at hissued ⊢
      rcases Registry.copyOf_cases id second with ⟨-, hcopy'⟩ | ⟨-, hcopy'⟩
      · rw [hcopy']
        have hold : first.issued ≠ id := by omega
        exact .inr ⟨hstarted, hold⟩
      · rw [hcopy']
        exact hboth hissued

/-- A name that is asked for in both runs: under an old number it is one name, which the second run
does not have to give out. -/
theorem Again.nameOf {id : Nat} {first second : Registry}
    (h : Again base last numbers numbers' first second) (hid : id < base)
    (hnamed : (Registry.nameOf id first).2.named <+: last.named) :
    Registry.nameOf id second = ((Registry.nameOf id first).1, second) ∧
      Again base last numbers numbers' (Registry.nameOf id first).2 second := by
  have hname := Registry.name?_of_isPrefix (hnamed.trans h.named) (Registry.name?_nameOf id first)
  refine ⟨Registry.nameOf_of_name? hname, h.levels, ?_, ?_, h.issued, h.named⟩
  · rw [Registry.issued_nameOf]
    exact h.started
  · intro other hother
    rcases Registry.mem_named_of_nameOf hother with hbefore | rfl
    · exact h.below other hbefore
    · exact hid

/-- Under a number that was new in the first run, the second one has another name. -/
theorem Again.nameOf_ne {id id' : Nat} {first second : Registry}
    (h : Again base last numbers numbers' first second) (hid : base ≤ id) (hne : id ≠ id')
    (hnamed : (Registry.nameOf id first).2.named <+: last.named) :
    ¬last.NamesBelow base ∧ (Registry.nameOf id first).1 ≠ (Registry.nameOf id' second).1 := by
  have hlast := Registry.name?_of_isPrefix hnamed (Registry.name?_nameOf id first)
  constructor
  · intro hbelow
    have hmem : id ∈ last.named := by
      refine Classical.byContradiction fun hmem => ?_
      rw [Registry.name?_eq_none_iff.mpr hmem] at hlast
      cases hlast
    exact absurd (hbelow id hmem) (Nat.not_lt.mpr hid)
  · intro hsame
    have hkept := Registry.name?_of_isPrefix
      (h.named.trans (Registry.isPrefix_nameOf id' second)) hlast
    have hother := Registry.name?_nameOf id' second
    rw [← hsame] at hother
    exact hne (Registry.eq_of_name? hkept hother)

/-- What one fragment does in both runs. Either it is written alike, and no name is given out the
second time, or it is a name that the first run has generated for a number that it handed out. -/
theorem write_again {f : Fragment} (hbase : 0 < base) (hids : ∀ id ∈ f.ids, id < base)
    (hagain : Again base last numbers numbers' state.registry state'.registry)
    (hissued : between.registry.issued ≤ last.issued)
    (hnamed : between.registry.named <+: last.named)
    (h : f.write bindings options numbers state = (.ok r, between))
    (h' : f.write bindings options numbers' state' = (.ok r', between')) :
    (r'.1 = r.1 ∧ Again base last r.2 r'.2 between.registry between'.registry ∧
      between'.registry.named = state'.registry.named) ∨
    (f = .generated ∧ ¬last.NamesBelow base ∧ ∃ place place', place' ≠ place ∧
      r.1 = generatedName place ∧ r'.1 = generatedName place') := by
  by_cases hplain : f.ids = [] ∧ f ≠ .generated
  · obtain ⟨htext, hlevels, hfirst, hsecond⟩ :=
      write_plain_again hplain.1 hplain.2 hagain.levels h h'
    rw [hfirst, hsecond]
    exact .inl ⟨htext, { hagain with levels := hlevels }, rfl⟩
  · rw [write_ok_iff] at h h'
    cases f with
    | number identity id =>
      obtain ⟨rfl, rfl⟩ := h
      obtain ⟨rfl, rfl⟩ := h'
      rw [named_number] at hnamed
      have hlevel := hagain.sameOrNew (hids id (List.mem_singleton_self id)) hissued hnamed
      refine .inl ⟨rfl, ?_, named_number identity id state'.registry⟩
      exact hagain.enter hlevel (issued_le_number _ _ _) (named_number _ _ _)
        (issued_le_number _ _ _) (named_number _ _ _)
    | generated =>
      obtain ⟨rfl, rfl⟩ := h
      obtain ⟨rfl, rfl⟩ := h'
      rcases sameOrNew_headD hbase hagain.levels with ⟨hsame, hold⟩ | ⟨hnew, hne⟩
      · obtain ⟨hname, hafter⟩ := hagain.nameOf hold hnamed
        rw [← hsame, hname]
        exact .inl ⟨rfl, hafter, rfl⟩
      · obtain ⟨hbelow, hother⟩ := hagain.nameOf_ne hnew hne hnamed
        obtain ⟨place, hplace⟩ := nameOf_eq_generatedName (numbers.headD 0) state.registry
        obtain ⟨place', hplace'⟩ := nameOf_eq_generatedName (numbers'.headD 0) state'.registry
        refine .inr ⟨rfl, hbelow, place, place', ?_, hplace, hplace'⟩
        rintro rfl
        exact hother (hplace.trans hplace'.symm)
    | _ => exact absurd ⟨rfl, Fragment.noConfusion⟩ hplain

/-- Both runs write the same text exactly if the first one has named old numbers only. Then the
second one gives out no name. -/
theorem writeAll_again {fs : List Fragment} {pending : Bool} (hparted : Parted pending fs)
    (hbase : 0 < base) (hids : Every Fragment.ids (· < base) fs)
    (hagain : Again base after.registry numbers numbers' state.registry state'.registry)
    (h : writeAll bindings options fs numbers state = (.ok r, after))
    (h' : writeAll bindings options fs numbers' state' = (.ok r', after')) :
    (r'.1 = r.1 ↔ after.registry.NamesBelow base) ∧
      (after.registry.NamesBelow base → after'.registry.named = state'.registry.named) := by
  -- the two runs stand to each other as they did, until a name differs
  induction fs generalizing pending numbers numbers' state state' r r' with
  | nil =>
    obtain ⟨rfl, rfl⟩ := writeAll_nil_ok_iff.mp h
    obtain ⟨rfl, rfl⟩ := writeAll_nil_ok_iff.mp h'
    exact ⟨⟨fun _ => hagain.below, fun _ => rfl⟩, fun _ => rfl⟩
  | cons f fs ih =>
    obtain ⟨first, between, hfirst, others, hothers, rfl⟩ := writeAll_cons_ok_iff.mp h
    obtain ⟨first', between', hfirst', others', hothers', rfl⟩ := writeAll_cons_ok_iff.mp h'
    rw [every_cons] at hids
    have hissued := issued_le_of_writeAll hothers
    have hnamed := keepsNames_writeAll bindings options fs first.2 between
    rw [hothers] at hnamed
    rcases write_again hbase hids.1 hagain hissued hnamed hfirst hfirst' with
      ⟨htext, hstill, hkept⟩ | ⟨rfl, hbelow, place, place', hne, hname, hname'⟩
    · obtain ⟨pending', hrest⟩ := hparted.tail
      obtain ⟨hsame, hnone⟩ := ih hrest hids.2 hstill hothers hothers'
      constructor
      · show first'.1 ++ others'.1 = first.1 ++ others.1 ↔ _
        rw [htext, String.append_right_inj]
        exact hsame
      · exact fun hall => (hnone hall).trans hkept
    · refine ⟨iff_of_false (fun hsame => ?_) hbelow, fun hall => absurd hall hbelow⟩
      have hrest := endsWord_of_parted hparted.2 hothers
      have hrest' := endsWord_of_parted hparted.2 hothers'
      change first'.1 ++ others'.1 = first.1 ++ others.1 at hsame
      rw [hname, hname'] at hsame
      exact hne (generatedName_append_inj hrest' hrest hsame)

/-- Where every level goes by its own number, no number is handed out. -/
theorem issued_of_own {fs : List Fragment}
    (hown : ∀ identity id, .number identity id ∈ fs → identity = .own)
    (h : writeAll bindings options fs numbers state = (.ok r, after)) :
    after.registry.issued = state.registry.issued := by
  induction fs generalizing numbers state r with
  | nil =>
    obtain ⟨-, rfl⟩ := writeAll_nil_ok_iff.mp h
    rfl
  | cons f fs ih =>
    obtain ⟨first, between, hfirst, others, hothers, -⟩ := writeAll_cons_ok_iff.mp h
    rw [ih (fun identity id hmem => hown identity id (List.mem_cons_of_mem f hmem)) hothers]
    rw [write_ok_iff] at hfirst
    cases f with
    | number identity id =>
      obtain ⟨-, rfl⟩ := hfirst
      rw [hown identity id List.mem_cons_self]
      rfl
    | generated =>
      obtain ⟨-, rfl⟩ := hfirst
      exact Registry.issued_nameOf _ _
    | marker scopes key =>
      obtain ⟨_, -, -, rfl⟩ := hfirst
      rfl
    | column scopes c =>
      obtain ⟨_, -, -, rfl⟩ := hfirst
      rfl
    | check q =>
      obtain ⟨-, -, rfl⟩ := hfirst
      rfl
    | _ =>
      obtain ⟨-, rfl⟩ := hfirst
      rfl

end

end Render

open Render

section
variable {bindings : Bindings} {options : Options} {q : Query} {registry last later : Registry}
  {result again : Statement}

/-- A query whose objects are there at the first statement: a later one has the same text exactly if
the first one named none but such objects. -/
theorem Query.sql_eq_iff_namesBelow {final : Registry}
    (hknown : ∀ x ∈ q.queries, x.id < registry.issued) (hsound : registry.Sound)
    (hissued : last.issued ≤ later.issued) (hnamed : last.named <+: later.named)
    (h : q.statement bindings options registry = (.ok result, last))
    (h' : q.statement bindings options later = (.ok again, final)) :
    (again.sql = result.sql ↔ last.NamesBelow registry.issued) ∧
      (last.NamesBelow registry.issued → final.named = later.named) := by
  obtain ⟨numbers, hrun⟩ := statement_ok_iff.mp h
  obtain ⟨numbers', hrun'⟩ := statement_ok_iff.mp h'
  have hbase : 0 < registry.issued := by
    have hself := (Query.forall_queries_iff.mp hknown).1
    omega
  have hids : Every Fragment.ids (· < registry.issued) q.fragments := by
    intro id hid
    obtain ⟨x, hx, rfl⟩ := q.ids_fragments id hid
    exact hknown x hx
  have hstart : Again registry.issued last [] [] registry later :=
    ⟨.nil, Nat.le_refl _, hsound, hissued, hnamed⟩
  exact writeAll_again q.parted_fragments hbase hids hstart hrun hrun'

theorem Query.namesBelow_of_own (hknown : ∀ x ∈ q.queries, x.id < registry.issued)
    (hsound : registry.Sound)
    (hown : ∀ identity id, .number identity id ∈ q.fragments → identity = .own)
    (h : q.statement bindings options registry = (.ok result, last)) :
    last.NamesBelow registry.issued := by
  obtain ⟨numbers, hrun⟩ := statement_ok_iff.mp h
  have hgrown : Registry.Grown _ registry (q.statement bindings options registry).2 :=
    grown_statement hknown
  rw [h] at hgrown
  have hissued : last.issued = registry.issued := issued_of_own hown hrun
  rw [← hissued]
  exact hgrown.sound hsound

end

/-- Two statements of one query, with any run of operations between them. Where the first one
succeeds, so does the second, with the same parameters. It has the same text exactly if the first
one has named none but query objects that there were before; then it gives out no name of its own.
Where every level of the query goes by its own number, this is so. -/
theorem World.statement_again {w later : World} {q : Query} {bindings : Bindings}
    {options : Options} {result : Statement} {last : Registry} (h : start.Leads w)
    (hq : w.Has (.query q))
    (hfirst : q.statement bindings options w.registry = (.ok result, last))
    (hlater : (w.after (.statement q bindings options)).Leads later) :
    ∃ again final, q.statement bindings options later.registry = (.ok again, final) ∧
      again.params = result.params ∧
      (again.sql = result.sql ↔ last.NamesBelow w.registry.issued) ∧
      (last.NamesBelow w.registry.issued → final.named = later.registry.named) ∧
      ((∀ identity id, .number identity id ∈ q.fragments → identity = .own) →
        last.NamesBelow w.registry.issued) := by
  have hw : w.Consistent := h.consistent consistent_start
  have hallows : w.Allows (.statement q bindings options) := List.forall_mem_singleton.mpr hq
  have hknown : ∀ x ∈ q.queries, x.id < w.registry.issued := by
    intro x hx
    obtain ⟨o, ho, rfl⟩ := hq x hx
    exact hw.issued o ho
  have hbetween : (w.after (.statement q bindings options)).registry = last :=
    congrArg Prod.snd hfirst
  have hgrown := hlater.grown (hw.after hallows)
  rw [hbetween] at hgrown
  obtain ⟨again, final, hagain⟩ := (exists_statement_iff later.registry).mpr
    ((exists_statement_iff w.registry).mp ⟨result, last, hfirst⟩)
  have hparams : again.params = result.params := by
    have hsame := (params_eq_of_statement hagain).trans (params_eq_of_statement hfirst).symm
    exact (List.map_inj_right fun _ _ => Option.some.inj).mp hsame
  obtain ⟨hsql, hnone⟩ := Query.sql_eq_iff_namesBelow hknown hw.sound hgrown.issued
    hgrown.isPrefix hfirst hagain
  refine ⟨again, final, hagain, hparams, hsql, hnone, fun hown => ?_⟩
  exact Query.namesBelow_of_own hknown hw.sound hown hfirst

namespace World

def paidSources : List Source :=
  [.relation (.table Render.paid)]

/-- What has been paid. -/
def allPaid : Query :=
  ((blank.build (.sources false paidSources)).anew ⟨1, []⟩).1

/-- The orders, joined with a union. -/
def joinedOrders : List Source :=
  [.join .cross (.relation (.table Render.orders)) (.union .union allPaid allPaid) []]

def crossed : Query :=
  ((blank.build (.sources false joinedOrders)).anew ⟨2, []⟩).1

/-- The orders in the join, as a scalar. -/
def crossedOrder : Expr :=
  let scalar := (crossed.unfold (some "s") ⟨5, []⟩).1
  .column (.plain (.projected (.unfolded scalar) (.table Render.orders)) "id")

/-- The scalar for each thing that has been paid. -/
def overview : Query :=
  ((allPaid.build (.exprs .select false [crossedOrder])).anew ⟨8, []⟩).1

def stocked : World :=
  ((((start.after .newQuery).after (.build blank (.sources false paidSources))).after
    (.build blank (.sources false joinedOrders))).after (.unfold crossed (some "s"))).after
      (.build allPaid (.exprs .select false [crossedOrder]))

def overviewText (name : String) : String :=
  "SELECT (SELECT Orders.id FROM Orders CROSS JOIN " ++
    "(SELECT * FROM Paid UNION SELECT * FROM Paid) as " ++ name ++ ") FROM Paid"

theorem knows_of_places {w : World} {queries : List Query} (places : List Nat)
    (h : queries.map some = places.map fun i => w.objects[i]?.map QueryObject.query) :
    ∀ q ∈ queries, w.Knows q := by
  intro q hq
  have hplace : some q ∈ queries.map some := List.mem_map_of_mem hq
  rw [h] at hplace
  obtain ⟨i, -, hi⟩ := List.mem_map.mp hplace
  obtain ⟨o, ho, hquery⟩ := Option.map_eq_some_iff.mp hi
  exact ⟨o, List.mem_of_getElem? ho, hquery⟩

theorem allows_of_places {w : World} {op : Op} (places : List Nat)
    (h : op.held.map some = places.map fun i => w.objects[i]?.map QueryObject.query) :
    w.Allows op := by
  intro x hx q hq
  exact knows_of_places places h q (List.mem_flatMap.mpr ⟨x, hx, hq⟩)

theorem leads_stocked : start.Leads stocked := by
  apply Leads.step (.step (.step (.step (.step .refl ?_) ?_) ?_) ?_)
  · exact allows_of_places [1, 7, 5, 6] rfl
  · exact allows_of_places [] rfl
  · exact allows_of_places [0] rfl
  · exact allows_of_places [0, 1, 1] rfl
  · exact allows_of_places [4, 2, 3] rfl

/-- The name of the union in the scalar is lost, and the next statement has another one. -/
theorem statement_again_overview :
    start.Leads stocked ∧ stocked.Has (.query overview) ∧
      overview.statement .empty {} stocked.registry =
        (.ok ⟨overviewText "_q1", []⟩, ⟨12, [9]⟩) ∧
      overview.statement .empty {} (stocked.after (.statement overview .empty {})).registry =
        (.ok ⟨overviewText "_q2", []⟩, ⟨15, [9, 12]⟩) ∧
      overviewText "_q2" ≠ overviewText "_q1" := by
  have hoverview : stocked.Has (.query overview) := knows_of_places [8, 7, 5, 6] rfl
  have hfirst : overview.statement .empty {} stocked.registry =
      (.ok ⟨overviewText "_q1", []⟩, ⟨12, [9]⟩) := rfl
  have hsecond : overview.statement .empty {}
      (stocked.after (.statement overview .empty {})).registry =
        (.ok ⟨overviewText "_q2", []⟩, ⟨15, [9, 12]⟩) := rfl
  refine ⟨leads_stocked, hoverview, hfirst, hsecond, ?_⟩
  obtain ⟨again, final, hagain, -, hsql, -, -⟩ :=
    statement_again leads_stocked hoverview hfirst .refl
  cases hsecond.symm.trans hagain
  rw [Ne, hsql]
  -- the number that has the name is the first one that the statement has handed out
  intro hbelow
  exact absurd (hbelow 9 (List.mem_singleton_self 9)) (Nat.lt_irrefl 9)

end World

end QueryTree
