import Mathlib.Data.List.Nodup
import QueryTree.Proofs.Naming.World

/-!
Whose a generated name is, in every world that a run of operations leads to. A name belongs to one
number, and objects share a number only if they are copies that were made when it had its name.
-/

namespace QueryTree

open Registry (Grown Adds)

/-- An operation puts the query into a new object. It is the result of a step in building or of a
union, or the sub-select form in a derived table. -/
inductive Op.Makes (registry : Registry) : Op → Query → Prop
  | empty : Makes registry .newQuery (Query.empty.anew registry).1
  | step (q : Query) (s : BuildStep) : Makes registry (.build q s) ((q.build s).anew registry).1
  | union {op : SetOp} {left right q : Query} {last : Registry} :
      Query.union op left right registry = (.ok q, last) → Makes registry (.union op left right) q
  | derive (q : Query) (name : String) :
      Makes registry (.derive q name) (q.derive name registry).1.query

theorem Op.Makes.mem_objects {registry : Registry} {op : Op} {q : Query} (h : op.Makes registry q) :
    ⟨q, .built⟩ ∈ (op.run registry).objects := by
  cases h with
  | empty => exact List.mem_append_right _ (List.mem_singleton_self _)
  | step q s => exact List.mem_append_right _ (List.mem_singleton_self _)
  | @union op left right q last hunion =>
    rw [run, hunion]
    obtain ⟨-, hq⟩ := Query.union_ok_iff.mp hunion
    cases hq
    exact List.mem_append_right _ (List.mem_singleton_self _)
  | derive q name =>
    exact List.mem_append_left _ (List.mem_append_right _ (List.mem_singleton_self _))

theorem Copied.mono {objects more : List QueryObject} {n : String} {o first : QueryObject}
    (h : Copied objects n o first) (hmore : objects ⊆ more) : Copied more n o first := by
  induction h with
  | refl ho => exact .refl (hmore ho)
  | step ho horigin _ ih => exact .step (hmore ho) horigin ih

theorem QueryObject.exists_of_isFirst_eq_false {o : QueryObject} (h : o.isFirst = false) :
    ∃ original n, o.origin = .copied original (some n) := by
  unfold isFirst at h
  split at h
  next original n horigin => exact ⟨original, n, horigin⟩
  next => cases h

namespace Registry

/-- While objects come about, no number gets a name. -/
theorem Adds.grown {before after : Registry} {added : List QueryObject}
    (h : Adds before after added) (asked : Nat → Prop) : Grown asked before after :=
  ⟨h.issued, [], by rw [h.named, List.append_nil], by simp⟩

end Registry

namespace World

/-- Whatever can be read off a thing can be used like it. -/
theorem Has.parts {w : World} {x : Entity} (h : w.Has x) : ∀ y ∈ x.parts, w.Has y :=
  fun y hy q hq => h q (x.queries_parts y hy hq)

theorem Allows.knows {w : World} {op : Op} (h : w.Allows op) : ∀ q ∈ op.held, w.Knows q := by
  intro q hq
  obtain ⟨x, hx, hq⟩ := List.mem_flatMap.mp hq
  exact h x hx q hq

/-- Objects with numbers of their own come first. All others are copies of one of them, made from
an object that had its name. -/
structure Consistent (w : World) : Prop where
  sound : w.registry.Sound
  issued : ∀ o ∈ w.objects, o.query.id < w.registry.issued
  distinct : ((w.objects.filter QueryObject.isFirst).map (·.query.id)).Nodup
  founded : ∀ o ∈ w.objects, o.isFirst = true ∨ ∃ first ∈ w.objects, ∃ n,
    first.isFirst = true ∧ first.query.id = o.query.id ∧ w.name? o.query = some n ∧
      Copied w.objects n o first

theorem consistent_start : start.Consistent :=
  ⟨by simp [start, Registry.Sound], by simp [start], by simp [start], by simp [start]⟩

namespace Consistent

variable {w : World}

/-- Objects with numbers of their own are told apart by them. -/
theorem eq_of_id {o p : QueryObject} (h : w.Consistent) (ho : o ∈ w.objects) (hp : p ∈ w.objects)
    (hfirst : o.isFirst = true) (hfirst' : p.isFirst = true) (hid : o.query.id = p.query.id) :
    o = p :=
  List.inj_on_of_nodup_map h.distinct (List.mem_filter.mpr ⟨ho, hfirst⟩)
    (List.mem_filter.mpr ⟨hp, hfirst'⟩) hid

/-- Behind an object that has a name, or gets one, there is the one that the number was handed out
to. -/
theorem exists_first {o : QueryObject} {n : String} {asked : Nat → Prop} {last : Registry}
    (h : w.Consistent) (ho : o ∈ w.objects) (hlast : Grown asked w.registry last)
    (hname : last.name? o.query.id = some n) : ∃ first ∈ w.objects,
      first.isFirst = true ∧ first.query.id = o.query.id ∧ Copied w.objects n o first := by
  rcases h.founded o ho with hfirst | ⟨first, hmem, n', hfirst, hid, hname', hcopied⟩
  · exact ⟨o, ho, hfirst, rfl, .refl ho⟩
  · obtain rfl : n = n' := Option.some.inj (hname.symm.trans (hlast.name?_kept hname'))
    exact ⟨first, hmem, hfirst, hid, hcopied⟩

theorem isFirst_of_unnamed {o : QueryObject} (h : w.Consistent) (ho : o ∈ w.objects)
    (hname : w.name? o.query = none) : o.isFirst = true := by
  rcases h.founded o ho with hfirst | ⟨_, _, _, _, _, hname', _⟩
  · exact hfirst
  · rw [hname] at hname'
    cases hname'

/-- What an operation does if it is allowed. -/
theorem follows (h : w.Consistent) {op : Op} (hop : w.Allows op) :
    (op.run w.registry).Follows op.asks op.held w.registry := by
  refine op.follows fun q hq => ?_
  obtain ⟨o, ho, rfl⟩ := hop.knows q (op.asks_subset hq)
  exact h.issued o ho

theorem grown (h : w.Consistent) {op : Op} (hop : w.Allows op) :
    Grown (fun id => ∃ q ∈ op.asks, q.id = id) w.registry (w.after op).registry := by
  obtain ⟨between, hgrown, hadds⟩ := (h.follows hop).registry
  exact hgrown.trans (hadds.grown _)

/-- A new object either has a new number, which has no name, or it is the copy of an object with a
name. -/
theorem new_object (h : w.Consistent) {op : Op} (hop : w.Allows op) {o : QueryObject}
    (ho : o ∈ (op.run w.registry).objects) :
    (o.isFirst = true ∧ w.registry.issued ≤ o.query.id ∧
      o.query.id < (w.after op).registry.issued ∧ (w.after op).name? o.query = none) ∨
    ∃ original ∈ w.objects, ∃ n, o.origin = .copied original.query (some n) ∧
      o.query.id = original.query.id ∧ (w.after op).name? o.query = some n := by
  obtain ⟨⟨between, hgrown, hadds⟩, horigins, -⟩ := h.follows hop
  have hname : ∀ id, (w.after op).registry.name? id = between.name? id :=
    Registry.name?_congr hadds.named
  cases hfirst : o.isFirst with
  | true =>
    obtain ⟨hlow, hhigh⟩ := hadds.first o ho hfirst
    have hunnamed := (hgrown.sound h.sound).name?_eq_none hlow
    exact .inl ⟨rfl, Nat.le_trans hgrown.issued hlow, hhigh, (hname _).trans hunnamed⟩
  | false =>
    obtain ⟨original, n, horigin⟩ := QueryObject.exists_of_isFirst_eq_false hfirst
    obtain ⟨hid, hnamed⟩ := hadds.kept o ho original n horigin
    rcases horigins o ho with hbuilt | ⟨original', n?, hcopy, hheld⟩
    · rw [horigin] at hbuilt
      cases hbuilt
    · rw [horigin] at hcopy
      cases hcopy
      obtain ⟨p, hp, rfl⟩ := hop.knows _ hheld
      refine .inr ⟨p, hp, n, horigin, hid, ?_⟩
      rw [name?, hname, hid, hnamed]

/-- Every operation that is allowed leads from a consistent world to one. -/
theorem after (h : w.Consistent) {op : Op} (hop : w.Allows op) : (w.after op).Consistent := by
  have hgrown := h.grown hop
  have hold : w.objects ⊆ (w.after op).objects := List.subset_append_left _ _
  refine ⟨hgrown.sound h.sound, ?_, ?_, ?_⟩
  · refine List.forall_mem_append.mpr ⟨fun o ho => ?_, fun o ho => ?_⟩
    · exact Nat.lt_of_lt_of_le (h.issued o ho) hgrown.issued
    · rcases h.new_object hop ho with ⟨-, -, hhigh, -⟩ | ⟨original, horiginal, n, -, hid, -⟩
      · exact hhigh
      · rw [hid]
        exact Nat.lt_of_lt_of_le (h.issued original horiginal) hgrown.issued
  · obtain ⟨between, hbetween, hadds⟩ := (h.follows hop).registry
    rw [World.after, List.filter_append, List.map_append, List.nodup_append]
    refine ⟨h.distinct, hadds.distinct, fun id hid other hother => ?_⟩
    obtain ⟨o, ho, rfl⟩ := List.mem_map.mp hid
    obtain ⟨p, hp, rfl⟩ := List.mem_map.mp hother
    rw [List.mem_filter] at ho hp
    have hlow := Nat.lt_of_lt_of_le (h.issued o ho.1) hbetween.issued
    exact Nat.ne_of_lt (Nat.lt_of_lt_of_le hlow (hadds.first p hp.1 hp.2).1)
  · refine List.forall_mem_append.mpr ⟨fun o ho => ?_, fun o ho => ?_⟩
    · refine (h.founded o ho).imp_right ?_
      rintro ⟨first, hmem, n, hfirst, hid, hname, hcopied⟩
      exact ⟨first, hold hmem, n, hfirst, hid, hgrown.name?_kept hname, hcopied.mono hold⟩
    · rcases h.new_object hop ho with ⟨hfirst, -⟩ | ⟨original, horiginal, n, horigin, hid, hname⟩
      · exact .inl hfirst
      · have hname' := hname
        rw [name?, hid] at hname'
        obtain ⟨first, hmem, hfirst, hid', hcopied⟩ := h.exists_first horiginal hgrown hname'
        refine .inr ⟨first, hold hmem, n, hfirst, hid'.trans hid.symm, hname, ?_⟩
        exact .step (List.mem_append_right _ ho) horigin (hcopied.mono hold)

/-- An object that gets a name has been asked for it. -/
theorem asked_of_named (h : w.Consistent) {op : Op} (hop : w.Allows op) {o : QueryObject}
    (ho : o ∈ w.objects) {n : String} (hunnamed : w.name? o.query = none)
    (hname : (w.after op).name? o.query = some n) : o.query ∈ op.asks := by
  refine Classical.byContradiction fun hasked => ?_
  have hstill := (h.grown hop).name?_eq_none hunnamed ?_ (h.issued o ho)
  · rw [name?, hstill] at hname
    cases hname
  · rintro ⟨q, hq, hid⟩
    obtain ⟨p, hp, rfl⟩ := hop.knows q (op.asks_subset hq)
    have hfirst := h.isFirst_of_unnamed ho hunnamed
    rw [name?, ← hid] at hunnamed
    have hsame := h.eq_of_id hp ho (h.isFirst_of_unnamed hp hunnamed) hfirst hid
    rw [hsame] at hq
    exact hasked hq

/-- A query that has been put into a new object has no name. -/
theorem unnamed_of_makes (h : w.Consistent) {op : Op} (hop : w.Allows op) {q : Query}
    (hq : op.Makes w.registry q) : (w.after op).name? q = none := by
  rcases h.new_object hop hq.mem_objects with ⟨-, -, -, hname⟩ | ⟨_, _, _, horigin, _⟩
  · exact hname
  · cases horigin

/-- What an operation gives back can be given to the operations after it. -/
theorem has_results (h : w.Consistent) {op : Op} (hop : w.Allows op) :
    ∀ x ∈ (op.run w.registry).results, (w.after op).Has x := by
  refine (h.follows hop).results _ (fun q hq => ?_) fun o ho => ?_
  · obtain ⟨o, ho, hquery⟩ := hop.knows q hq
    exact ⟨o, List.mem_append_left _ ho, hquery⟩
  · exact ⟨o, List.mem_append_right _ ho, rfl⟩

end Consistent

/-! Whole runs. -/

namespace Leads

variable {w later : World}

theorem consistent (h : w.Leads later) (hw : w.Consistent) : later.Consistent := by
  induction h with
  | refl => exact hw
  | step _ hop ih => exact ih.after hop

theorem grown (h : w.Leads later) (hw : w.Consistent) :
    Grown (fun _ => True) w.registry later.registry := by
  induction h with
  | refl => exact .refl w.registry
  | step hrun hop ih =>
    have hstep := (hrun.consistent hw).grown hop
    exact ih.trans (hstep.mono fun _ _ => .inl trivial)

end Leads

/-- Objects that go by one name are copies of one object, made when it had that name. -/
theorem Consistent.exists_original {w : World} (h : w.Consistent) {o p : QueryObject} {n : String}
    (ho : o ∈ w.objects) (hp : p ∈ w.objects) (hname : w.name? o.query = some n)
    (hname' : w.name? p.query = some n) :
    ∃ first ∈ w.objects, Copied w.objects n o first ∧ Copied w.objects n p first := by
  have hrefl : Grown (fun _ => True) w.registry w.registry := .refl _
  obtain ⟨first, hmem, hfirst, hid, hcopied⟩ := h.exists_first ho hrefl hname
  obtain ⟨first', hmem', hfirst', hid', hcopied'⟩ := h.exists_first hp hrefl hname'
  have hnumber : o.query.id = p.query.id := Registry.eq_of_name? hname hname'
  obtain rfl : first = first' :=
    h.eq_of_id hmem hmem' hfirst hfirst' (hid.trans (hnumber.trans hid'.symm))
  exact ⟨first, hmem, hcopied, hcopied'⟩

end World

/-- In every run a name that is generated is a new one and stays with its query object. A query that
has been put into a new object has none until it is asked for it. So objects share a name only as
copies of one object, made when this had the name. -/
theorem World.generated_names {w : World} (h : start.Leads w) :
    (∀ id other n, w.registry.name? id = some n → w.registry.name? other = some n → id = other) ∧
    (∀ o ∈ w.objects, ∀ p ∈ w.objects, ∀ n, w.name? o.query = some n → w.name? p.query = some n →
      ∃ first ∈ w.objects, Copied w.objects n o first ∧ Copied w.objects n p first) ∧
    -- what one more operation does
    (∀ op, w.Allows op →
      (∀ q, op.Makes w.registry q → (w.after op).name? q = none) ∧
      (∀ o ∈ w.objects, ∀ n, w.name? o.query = none → (w.after op).name? o.query = some n →
        o.query ∈ op.asks) ∧
      ∀ x ∈ (op.run w.registry).results, (w.after op).Has x) ∧
    (∀ x, w.Has x → ∀ y ∈ x.parts, w.Has y) ∧
    (∀ q, (w.after (.internalName q)).name? q = some (q.internalName w.registry).1) ∧
    -- what is so however the run goes on
    ∀ later, w.Leads later →
      (∀ q n, w.name? q = some n → later.name? q = some n) ∧
      ∀ id n, w.registry.name? id = none → later.registry.name? id = some n →
        ∀ other, w.registry.name? other ≠ some n := by
  have hw : w.Consistent := h.consistent consistent_start
  refine ⟨?_, ?_, ?_, ?_, ?_, ?_⟩
  · exact fun id other n => Registry.eq_of_name?
  · exact fun o ho p hp n => hw.exists_original ho hp
  · intro op hop
    refine ⟨fun q => hw.unnamed_of_makes hop, ?_, hw.has_results hop⟩
    exact fun o ho n => hw.asked_of_named hop ho
  · exact fun x hx => hx.parts
  · exact fun q => Registry.name?_nameOf q.id w.registry
  · intro later hlater
    have hgrown := hlater.grown hw
    exact ⟨fun q n => hgrown.name?_kept, fun id n => hgrown.name?_ne⟩

namespace World

/-- A query without clauses, the first thing in a run. -/
def blank : Query :=
  (Query.empty.anew {}).1

/-- The query is asked for its name and then copied. -/
def namedCopy : World :=
  ((start.after .newQuery).after (.internalName blank)).after (.copy blank)

theorem has_blank {w : World} (h : ⟨blank, .built⟩ ∈ w.objects) :
    ∀ x ∈ [Entity.query blank], w.Has x := by
  rw [List.forall_mem_singleton]
  exact List.forall_mem_singleton.mpr ⟨_, h, rfl⟩

theorem leads_namedCopy : start.Leads namedCopy := by
  have hnew : start.Leads (start.after .newQuery) := .step .refl fun _ hx => nomatch hx
  have hnamed : start.Leads ((start.after .newQuery).after (.internalName blank)) :=
    .step hnew (has_blank List.mem_cons_self)
  exact .step hnamed (has_blank List.mem_cons_self)

/-- The query and its copy have one name, from one object. The sub-select form of the query has
none. -/
theorem generated_names_namedCopy :
    start.Leads namedCopy ∧
      (∃ first ∈ namedCopy.objects,
        Copied namedCopy.objects "_q1" ⟨blank, .built⟩ first ∧
        Copied namedCopy.objects "_q1" ⟨blank, .copied blank (some "_q1")⟩ first) ∧
      namedCopy.name? blank = some "_q1" ∧
      (namedCopy.after (.derive blank "d")).name?
        (blank.derive "d" namedCopy.registry).1.query = none := by
  obtain ⟨-, hshared, hnext, -⟩ := generated_names leads_namedCopy
  have hcopy : ⟨blank, .copied blank (some "_q1")⟩ ∈ namedCopy.objects :=
    List.mem_cons_of_mem _ List.mem_cons_self
  have hnext := hnext (.derive blank "d") (has_blank List.mem_cons_self)
  refine ⟨leads_namedCopy, ?_, rfl, hnext.1 _ (.derive blank "d")⟩
  exact hshared _ List.mem_cons_self _ hcopy "_q1" rfl rfl

end World

end QueryTree
