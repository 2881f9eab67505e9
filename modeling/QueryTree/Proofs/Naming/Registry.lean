import QueryTree.Naming
import QueryTree.Proofs.Text.Words

/-!
What is in a registry, and what the steps that change it do to it. A name belongs to one number.
Neither a number nor a name is taken back, and a name goes to a number that it is asked for or to
one that is itself new.
-/

namespace QueryTree

theorem generatedName_inj {a b : Nat} : generatedName a = generatedName b ↔ a = b := by
  constructor
  · intro h
    have hdigits : toString (a + 1) = toString (b + 1) := (String.append_right_inj "_q").mp h
    have hnumbers : some (a + 1) = some (b + 1) := by
      rw [← Text.number?_nat, ← Text.number?_nat, hdigits]
    exact Nat.succ.inj (Option.some.inj hnumbers)
  · rintro rfl
    rfl

namespace Registry

/-- The name of a number, if it has one. -/
def name? (registry : Registry) (id : Nat) : Option String :=
  (registry.named.idxOf? id).map generatedName

/-- Only numbers that have been handed out have names. -/
def Sound (registry : Registry) : Prop :=
  ∀ id ∈ registry.named, id < registry.issued

variable {registry before between after : Registry} {id other : Nat} {n : String}

theorem name?_eq_none_iff : registry.name? id = none ↔ id ∉ registry.named := by
  rw [name?, Option.map_eq_none_iff, List.idxOf?_eq_none_iff]

/-- A name belongs to one number. -/
theorem eq_of_name? (h : registry.name? id = some n) (hother : registry.name? other = some n) :
    id = other := by
  obtain ⟨place, hplace, hn⟩ := Option.map_eq_some_iff.mp h
  obtain ⟨place', hplace', hn'⟩ := Option.map_eq_some_iff.mp hother
  obtain rfl : place = place' := generatedName_inj.mp (hn.trans hn'.symm)
  obtain ⟨_, hid, -⟩ := List.idxOf?_eq_some_iff.mp hplace
  obtain ⟨_, hother, -⟩ := List.idxOf?_eq_some_iff.mp hplace'
  exact hid.symm.trans hother

/-- A number that has not been handed out has no name. -/
theorem Sound.name?_eq_none (h : registry.Sound) (hid : registry.issued ≤ id) :
    registry.name? id = none := by
  rw [name?_eq_none_iff]
  intro hnamed
  exact absurd (h id hnamed) (Nat.not_lt.mpr hid)

/-- A number keeps its name where names are only added. -/
theorem name?_of_isPrefix (h : before.named <+: after.named) (hname : before.name? id = some n) :
    after.name? id = some n := by
  obtain ⟨added, hafter⟩ := h
  obtain ⟨place, hplace, rfl⟩ := Option.map_eq_some_iff.mp hname
  rw [List.idxOf?] at hplace
  rw [name?, ← hafter, List.idxOf?, List.findIdx?_append, hplace]
  rfl

/-- What becomes of a registry while names are asked for. -/
structure Grown (asked : Nat → Prop) (before after : Registry) : Prop where
  issued : before.issued ≤ after.issued
  named : ∃ added, after.named = before.named ++ added ∧
    ∀ id ∈ added, id < after.issued ∧ (asked id ∨ before.issued ≤ id)

namespace Grown

variable {asked asked' : Nat → Prop}

theorem refl (registry : Registry) : Grown asked registry registry :=
  ⟨Nat.le_refl _, [], by simp, by simp⟩

theorem trans (h : Grown asked before between) (hlater : Grown asked between after) :
    Grown asked before after := by
  obtain ⟨added, hbetween, hadded⟩ := h.named
  obtain ⟨more, hafter, hmore⟩ := hlater.named
  refine ⟨Nat.le_trans h.issued hlater.issued, added ++ more, ?_, ?_⟩
  · rw [hafter, hbetween, List.append_assoc]
  · rw [List.forall_mem_append]
    constructor
    · intro id hid
      obtain ⟨hissued, horigin⟩ := hadded id hid
      exact ⟨Nat.lt_of_lt_of_le hissued hlater.issued, horigin⟩
    · intro id hid
      obtain ⟨hissued, horigin⟩ := hmore id hid
      exact ⟨hissued, horigin.imp_right (Nat.le_trans h.issued)⟩

/-- Names may have been asked for more numbers, also for new ones. -/
theorem mono (h : Grown asked before after)
    (hasked : ∀ id, asked id → asked' id ∨ before.issued ≤ id) : Grown asked' before after := by
  obtain ⟨added, hafter, hadded⟩ := h.named
  refine ⟨h.issued, added, hafter, fun id hid => ?_⟩
  obtain ⟨hissued, horigin⟩ := hadded id hid
  exact ⟨hissued, horigin.elim (hasked id) .inr⟩

theorem sound (h : Grown asked before after) (hsound : before.Sound) : after.Sound := by
  obtain ⟨added, hafter, hadded⟩ := h.named
  rw [Sound, hafter, List.forall_mem_append]
  exact ⟨fun id hid => Nat.lt_of_lt_of_le (hsound id hid) h.issued, fun id hid => (hadded id hid).1⟩

theorem isPrefix (h : Grown asked before after) : before.named <+: after.named := by
  obtain ⟨added, hafter, -⟩ := h.named
  exact ⟨added, hafter.symm⟩

/-- A number keeps its name. -/
theorem name?_kept (h : Grown asked before after) (hname : before.name? id = some n) :
    after.name? id = some n :=
  name?_of_isPrefix h.isPrefix hname

/-- A number without a name still has none, unless it has been asked for one or is new. -/
theorem name?_eq_none (h : Grown asked before after) (hname : before.name? id = none)
    (hasked : ¬asked id) (hissued : id < before.issued) : after.name? id = none := by
  obtain ⟨added, hafter, hadded⟩ := h.named
  rw [name?_eq_none_iff] at hname ⊢
  rw [hafter, List.mem_append]
  rintro (hbefore | hid)
  · exact hname hbefore
  · exact (hadded id hid).2.elim hasked fun hnew => absurd hissued (Nat.not_lt.mpr hnew)

/-- A new name is none of those that there were. -/
theorem name?_ne (h : Grown asked before after) (hname : before.name? id = none)
    (hnew : after.name? id = some n) (other : Nat) : before.name? other ≠ some n := by
  intro hother
  have hsame := eq_of_name? hnew (h.name?_kept hother)
  rw [hsame, hother] at hname
  cases hname

end Grown

/-- Handing out a number leaves the names alone. -/
theorem grown_fresh (asked : Nat → Prop) (registry : Registry) :
    Grown asked registry (fresh registry).2 :=
  ⟨Nat.le_succ _, [], (List.append_nil _).symm, by simp⟩

theorem grown_nameOf (hid : id < registry.issued) :
    Grown (· = id) registry (nameOf id registry).2 := by
  unfold nameOf
  split
  · exact .refl registry
  · exact ⟨Nat.le_refl _, [id], rfl, by simpa using hid⟩

theorem isPrefix_nameOf (id : Nat) (registry : Registry) :
    registry.named <+: (nameOf id registry).2.named := by
  unfold nameOf
  split
  · exact List.prefix_rfl
  · exact List.prefix_append _ _

/-- The name that is given out is from then on the name of the number. -/
theorem name?_nameOf (id : Nat) (registry : Registry) :
    (nameOf id registry).2.name? id = some (nameOf id registry).1 := by
  unfold nameOf
  split
  next place hplace => rw [name?, hplace]; rfl
  next hnone =>
    rw [name?, List.idxOf?, List.findIdx?_append]
    rw [List.idxOf?] at hnone
    simp [hnone]

/-- A number with a name is given this one, and nothing changes. -/
theorem nameOf_of_name? (h : registry.name? id = some n) : nameOf id registry = (n, registry) := by
  obtain ⟨place, hplace, rfl⟩ := Option.map_eq_some_iff.mp h
  rw [nameOf, hplace]

theorem issued_nameOf (id : Nat) (registry : Registry) :
    (nameOf id registry).2.issued = registry.issued := by
  unfold nameOf
  split <;> rfl

theorem mem_named_of_nameOf (h : other ∈ (nameOf id registry).2.named) :
    other ∈ registry.named ∨ other = id := by
  unfold nameOf at h
  split at h
  · exact .inl h
  · rwa [List.mem_append, List.mem_singleton] at h

/-- A copy of a number with a name is that number. Otherwise it is a new one. -/
theorem copyOf_cases (id : Nat) (registry : Registry) :
    (∃ n, registry.name? id = some n) ∧ copyOf id registry = (id, registry) ∨
      registry.name? id = none ∧ copyOf id registry = fresh registry := by
  unfold copyOf
  by_cases hnamed : id ∈ registry.named
  · rw [if_pos (List.contains_iff_mem.mpr hnamed)]
    refine .inl ⟨Option.ne_none_iff_exists'.mp ?_, rfl⟩
    rw [Ne, name?_eq_none_iff]
    exact fun hunnamed => hunnamed hnamed
  · rw [if_neg (by simpa using hnamed)]
    exact .inr ⟨name?_eq_none_iff.mpr hnamed, rfl⟩

end Registry

end QueryTree
