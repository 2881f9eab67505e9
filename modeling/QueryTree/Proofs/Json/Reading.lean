import QueryTree.Json.Reader
import QueryTree.Proofs.Value.Documents

/-!
The whole numbers of a document that has been read. They are within 64 bits, with a sign or without
one; longer numbers have been read as floats.
-/

namespace QueryTree.Json

theorem Scaled.significand_whole_lt {s : Scaled} (h : s.significand < 2 ^ 64) (digits : List Nat) :
    (s.whole digits).significand < 2 ^ 64 := by
  induction digits generalizing s with
  | nil => exact h
  | cons d rest ih =>
    rw [Scaled.whole]
    split
    next next_ hnext =>
      refine ih ?_
      rw [Scaled.push?] at hnext
      split at hnext
      next hlt => cases hnext; exact hlt
      next => cases hnext
    next => exact h

theorem Numeral.range_of_value? {n : Numeral} {k : Int} (h : n.value? = some (.int k)) :
    -2 ^ 63 ≤ k ∧ k < 2 ^ 64 := by
  have hlt := Scaled.significand_whole_lt (s := ⟨0, 0⟩) (by decide) n.whole
  have hfloat : ∀ {x : Option Float} {f : Float → Number}, (∀ y, f y ≠ .int k) →
      x.map f ≠ some (.int k) := by
    intro x f hf hx
    obtain ⟨y, -, hy⟩ := Option.map_eq_some_iff.mp hx
    exact hf y hy
  rw [Numeral.value?] at h
  dsimp only at h
  split at h
  · split at h
    next => exact absurd h (hfloat nofun)
    next =>
      split at h
      next =>
        cases h
        omega
      next =>
        split at h
        next => cases h
        next hsmall =>
          cases h
          simp only [Nat.pow_eq] at hsmall
          omega
  · exact absurd h (hfloat nofun)

theorem ranged_array_iff {items : List Json} :
    (Json.array items).Ranged ↔ ∀ x ∈ items, x.Ranged :=
  forall_within_array_iff fun _ => Json.noConfusion

theorem ranged_object_iff {members : List (String × Json)} :
    (Json.object members).Ranged ↔ ∀ m ∈ members, m.2.Ranged := by
  constructor
  · intro h m hm n hn
    exact h n (.member hm hn)
  · intro h n hn
    cases hn with
    | member hx hn => exact h _ hx n hn

/-- What all readers read with so much fuel is ranged. -/
structure ReadsRanged (fuel : Nat) : Prop where
  document {depth : Nat} {text rest : List Char} {j : Json}
    (h : document? depth fuel text = some (j, rest)) : j.Ranged
  items {depth : Nat} {text rest : List Char} {items : List Json}
    (h : items? depth fuel text = some (items, rest)) : ∀ x ∈ items, x.Ranged
  members {depth : Nat} {text rest : List Char} {members : List (String × Json)}
    (h : members? depth fuel text = some (members, rest)) : ∀ m ∈ members, m.2.Ranged

namespace ReadsRanged

variable {fuel depth : Nat} {text rest : List Char}

theorem document_succ (ih : ReadsRanged fuel) {j : Json}
    (h : document? depth (fuel + 1) text = some (j, rest)) : j.Ranged := by
  rw [document?] at h
  split at h
  case h_1 =>
    split at h
    · cases h
    · split at h
      · cases h
        exact ranged_array_iff.mpr (List.forall_mem_nil _)
      · obtain ⟨⟨items, after⟩, hitems, hj⟩ := Option.map_eq_some_iff.mp h
        cases hj
        exact ranged_array_iff.mpr (ih.items hitems)
  case h_2 =>
    split at h
    · cases h
    · split at h
      · cases h
        exact ranged_object_iff.mpr (List.forall_mem_nil _)
      · obtain ⟨⟨members, after⟩, hmembers, hj⟩ := Option.map_eq_some_iff.mp h
        cases hj
        exact ranged_object_iff.mpr (ih.members hmembers)
  case h_7 =>
    obtain ⟨⟨numeral, after⟩, -, h⟩ := Option.bind_eq_some_iff.mp h
    obtain ⟨number, hnumber, hj⟩ := Option.bind_eq_some_iff.mp h
    cases hj
    intro n hn
    cases hn
    exact Numeral.range_of_value? hnumber
  all_goals
    obtain ⟨_, -, hj⟩ := Option.map_eq_some_iff.mp h
    cases hj
    intro n hn
    cases hn

theorem items_succ (ih : ReadsRanged fuel) {items : List Json}
    (h : items? depth (fuel + 1) text = some (items, rest)) : ∀ x ∈ items, x.Ranged := by
  rw [items?] at h
  obtain ⟨⟨item, after⟩, hitem, h⟩ := Option.bind_eq_some_iff.mp h
  dsimp only at h
  split at h
  · obtain ⟨⟨more, behind⟩, hmore, hitems⟩ := Option.bind_eq_some_iff.mp h
    cases hitems
    exact List.forall_mem_cons.mpr ⟨ih.document hitem, ih.items hmore⟩
  · cases h
    exact List.forall_mem_cons.mpr ⟨ih.document hitem, List.forall_mem_nil _⟩
  · cases h

theorem members_succ (ih : ReadsRanged fuel) {members : List (String × Json)}
    (h : members? depth (fuel + 1) text = some (members, rest)) :
    ∀ m ∈ members, m.2.Ranged := by
  rw [members?] at h
  split at h
  case h_2 => cases h
  obtain ⟨⟨name, after⟩, -, h⟩ := Option.bind_eq_some_iff.mp h
  dsimp only at h
  split at h
  case h_2 => cases h
  obtain ⟨⟨value, behind⟩, hvalue, h⟩ := Option.bind_eq_some_iff.mp h
  dsimp only at h
  split at h
  · obtain ⟨⟨more, last⟩, hmore, hmembers⟩ := Option.bind_eq_some_iff.mp h
    cases hmembers
    exact List.forall_mem_cons.mpr ⟨ih.document hvalue, ih.members hmore⟩
  · cases h
    exact List.forall_mem_cons.mpr ⟨ih.document hvalue, List.forall_mem_nil _⟩
  · cases h

end ReadsRanged

theorem readsRanged (fuel : Nat) : ReadsRanged fuel := by
  induction fuel with
  | zero => exact ⟨nofun, nofun, nofun⟩
  | succ fuel ih => exact ⟨ih.document_succ, ih.items_succ, ih.members_succ⟩

/-- The whole numbers of a text are within 64 bits. -/
theorem ranged_of_ofText? {text : String} {j : Json} (h : ofText? text = some j) : j.Ranged := by
  rw [ofText?] at h
  split at h
  next document rest hread =>
    split at h
    · cases h
      exact (readsRanged _).document hread
    · cases h
  next => cases h

end QueryTree.Json
