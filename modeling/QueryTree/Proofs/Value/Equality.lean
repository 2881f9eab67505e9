import QueryTree.Value.Basic

/-! Equality of constants is symmetric and transitive. For a NaN it is not reflexive. -/

namespace QueryTree

open Float.Model (UnpackedFloat)

theorem compare_finite_eq_iff {s t : UnpackedFloat.Sign} {m n : Nat} {e f : Int} {h : 0 < m}
    {h' : 0 < n} :
    (UnpackedFloat.finite s m e h).compare (.finite t n f h') = some .eq ↔
      s = t ∧ e = f ∧ m = n := by
  have hsame : (compare e f).then (compare m n) = .eq ↔ e = f ∧ m = n := by
    rw [Ordering.then_eq_eq, Int.compare_eq_eq, Nat.compare_eq_eq]
  cases s with
  | positive =>
    cases t with
    | positive =>
      change some ((compare e f).then (compare m n)) = some .eq ↔ _
      simp [hsame]
    | negative =>
      change some Ordering.gt = some .eq ↔ _
      simp
  | negative =>
    cases t with
    | positive =>
      change some Ordering.lt = some .eq ↔ _
      simp
    | negative =>
      change some ((compare e f).then (compare m n)).swap = some .eq ↔ _
      simp [hsame]

/-- Numbers of different kinds that do not compare as equal are not equal either. -/
theorem compare_unlike {a b : UnpackedFloat} (hkind : a.ctorIdx ≠ b.ctorIdx)
    (hcompare : a.compare b ≠ some .eq) :
    a.compare b = some .eq ↔
      (∃ s t, a = .zero s ∧ b = .zero t) ∨ (a ≠ .notANumber ∧ a = b) := by
  refine iff_of_false hcompare ?_
  rintro (⟨s, t, rfl, rfl⟩ | ⟨-, rfl⟩)
  · exact hkind rfl
  · exact hkind rfl

/-- Two numbers are equal if both are zeros, of whatever sign, or if they are the same and no
NaN. -/
theorem compare_eq_iff {a b : UnpackedFloat} :
    a.compare b = some .eq ↔
      (∃ s t, a = .zero s ∧ b = .zero t) ∨ (a ≠ .notANumber ∧ a = b) := by
  cases a with
  | notANumber =>
    change none = some Ordering.eq ↔ _
    simp
  | infinity s =>
    cases b with
    | infinity t =>
      change some (compare s t) = some .eq ↔ _
      cases s <;> cases t <;> simp <;> decide
    | _ => cases s <;> exact compare_unlike (Nat.ne_of_beq_eq_false rfl) (by rintro ⟨⟩)
  | zero s =>
    cases b with
    | zero t => exact iff_of_true rfl (Or.inl ⟨s, t, rfl, rfl⟩)
    | notANumber => exact compare_unlike (Nat.ne_of_beq_eq_false rfl) (by rintro ⟨⟩)
    | _ t => cases t <;> exact compare_unlike (Nat.ne_of_beq_eq_false rfl) (by rintro ⟨⟩)
  | finite s m e h =>
    cases b with
    | infinity t =>
      cases s <;> cases t <;> exact compare_unlike (Nat.ne_of_beq_eq_false rfl) (by rintro ⟨⟩)
    | finite t n f h' =>
      rw [compare_finite_eq_iff]
      constructor
      · rintro ⟨rfl, rfl, rfl⟩
        refine Or.inr ⟨?_, rfl⟩
        rintro ⟨⟩
      · rintro (⟨_, _, hzero, -⟩ | ⟨-, hsame⟩)
        · cases hzero
        · cases hsame
          exact ⟨rfl, rfl, rfl⟩
    | _ => cases s <;> exact compare_unlike (Nat.ne_of_beq_eq_false rfl) (by rintro ⟨⟩)

theorem float_beq_iff {a b : Float} :
    (a == b) = true ↔ a.toModel.unpack.compare b.toModel.unpack = some .eq := by
  change (a.toModel.unpack.compare b.toModel.unpack == some .eq) = true ↔ _
  exact beq_iff_eq

instance instPartialEquivBEqFloat : PartialEquivBEq Float where
  symm h := by
    rw [float_beq_iff, compare_eq_iff] at *
    rcases h with ⟨s, t, ha, hb⟩ | ⟨hnumber, hab⟩
    · exact Or.inl ⟨t, s, hb, ha⟩
    · exact Or.inr ⟨hab ▸ hnumber, hab.symm⟩
  trans hab hbc := by
    rw [float_beq_iff, compare_eq_iff] at *
    rcases hab with ⟨s, t, ha, hb⟩ | ⟨hnumber, hab⟩
    · rcases hbc with ⟨_, u, -, hc⟩ | ⟨-, hbc⟩
      · exact Or.inl ⟨s, u, ha, hc⟩
      · exact Or.inl ⟨s, t, ha, hbc ▸ hb⟩
    · rw [hab]
      rw [hab] at hnumber
      rcases hbc with hzero | ⟨-, hbc⟩
      · exact Or.inl hzero
      · exact Or.inr ⟨hnumber, hbc⟩

namespace Value

mutual

theorem same_comm : (a b : Value) → a.same b = b.same a
  | .null, b => by cases b <;> rfl
  | .bool a, b => by
    cases b with
    | bool b => exact BEq.comm
    | _ => rfl
  | .int a, b => by
    cases b with
    | int b => exact BEq.comm
    | _ => rfl
  | .float x, b => by
    cases b with
    | float y => exact BEq.comm
    | _ => rfl
  | .text s, b => by
    cases b with
    | text t => exact BEq.comm
    | _ => rfl
  | .date d, b => by
    cases b with
    | date e => exact BEq.comm
    | _ => rfl
  | .dateTime t, b => by
    cases b with
    | dateTime u => exact BEq.comm
    | _ => rfl
  | .time t, b => by
    cases b with
    | time u => exact BEq.comm
    | _ => rfl
  | .uuid u, b => by
    cases b with
    | uuid v => exact BEq.comm
    | _ => rfl
  | .list as, b => by
    cases b with
    | list bs => exact sameItems_comm as bs
    | _ => rfl

theorem sameItems_comm : (as bs : List Value) → sameItems as bs = sameItems bs as
  | [], bs => by cases bs <;> rfl
  | a :: as, [] => rfl
  | a :: as, b :: bs => by rw [sameItems, sameItems, same_comm a b, sameItems_comm as bs]

end

mutual

theorem same_trans : (a b c : Value) → a.same b = true → b.same c = true → a.same c = true
  | .null, b, c, hab, hbc => by
    cases b with
    | null => exact hbc
    | _ => cases hab
  | .bool _, b, c, hab, hbc => by
    cases b with
    | bool _ =>
      cases c with
      | bool _ => exact BEq.trans hab hbc
      | _ => cases hbc
    | _ => cases hab
  | .int _, b, c, hab, hbc => by
    cases b with
    | int _ =>
      cases c with
      | int _ => exact BEq.trans hab hbc
      | _ => cases hbc
    | _ => cases hab
  | .float _, b, c, hab, hbc => by
    cases b with
    | float _ =>
      cases c with
      | float _ => exact BEq.trans hab hbc
      | _ => cases hbc
    | _ => cases hab
  | .text _, b, c, hab, hbc => by
    cases b with
    | text _ =>
      cases c with
      | text _ => exact BEq.trans hab hbc
      | _ => cases hbc
    | _ => cases hab
  | .date _, b, c, hab, hbc => by
    cases b with
    | date _ =>
      cases c with
      | date _ => exact BEq.trans hab hbc
      | _ => cases hbc
    | _ => cases hab
  | .dateTime _, b, c, hab, hbc => by
    cases b with
    | dateTime _ =>
      cases c with
      | dateTime _ => exact BEq.trans hab hbc
      | _ => cases hbc
    | _ => cases hab
  | .time _, b, c, hab, hbc => by
    cases b with
    | time _ =>
      cases c with
      | time _ => exact BEq.trans hab hbc
      | _ => cases hbc
    | _ => cases hab
  | .uuid _, b, c, hab, hbc => by
    cases b with
    | uuid _ =>
      cases c with
      | uuid _ => exact BEq.trans hab hbc
      | _ => cases hbc
    | _ => cases hab
  | .list as, b, c, hab, hbc => by
    cases b with
    | list bs =>
      cases c with
      | list cs => exact sameItems_trans as bs cs hab hbc
      | _ => cases hbc
    | _ => cases hab

theorem sameItems_trans : (as bs cs : List Value) → sameItems as bs = true →
    sameItems bs cs = true → sameItems as cs = true
  | [], [], _, _, hbc => hbc
  | a :: as, b :: bs, c :: cs, hab, hbc => by
    rw [sameItems, Bool.and_eq_true] at *
    exact ⟨same_trans a b c hab.1 hbc.1, sameItems_trans as bs cs hab.2 hbc.2⟩

end

end Value

instance : PartialEquivBEq Value where
  symm h := (Value.same_comm _ _).trans h
  trans := Value.same_trans _ _ _

end QueryTree
