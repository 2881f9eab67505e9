import QueryTree.Proofs.Decimal.Whole
import QueryTree.Value.Json

/-!
Constants made of plain documents. A document becomes a constant exactly if no object occurs in it,
and the constant shows the document again, except that a whole number beyond 64 bits with sign has
become the nearest float.
-/

namespace QueryTree

namespace Json

/-- The document occurs in another one, at whatever depth. -/
inductive Within (d : Json) : Json → Prop where
  | self : d.Within d
  | item {x : Json} {items : List Json} (hx : x ∈ items) (h : d.Within x) : d.Within (.array items)
  | member {name : String} {x : Json} {members : List (String × Json)}
    (hx : (name, x) ∈ members) (h : d.Within x) : d.Within (.object members)

theorem within_array_iff {d : Json} {items : List Json} :
    d.Within (.array items) ↔ d = .array items ∨ ∃ x ∈ items, d.Within x := by
  constructor
  · intro h
    cases h with
    | self => exact Or.inl rfl
    | item hx h => exact Or.inr ⟨_, hx, h⟩
  · rintro (rfl | ⟨x, hx, h⟩)
    · exact .self
    · exact .item hx h

/-- What holds of all documents of a kind within an array holds of those within its items. -/
theorem forall_within_array_iff {α : Type} {kind : α → Json} {P : α → Prop} {items : List Json}
    (hkind : ∀ a, kind a ≠ .array items) :
    (∀ a, (kind a).Within (.array items) → P a) ↔ ∀ x ∈ items, ∀ a, (kind a).Within x → P a := by
  constructor
  · exact fun h x hx a ha => h a (.item hx ha)
  · intro h a ha
    rcases within_array_iff.mp ha with heq | ⟨x, hx, ha⟩
    · exact absurd heq (hkind a)
    · exact h x hx a ha

/-- No object occurs in the document. -/
def ObjectFree (j : Json) : Prop :=
  ∀ members, ¬(Json.object members).Within j

theorem objectFree_array_iff {items : List Json} :
    (Json.array items).ObjectFree ↔ ∀ x ∈ items, x.ObjectFree :=
  forall_within_array_iff fun _ => Json.noConfusion

theorem not_objectFree_object (members : List (String × Json)) :
    ¬(Json.object members).ObjectFree :=
  fun h => h members .self

/-- The whole numbers in the document are such as reading gives, with sign or without one within 64
bits. -/
def Ranged (j : Json) : Prop :=
  ∀ n, (Json.number (.int n)).Within j → -2 ^ 63 ≤ n ∧ n < 2 ^ 64

/-- A whole number within 64 bits with sign, or the nearest float. -/
def Number.bounded : Number → Number
  | .int n => if -2 ^ 63 ≤ n ∧ n < 2 ^ 63 then .int n else .float (Value.floatOfInt n)
  | .float x => .float x

/-- The number that is written. -/
def Number.value? : Number → Option ℚ
  | .int n => some n
  | .float x => Decimal.number? x

/-- A whole number from a text stays the number it is, or becomes the nearest multiple of 2048. -/
theorem Number.value?_bounded {n : Int} (hlow : -2 ^ 63 ≤ n) (hhigh : n < 2 ^ 64) :
    ∃ m : Int, (Number.int n).bounded.value? = some (m : ℚ) ∧ |m - n| ≤ 1024 ∧
      (m = n ↔ n < 2 ^ 63 ∨ 2048 ∣ n) := by
  by_cases hsmall : n < 2 ^ 63
  · refine ⟨n, ?_, by simp, iff_of_true rfl (Or.inl hsmall)⟩
    rw [Number.bounded, if_pos ⟨hlow, hsmall⟩, Number.value?]
  · obtain ⟨k, rfl⟩ := Int.eq_ofNat_of_zero_le (show 0 ≤ n by omega)
    obtain ⟨hleast, hmost, hexact⟩ := Decimal.roundHalfEven_near (n := k)
    have hfloat : Value.floatOfInt k = Decimal.nearest k 1 := by
      rw [Value.floatOfInt, if_neg (by omega), Int.natAbs_natCast]
    have hnearest := Decimal.number?_nearest (n := k) (by omega) (by omega)
    refine ⟨(2048 * Decimal.roundHalfEven k 2048 : Nat), ?_, abs_le.mpr (by omega), by omega⟩
    rw [Number.bounded, if_neg fun h => hsmall h.2, Number.value?, hfloat, hnearest]
    rfl

mutual

/-- The document with its whole numbers bounded. Objects have no constant and stay. -/
def bounded : Json → Json
  | .null => .null
  | .bool b => .bool b
  | .number n => .number n.bounded
  | .string s => .string s
  | .array items => .array (boundedItems items)
  | .object members => .object members

def boundedItems : List Json → List Json
  | [] => []
  | item :: rest => item.bounded :: boundedItems rest

end

end Json

namespace Value

mutual

/-- The plain document that a constant shows. Dates, times and UUIDs are of no plain kind. -/
def plain? : Value → Option Json
  | .null => some .null
  | .bool b => some (.bool b)
  | .int n => some (.number (.int n.toInt))
  | .float x => some (.number (.float x))
  | .text s => some (.string s)
  | .list items => (plainItems? items).map .array
  | .date _ => none
  | .dateTime _ => none
  | .time _ => none
  | .uuid _ => none

def plainItems? : List Value → Option (List Json)
  | [] => some []
  | item :: rest => do
    let document ← plain? item
    let documents ← plainItems? rest
    return document :: documents

end

theorem plain?_ofNumber (n : Json.Number) :
    (ofNumber n).plain? = some (.number n.bounded) := by
  cases n with
  | int n =>
    simp only [ofNumber, int64?, Nat.pow_eq, Nat.cast_pow, Nat.cast_ofNat, Json.Number.bounded]
    by_cases hn : -2 ^ 63 ≤ n ∧ n < 2 ^ 63
    · have hkept : (Int64.ofInt n).toInt = n := Int64.toInt_ofInt_of_le hn.1 hn.2
      rw [if_pos hn, if_pos hn]
      simp only [plain?, hkept]
    · rw [if_neg hn, if_neg hn]
      rfl
  | float x => rfl

mutual

/-- A document without objects becomes the constant that shows it; every other one fails by the
object in it. -/
theorem ofJson_cases : (j : Json) →
    (∃ v, ofJson j = .ok v ∧ v.plain? = some j.bounded ∧ j.ObjectFree) ∨
      (ofJson j = .error (.invalidBinding .nestedObject) ∧ ¬j.ObjectFree)
  | .null => Or.inl ⟨_, rfl, rfl, nofun⟩
  | .bool b => Or.inl ⟨_, rfl, rfl, nofun⟩
  | .number n => Or.inl ⟨_, rfl, plain?_ofNumber n, nofun⟩
  | .string s => Or.inl ⟨_, rfl, rfl, nofun⟩
  | .array items => by
    rw [ofJson, Json.objectFree_array_iff]
    rcases ofJsonItems_cases items with ⟨vs, hvs, hplain, hfree⟩ | ⟨herror, hfree⟩
    · refine Or.inl ⟨.list vs, by rw [hvs]; rfl, ?_, hfree⟩
      rw [plain?, hplain]
      rfl
    · exact Or.inr ⟨by rw [herror]; rfl, hfree⟩
  | .object members => Or.inr ⟨rfl, Json.not_objectFree_object members⟩

theorem ofJsonItems_cases : (items : List Json) →
    (∃ vs, ofJsonItems items = .ok vs ∧ plainItems? vs = some (Json.boundedItems items) ∧
        ∀ x ∈ items, x.ObjectFree) ∨
      (ofJsonItems items = .error (.invalidBinding .nestedObject) ∧ ¬∀ x ∈ items, x.ObjectFree)
  | [] => Or.inl ⟨[], rfl, rfl, by simp⟩
  | item :: rest => by
    rw [ofJsonItems, List.forall_mem_cons]
    rcases ofJson_cases item with ⟨v, hv, hplain, hfree⟩ | ⟨herror, hfree⟩
    · rcases ofJsonItems_cases rest with ⟨vs, hvs, hplains, hrest⟩ | ⟨herror, hrest⟩
      · refine Or.inl ⟨v :: vs, by rw [hv, hvs]; rfl, ?_, hfree, hrest⟩
        rw [plainItems?, hplain, hplains]
        rfl
      · exact Or.inr ⟨by rw [hv, herror]; rfl, fun h => hrest h.2⟩
    · exact Or.inr ⟨by rw [herror]; rfl, fun h => hfree h.1⟩

end

theorem exists_ofJson_iff {j : Json} : (∃ v, ofJson j = .ok v) ↔ j.ObjectFree := by
  rcases ofJson_cases j with ⟨v, hv, -, hfree⟩ | ⟨herror, hfree⟩
  · exact iff_of_true ⟨v, hv⟩ hfree
  · exact iff_of_false (fun ⟨v, hv⟩ => nomatch hv.symm.trans herror) hfree

theorem plain?_of_ofJson {j : Json} {v : Value} (h : ofJson j = .ok v) :
    v.plain? = some j.bounded := by
  rcases ofJson_cases j with ⟨v', hv', hplain, -⟩ | ⟨herror, -⟩
  · obtain rfl : v' = v := Except.ok.inj (hv'.symm.trans h)
    exact hplain
  · cases herror.symm.trans h

/-- There is no other error than that of an object. -/
theorem error_of_ofJson {j : Json} {e : QueryError} (h : ofJson j = .error e) :
    e = .invalidBinding .nestedObject := by
  rcases ofJson_cases j with ⟨v, hv, -, -⟩ | ⟨herror, -⟩
  · cases hv.symm.trans h
  · exact Except.error.inj (h.symm.trans herror)

end Value

namespace Json

theorem Number.bounded_eq_self_iff {n : Number} :
    n.bounded = n ↔ ∀ k, n = .int k → -2 ^ 63 ≤ k ∧ k < 2 ^ 63 := by
  cases n with
  | int n =>
    rw [Number.bounded]
    split <;> simp_all
  | float x => simp [Number.bounded]

mutual

/-- Nothing is bounded exactly if all whole numbers are within 64 bits with sign. -/
theorem bounded_eq_self_iff : (j : Json) → j.ObjectFree →
    (j.bounded = j ↔ ∀ n, (Json.number (.int n)).Within j → -2 ^ 63 ≤ n ∧ n < 2 ^ 63)
  | .null, _ => iff_of_true rfl nofun
  | .bool _, _ => iff_of_true rfl nofun
  | .number n, _ => by
    rw [bounded, number.injEq, Number.bounded_eq_self_iff]
    constructor
    · intro h k hk
      cases hk
      exact h k rfl
    · rintro h k rfl
      exact h k .self
  | .string _, _ => iff_of_true rfl nofun
  | .array items, hfree => by
    rw [bounded, array.injEq, boundedItems_eq_self_iff items (objectFree_array_iff.mp hfree)]
    exact (forall_within_array_iff fun _ => Json.noConfusion).symm
  | .object members, hfree => absurd hfree (not_objectFree_object members)

theorem boundedItems_eq_self_iff : (items : List Json) → (∀ x ∈ items, x.ObjectFree) →
    (boundedItems items = items ↔
      ∀ x ∈ items, ∀ n, (Json.number (.int n)).Within x → -2 ^ 63 ≤ n ∧ n < 2 ^ 63)
  | [], _ => by simp [boundedItems]
  | item :: rest, hfree => by
    obtain ⟨hitem, hrest⟩ := List.forall_mem_cons.mp hfree
    rw [boundedItems, List.cons.injEq, item.bounded_eq_self_iff hitem,
      boundedItems_eq_self_iff rest hrest, List.forall_mem_cons]

end

end Json

end QueryTree
