import QueryTree.Proofs.Bindings
import QueryTree.Proofs.Json.Reading

/-!
Bindings made of the text of an object. They bind the name of each member to the constant of its
last document, or fail if one of these has no constant.
-/

namespace QueryTree

namespace Json

theorem member?_eq_lookup (name : String) (members : List (String × Json)) :
    member? name members = members.reverse.lookup name := by
  induction members with
  | nil => rfl
  | cons member rest ih =>
    obtain ⟨other, value⟩ := member
    rw [member?, ih, List.reverse_cons, List.lookup_append, Keyed.lookup_cons]
    cases rest.reverse.lookup name with
    | some later => rfl
    | none => exact ite_congr (propext eq_comm) (fun _ => rfl) fun _ => rfl

/-- The text of an object with one member is read if that of the member is. -/
theorem ofText?_member {text : List Char} {d : Json}
    (h : ∀ fuel, document? 126 (fuel + 1) text = some (d, ['\x7d'])) :
    ofText? (String.ofList ("\x7b\"id\":".toList ++ text)) = some (.object [("id", d)]) := by
  have hmembers : ∀ fuel, members? 126 (fuel + 2) ("\"id\":".toList ++ text) =
      some ([("id", d)], []) := by
    intro fuel
    change (document? 126 (fuel + 1) text).bind _ = _
    rw [h, Option.bind_some]
    rfl
  have hobject : document? 127 (2 * ("\x7b\"id\":".toList ++ text).length + 2)
      ("\x7b\"id\":".toList ++ text) = some (.object [("id", d)], []) := by
    change (members? 126 (2 * text.length + 11 + 2) ("\"id\":".toList ++ text)).map _ = _
    rw [hmembers]
    rfl
  rw [ofText?, String.toList_ofList, hobject]
  rfl

/-- The greatest number of 64 bits is read as it is written. -/
theorem document?_allOnes (fuel : Nat) :
    document? 126 (fuel + 1) "18446744073709551615\x7d".toList =
      some (.number (.int 18446744073709551615), ['\x7d']) := by
  have hnumeral : numeral? "18446744073709551615\x7d".toList =
      some (⟨false, [1, 8, 4, 4, 6, 7, 4, 4, 0, 7, 3, 7, 0, 9, 5, 5, 1, 6, 1, 5], none, none⟩,
        ['\x7d']) := by cbv
  have hvalue : Numeral.value?
      ⟨false, [1, 8, 4, 4, 6, 7, 4, 4, 0, 7, 3, 7, 0, 9, 5, 5, 1, 6, 1, 5], none, none⟩ =
        some (.int 18446744073709551615) := by
    simp [Numeral.value?, Scaled.whole, Scaled.push?]
  have hread : ∀ rest, document? 126 (fuel + 1) ('1' :: rest) =
      (numeral? ('1' :: rest)).bind fun found =>
        found.1.value?.bind fun n => some (.number n, found.2) := fun _ => rfl
  simp only [String.reduceToList] at hnumeral ⊢
  rw [hread, hnumeral, Option.bind_some, hvalue, Option.bind_some]

theorem ofText?_allOnes : ofText? "\x7b\"id\":18446744073709551615\x7d" =
    some (.object [("id", .number (.int 18446744073709551615))]) := by
  have hread := ofText?_member document?_allOnes
  simpa only [← String.toList_append, String.ofList_toList, String.reduceAppend] using hread

end Json

namespace Bindings

/-- A list is converted item by item, up to the first item that fails. -/
theorem mapM_cases {α β ε : Type} (f : α → Except ε β) (xs : List α) :
    (∃ ys, xs.mapM f = .ok ys ∧ List.Forall₂ (fun x y => f x = .ok y) xs ys) ∨
      ∃ x ∈ xs, ∃ e, f x = .error e ∧ xs.mapM f = .error e := by
  induction xs with
  | nil => exact Or.inl ⟨[], rfl, .nil⟩
  | cons x rest ih =>
    rw [List.mapM_cons]
    cases hx : f x with
    | error e => exact Or.inr ⟨x, List.mem_cons_self, e, hx, rfl⟩
    | ok y =>
      rcases ih with ⟨ys, hys, hrest⟩ | ⟨x', hx', e, he, herror⟩
      · exact Or.inl ⟨y :: ys, by rw [hys]; rfl, .cons hx hrest⟩
      · exact Or.inr ⟨x', List.mem_cons_of_mem x hx', e, he, by rw [herror]; rfl⟩

theorem map_eq_map_of_forall₂ {α β γ : Type} {R : α → β → Prop} {xs : List α} {ys : List β}
    {g : α → γ} {h : β → γ} (hxs : List.Forall₂ R xs ys) (heq : ∀ x y, R x y → g x = h y) :
    xs.map g = ys.map h := by
  rw [← List.forall₂_eq_eq_eq, List.forall₂_map_left_iff, List.forall₂_map_right_iff]
  exact hxs.imp heq

/-- A member with the constant of its document. -/
def entry (member : String × Json) : Except QueryError (String × Value) :=
  (Value.ofJson member.2).map (member.1, ·)

theorem entry_ok_iff {member : String × Json} {bound : String × Value} :
    entry member = .ok bound ↔ member.1 = bound.1 ∧ Value.ofJson member.2 = .ok bound.2 := by
  rw [entry]
  cases Value.ofJson member.2 with
  | error e => simp [Except.map]
  | ok v => simp [Except.map, Prod.ext_iff]

theorem entry_error_iff {member : String × Json} {e : QueryError} :
    entry member = .error e ↔ Value.ofJson member.2 = .error e := by
  rw [entry]
  cases Value.ofJson member.2 <;> simp [Except.map]

/-- Either every name is bound to the constant of its last document, or one of these fails. -/
theorem ofObject_cases (members : List (String × Json)) :
    (∃ b, ofObject members = .ok b ∧
        (∀ key d, Json.member? key members = some d → ∃ v, Value.ofJson d = .ok v) ∧
        ∀ key v, b.get? key = some v ↔
          ∃ d, Json.member? key members = some d ∧ Value.ofJson d = .ok v) ∨
      ∃ key d e, Json.member? key members = some d ∧ Value.ofJson d = .error e ∧
        ofObject members = .error e := by
  have hmem : ∀ key d, Json.member? key members = some d ↔
      (key, d) ∈ (Keyed.ofList members).entries := by
    intro key d
    rw [Keyed.mem_ofList_iff, Json.member?_eq_lookup]
  rcases mapM_cases entry (Keyed.ofList members).entries with
    ⟨bound, hbound, heach⟩ | ⟨⟨key, d⟩, hd, e, he, herror⟩
  · have hnames : (Keyed.ofList members).entries.map Prod.fst = bound.map Prod.fst :=
      map_eq_map_of_forall₂ heach fun _ _ h => (entry_ok_iff.mp h).1
    have hconverted : (Keyed.ofList members).entries.map entry = bound.map .ok :=
      map_eq_map_of_forall₂ heach fun _ _ h => h
    refine Or.inl ⟨ofList bound, by rw [ofObject]; exact congrArg (· >>= _) hbound, ?_, ?_⟩
    · intro key d hd
      have hentry : entry (key, d) ∈ bound.map Except.ok :=
        hconverted ▸ List.mem_map_of_mem ((hmem key d).mp hd)
      obtain ⟨converted, -, h⟩ := List.mem_map.mp hentry
      exact ⟨converted.2, (entry_ok_iff.mp h.symm).2⟩
    · intro key v
      have hok : Function.Injective (Except.ok : String × Value → Except QueryError _) :=
        fun _ _ => Except.ok.inj
      change (Keyed.ofList bound).get? key = some v ↔ _
      rw [Keyed.get?_ofList_of_nodup (hnames ▸ Keyed.nodup_ofList members),
        ← List.mem_map_of_injective hok, ← hconverted, List.mem_map]
      simp [hmem, entry_ok_iff]
  · refine Or.inr ⟨key, d, e, (hmem key d).mpr hd, entry_error_iff.mp he, ?_⟩
    rw [ofObject]
    exact congrArg (· >>= _) herror

/-- The same for a text: it fails only by an object in one of the documents. -/
theorem ofJsonText_of_object {text : String} {members : List (String × Json)}
    (htext : Json.ofText? text = some (.object members)) :
    ((∃ b, ofJsonText text = .ok b) ↔
      ∀ key d, Json.member? key members = some d → ∃ v, Value.ofJson d = .ok v) ∧
    (∀ e, ofJsonText text = .error e → e = .invalidBinding .nestedObject) ∧
    ∀ b, ofJsonText text = .ok b → ∀ key v, b.get? key = some v ↔
      ∃ d, Json.member? key members = some d ∧ Value.ofJson d = .ok v := by
  have hread : ofJsonText text = ofObject members := by
    rw [ofJsonText, htext]
  rw [hread]
  rcases ofObject_cases members with ⟨b, hb, hall, hbinds⟩ | ⟨key, d, e, hd, he, herror⟩
  · refine ⟨iff_of_true ⟨b, hb⟩ hall, fun e he => (nomatch hb.symm.trans he), ?_⟩
    intro b' hb'
    obtain rfl : b = b' := Except.ok.inj (hb.symm.trans hb')
    exact hbinds
  · refine ⟨iff_of_false ?_ ?_, ?_, fun b hb => (nomatch herror.symm.trans hb)⟩
    · exact fun ⟨b, hb⟩ => nomatch herror.symm.trans hb
    · intro hall
      obtain ⟨v, hv⟩ := hall key d hd
      cases he.symm.trans hv
    · intro e' he'
      obtain rfl : e = e' := Except.error.inj (herror.symm.trans he')
      exact Value.error_of_ofJson he

/-- A document becomes a constant exactly if no object occurs in it. The constant shows the
document, with every whole number beyond 64 bits with sign as a float, which is the same number only
for a multiple of 2048. Bindings are made of a text exactly if every document in it becomes a
constant, and then bind these. -/
theorem documents_bound {j : Json} (hj : j.Ranged) {text : String}
    {members : List (String × Json)} (htext : Json.ofText? text = some (.object members)) :
    ((∃ v, Value.ofJson j = .ok v) ↔ j.ObjectFree) ∧
    (∀ e, Value.ofJson j = .error e → e = .invalidBinding .nestedObject) ∧
    (∀ v, Value.ofJson j = .ok v → v.plain? = some j.bounded ∧
      (v.plain? = some j ↔ ∀ n, (Json.number (.int n)).Within j → n < 2 ^ 63)) ∧
    (∀ n, (Json.number (.int n)).Within j →
      ∃ m : Int, (Json.Number.int n).bounded.value? = some (m : ℚ) ∧ |m - n| ≤ 1024 ∧
        (m = n ↔ n < 2 ^ 63 ∨ 2048 ∣ n)) ∧
    (∀ key d, Json.member? key members = some d → d.Ranged) ∧
    ((∃ b, ofJsonText text = .ok b) ↔
      ∀ key d, Json.member? key members = some d → ∃ v, Value.ofJson d = .ok v) ∧
    (∀ e, ofJsonText text = .error e → e = .invalidBinding .nestedObject) ∧
    ∀ b, ofJsonText text = .ok b → ∀ key v, b.get? key = some v ↔
      ∃ d, Json.member? key members = some d ∧ Value.ofJson d = .ok v := by
  refine ⟨Value.exists_ofJson_iff, fun _ => Value.error_of_ofJson, ?_, ?_, ?_,
    ofJsonText_of_object htext⟩
  · intro v hv
    have hplain := Value.plain?_of_ofJson hv
    have hfree := Value.exists_ofJson_iff.mp ⟨v, hv⟩
    refine ⟨hplain, ?_⟩
    rw [hplain, Option.some.injEq, j.bounded_eq_self_iff hfree]
    exact forall₂_congr fun n hn => and_iff_right (hj n hn).1
  · exact fun n hn => Json.Number.value?_bounded (hj n hn).1 (hj n hn).2
  · intro key d hd
    rw [Json.member?_eq_lookup] at hd
    obtain ⟨later, earlier, hsplit, -⟩ := List.lookup_eq_some_iff.mp hd
    have hmem : (key, d) ∈ members := by
      rw [← List.mem_reverse, hsplit]
      simp
    exact Json.ranged_object_iff.mp (Json.ranged_of_ofText? htext) (key, d) hmem

/-- The greatest number of 64 bits is bound as another one. -/
theorem documents_bound_allOnes :
    ∃ b v, ofJsonText "\x7b\"id\":18446744073709551615\x7d" = .ok b ∧
      b.get? "id" = some v ∧
      v.plain? = some (.number (Json.Number.int 18446744073709551615).bounded) ∧
      ∃ m : Int, (Json.Number.int 18446744073709551615).bounded.value? = some (m : ℚ) ∧
        m ≠ 18446744073709551615 := by
  have hranged : (Json.number (.int 18446744073709551615)).Ranged := by
    intro n hn
    cases hn
    omega
  obtain ⟨hconverts, -, hshown, hnumbers, -, hbound, -, hget⟩ :=
    documents_bound hranged Json.ofText?_allOnes
  obtain ⟨v, hv⟩ := hconverts.mpr nofun
  obtain ⟨m, hm, -, hexact⟩ := hnumbers _ .self
  have hmember : ∀ key d, Json.member? key
      [("id", Json.number (.int 18446744073709551615))] = some d →
        d = .number (.int 18446744073709551615) := by
    intro key d hd
    change (if "id" = key then some _ else none) = some d at hd
    rw [Option.ite_none_right_eq_some] at hd
    exact (Option.some.inj hd.2).symm
  obtain ⟨b, hb⟩ := hbound.mpr fun key d hd => ⟨v, hmember key d hd ▸ hv⟩
  refine ⟨b, v, hb, (hget b hb "id" v).mpr ⟨_, rfl, hv⟩, (hshown v hv).1, m, hm, ?_⟩
  exact fun h => absurd (hexact.mp h) (by omega)

end Bindings

end QueryTree
