import QueryTree.Proofs.Text.Uppercase

/-!
The words that a text of SQL is cut into: names and numbers. Each of them ends where the next
character cannot belong to it.
-/

namespace QueryTree.Text

/-- The letters and digits of ASCII and the underscore. -/
def isNamePart (c : Char) : Bool :=
  c.isAlphanum || c = '_'

/-- A name of letters, digits and underscores that does not start with a digit. -/
def isIdentifier (name : String) : Bool :=
  match name.toList with
  | [] => false
  | first :: rest => !first.isDigit && (first :: rest).all isNamePart

/-- A run of letters, digits and underscores. -/
structure IsWord (cs : List Char) : Prop where
  ne_nil : cs ≠ []
  parts : ∀ c ∈ cs, isNamePart c = true

instance (cs : List Char) : Decidable (IsWord cs) :=
  decidable_of_iff (cs ≠ [] ∧ cs.all isNamePart = true)
    ⟨fun h => ⟨h.1, List.all_eq_true.mp h.2⟩, fun h => ⟨h.1, List.all_eq_true.mpr h.2⟩⟩

theorem isWord_of_isIdentifier {name : String} (h : isIdentifier name = true) :
    IsWord name.toList := by
  unfold isIdentifier at h
  split at h
  next => cases h
  next first rest hname =>
    rw [Bool.and_eq_true, List.all_eq_true] at h
    rw [hname]
    exact ⟨List.cons_ne_nil _ _, h.2⟩

theorem toNat_lt_of_isAlphanum {c : Char} (h : c.isAlphanum = true) : c.toNat < 128 := by
  have hbelow : c.val ≤ 'z'.val := by
    rcases (Bool.or_eq_true _ _).mp h with halpha | hdigit
    · rcases (Bool.or_eq_true _ _).mp halpha with hupper | hlower
      · exact UInt32.le_trans (of_decide_eq_true hupper).2 (by decide)
      · exact of_decide_eq_true ((Bool.and_eq_true _ _).mp hlower).2
    · exact UInt32.le_trans (of_decide_eq_true ((Bool.and_eq_true _ _).mp hdigit).2) (by decide)
  exact Nat.lt_of_le_of_lt (UInt32.le_iff_toNat_le.mp hbelow) (by decide)

theorem isNamePart_toUpper {c : Char} (h : isNamePart c = true) :
    c.toNat < 128 ∧ isNamePart c.toUpper = true := by
  have hascii : c.toNat < 128 := by
    rw [isNamePart, Bool.or_eq_true, decide_eq_true_eq] at h
    rcases h with halphanum | rfl
    · exact toNat_lt_of_isAlphanum halphanum
    · decide
  have hall : ∀ n : Fin 128, isNamePart (Char.ofNat n) = true →
      isNamePart (Char.ofNat n).toUpper = true := by decide +kernel
  exact ⟨hascii, by simpa using hall ⟨c.toNat, hascii⟩ (by simpa using h)⟩

theorem toList_upper_of_ascii {text : String} (h : ∀ c ∈ text.toList, c.toNat < 128) :
    (Text.upper text).toList = text.toList.map Char.toUpper := by
  rw [Text.upper, String.toList_ofList]
  generalize text.toList = cs at h
  induction cs with
  | nil => rfl
  | cons c cs ih =>
    rw [List.forall_mem_cons] at h
    rw [List.flatMap_cons, upperChar_of_ascii h.1, ih h.2]
    rfl

/-- A word stays one in upper case. -/
theorem IsWord.upper {name : String} (h : IsWord name.toList) :
    IsWord (Text.upper name).toList := by
  rw [toList_upper_of_ascii fun c hc => (isNamePart_toUpper (h.parts c hc)).1]
  refine ⟨by simpa using h.ne_nil, fun c hc => ?_⟩
  obtain ⟨d, hd, rfl⟩ := List.mem_map.mp hc
  exact (isNamePart_toUpper (h.parts d hd)).2

/-- The word that a text starts with, and what follows it. -/
def cutWord (cs : List Char) : List Char × List Char :=
  (cs.takeWhile isNamePart, cs.dropWhile isNamePart)

/-- A text that no word goes on in. -/
def EndsWord (cs : List Char) : Prop :=
  ∀ c ∈ cs.head?, isNamePart c = false

theorem cutWord_of_endsWord {cs : List Char} (h : EndsWord cs) : cutWord cs = ([], cs) := by
  cases cs with
  | nil => rfl
  | cons c cs =>
    have hc : isNamePart c = false := h c rfl
    simp [cutWord, hc]

/-- No word goes on with a sign. -/
theorem endsWord_of_sign {c : Char} (hc : isNamePart c = false) (rest : List Char) :
    EndsWord (c :: rest) := by
  rintro _ ⟨⟩
  exact hc

theorem cutWord_of_sign {c : Char} (hc : isNamePart c = false) (rest : List Char) :
    cutWord (c :: rest) = ([], c :: rest) :=
  cutWord_of_endsWord (endsWord_of_sign hc rest)

theorem cutWord_append {word rest : List Char} (hword : ∀ c ∈ word, isNamePart c = true)
    (hrest : EndsWord rest) : cutWord (word ++ rest) = (word, rest) := by
  obtain ⟨htake, hdrop⟩ := Prod.mk.inj (cutWord_of_endsWord hrest)
  rw [cutWord, List.takeWhile_append_of_pos hword, List.dropWhile_append_of_pos hword, htake, hdrop,
    List.append_nil]

/-- Words are told apart from what stands behind them. -/
theorem IsWord.append_inj {word word' rest rest' : List Char} (hword : IsWord word)
    (hword' : IsWord word') (hrest : EndsWord rest) (hrest' : EndsWord rest')
    (h : word ++ rest = word' ++ rest') : word = word' ∧ rest = rest' := by
  have hcut := cutWord_append hword.parts hrest
  rw [h, cutWord_append hword'.parts hrest'] at hcut
  obtain ⟨rfl, rfl⟩ := Prod.mk.inj hcut
  exact ⟨rfl, rfl⟩

/-- The number that a run of digits spells. -/
def number? (cs : List Char) : Option Nat :=
  if cs.all Char.isDigit then some (Nat.ofDigitChars 10 cs 0) else none

theorem isDigit_of_mem_nat {n : Nat} {c : Char} (h : c ∈ (toString n).toList) :
    c.isDigit = true := by
  rw [Nat.toString_eq_repr, Nat.toList_repr] at h
  exact Nat.isDigit_of_mem_toDigits (by decide) (by decide) h

/-- A number is no word with a letter in it. -/
theorem toList_nat_ne {n : Nat} {word : List Char} {c : Char} (hc : c ∈ word)
    (hletter : c.isDigit = false) : (toString n).toList ≠ word := by
  rintro rfl
  rw [isDigit_of_mem_nat hc] at hletter
  cases hletter

theorem isWord_nat (n : Nat) : IsWord (toString n).toList := by
  refine ⟨?_, fun c hc => ?_⟩
  · rw [Nat.toString_eq_repr, Nat.toList_repr]
    exact Nat.toDigits_ne_nil
  · simp [isNamePart, Char.isAlphanum, isDigit_of_mem_nat hc]

theorem number?_nat (n : Nat) : number? (toString n).toList = some n := by
  have hdigits : (toString n).toList.all Char.isDigit = true :=
    List.all_eq_true.mpr fun _ hc => isDigit_of_mem_nat hc
  rw [number?, if_pos hdigits, Nat.toString_eq_repr, Nat.toList_repr,
    Nat.ofDigitChars_toDigits (by decide) (by decide)]

theorem toList_int (n : Int) :
    (toString n).toList = (if n < 0 then ['-'] else []) ++ (toString n.natAbs).toList := by
  rw [Int.toString_eq_repr, Int.repr_eq_if]
  split
  next h =>
    have hneg : ¬n < 0 := by omega
    have habs : n.toNat = n.natAbs := by omega
    simp [hneg, habs]
  next h =>
    have hneg : n < 0 := by omega
    have habs : (-n).toNat = n.natAbs := by omega
    simp [hneg, habs]

end QueryTree.Text
