import QueryTree.Text.Uppercase

/-! What characters the upper case of a text is made of. A mark of ASCII, that is anything but its
letters and digits, is in it only where it is in the text. -/

namespace QueryTree.Text

/-- The code of a letter or digit of ASCII, or of a character beyond ASCII. -/
def IsUpperCode (code : Nat) : Prop :=
  code.isValidChar ∧ (128 ≤ code ∨ (Char.ofNat code).isAlphanum = true)

instance (code : Nat) : Decidable (IsUpperCode code) :=
  inferInstanceAs (Decidable (_ ∧ _))

/-- A run that maps to a single character, or to characters beyond ASCII none of which is a
surrogate. -/
def CaseRun.Sound (run : CaseRun) : Prop :=
  (run.first = run.last ∧ IsUpperCode (run.first + run.shift).toNat) ∨
    (128 ≤ run.first + run.shift ∧ (run.last + run.shift < 0xD800 ∨
      (0xDFFF < run.first + run.shift ∧ run.last + run.shift < 0x110000)))

instance (run : CaseRun) : Decidable run.Sound :=
  inferInstanceAs (Decidable (_ ∨ _))

theorem upperRuns_sound : ∀ run ∈ upperRuns, run.Sound := by
  decide +kernel

theorem upperExpansions_sound : ∀ entry ∈ upperExpansions, ∀ code ∈ entry.2, IsUpperCode code := by
  decide +kernel

theorem CaseRun.Sound.upper {run : CaseRun} (hrun : run.Sound) {code upper : Nat}
    (h : run.upper? code = some upper) : IsUpperCode upper := by
  unfold CaseRun.upper? at h
  split at h
  next hin =>
    obtain ⟨hfirst, hlast, -⟩ := hin
    cases h
    rcases hrun with ⟨hone, hcode⟩ | ⟨hlow, hvalid⟩
    · have : code = run.first := by omega
      rwa [this]
    · refine ⟨?_, Or.inl (by omega)⟩
      rcases hvalid with hbelow | ⟨habove, htop⟩
      · exact Or.inl (by omega)
      · exact Or.inr ⟨by omega, by omega⟩
  next => cases h

theorem toNat_ofNat_of_valid {code : Nat} (h : code.isValidChar) :
    (Char.ofNat code).toNat = code := by
  rw [Char.ofNat, dif_pos h]
  rfl

theorem IsUpperCode.char {code : Nat} (h : IsUpperCode code) :
    (Char.ofNat code).isAlphanum = true ∨ 128 ≤ (Char.ofNat code).toNat := by
  rw [toNat_ofNat_of_valid h.1]
  exact h.2.symm

theorem toUpper_of_ascii {c : Char} (h : c.toNat < 128) :
    c.toUpper = c ∨ c.toUpper.isAlphanum = true := by
  have hall : ∀ n : Fin 128, (Char.ofNat n).toUpper = Char.ofNat n ∨
      (Char.ofNat n).toUpper.isAlphanum = true := by decide +kernel
  simpa using hall ⟨c.toNat, h⟩

theorem mem_upperChar {c d : Char} (h : d ∈ upperChar c) :
    d = c ∨ d.isAlphanum = true ∨ 128 ≤ d.toNat := by
  by_cases hascii : c.toNat < 128
  · rw [upperChar_of_ascii hascii, List.mem_singleton] at h
    rcases toUpper_of_ascii hascii with hsame | halnum
    · exact Or.inl (h.trans hsame)
    · exact Or.inr (Or.inl (h ▸ halnum))
  · rw [upperChar, if_neg hascii] at h
    split at h
    next codes hcodes =>
      obtain ⟨code, hcode, rfl⟩ := List.mem_map.mp h
      obtain ⟨before, after, hentries, -⟩ := List.lookup_eq_some_iff.mp hcodes
      have hentry : (c.toNat, codes) ∈ upperExpansions := by simp [hentries]
      exact Or.inr (upperExpansions_sound _ hentry code hcode).char
    next code _ hcode =>
      rw [List.mem_singleton] at h
      obtain ⟨run, hrun, hupper⟩ := List.exists_of_findSome?_eq_some hcode
      exact Or.inr (h ▸ ((upperRuns_sound run hrun).upper hupper).char)
    next => exact Or.inl (List.mem_singleton.mp h)

/-- A mark of ASCII in the upper case of a text is one of the text. -/
theorem mem_of_mem_upper {text : String} {mark : Char} (hascii : mark.toNat < 128)
    (hmark : mark.isAlphanum = false) (h : mark ∈ (upper text).toList) : mark ∈ text.toList := by
  rw [upper, String.toList_ofList] at h
  obtain ⟨c, hc, hupper⟩ := List.mem_flatMap.mp h
  rcases mem_upperChar hupper with rfl | halnum | hbeyond
  · exact hc
  · rw [hmark] at halnum
    cases halnum
  · omega

end QueryTree.Text
