import Mathlib
import QueryTree.Decimal.Binary

/-!
The number behind a float. A normal number is decoded from its bits, and of the whole numbers with
64 binary digits the nearest float is the nearest multiple of 2048.
-/

namespace QueryTree.Decimal

open Float.Model (Format)
open Float.Model.UnpackedFloat

/-- The bits of a finite number are kept. -/
theorem toBits_ofBits {bits : UInt64} (hlt : bits.toNat / 2 ^ 52 % 2 ^ 11 < 2047) :
    (Float.ofBits bits).toBits = bits := by
  have hfield : (@unpackExponent Format.binary64 bits.toBitVec).toNat =
      bits.toNat / 2 ^ 52 % 2 ^ 11 := by
    change (bits.toBitVec.extractLsb 62 52).toNat = _
    rw [BitVec.extractLsb_toNat, Nat.shiftRight_eq_div_pow]
    rfl
  have hones : @unpackExponent Format.binary64 bits.toBitVec ≠ -1#11 := by
    intro h
    rw [h] at hfield
    exact hlt.ne' hfield
  have hpack : pack Format.binary64 (unpack Format.binary64 bits.toBitVec) = bits.toBitVec := by
    refine (pack_unpack _).trans (if_neg ?_)
    rw [isNaNBits, decide_eq_true_iff]
    exact fun hnan => hones hnan.1
  exact congrArg UInt64.ofBitVec hpack

/-- The number that a finite float stands for. -/
def number? (x : Float) : Option ℚ :=
  (Binary.ofFloat? x).map fun b =>
    (if isNegative x then -1 else 1) * (b.significand * 2 ^ b.exponent)

theorem number?_ofBits {bits : UInt64} {field fraction : Nat}
    (hbits : bits.toNat = field * 2 ^ 52 + fraction) (hpos : 0 < field) (hlt : field < 2047)
    (hfraction : fraction < 2 ^ 52) :
    number? (Float.ofBits bits) =
      some (((2 ^ 52 + fraction : Nat) : ℚ) * 2 ^ ((field : Int) - 1075)) := by
  have hfield : bits.toNat / 2 ^ 52 % 2 ^ 11 = field := by omega
  have hrest : bits.toNat % 2 ^ 52 = fraction := by omega
  have hkept := toBits_ofBits (hfield.trans_lt hlt)
  have hpositive : isNegative (Float.ofBits bits) = false := by
    rw [isNegative, hkept, Nat.pow_eq]
    exact decide_eq_false (by omega)
  have hbinary : Binary.ofFloat? (Float.ofBits bits) =
      some ⟨2 ^ 52 + fraction, field - 1075, fraction ≠ 0 || field = 1⟩ := by
    simp only [Binary.ofFloat?, hkept, Nat.pow_eq, hfield, hrest]
    rw [if_neg hlt.ne, if_neg hpos.ne']
  rw [number?, hbinary, Option.map_some, hpositive]
  simp

/-- Rounding keeps within half a step, and keeps what is a multiple of the step. -/
theorem roundHalfEven_near {n : Nat} :
    2048 * roundHalfEven n 2048 ≤ n + 1024 ∧ n ≤ 2048 * roundHalfEven n 2048 + 1024 ∧
      (2048 * roundHalfEven n 2048 = n ↔ 2048 ∣ n) := by
  simp only [roundHalfEven]
  split <;> omega

theorem roundHalfEven_bounds {n : Nat} (hlow : 2 ^ 63 ≤ n) (hhigh : n < 2 ^ 64) :
    2 ^ 52 ≤ roundHalfEven n 2048 ∧ roundHalfEven n 2048 ≤ 2 ^ 53 := by
  simp only [roundHalfEven]
  split <;> omega

/-- The fields of the nearest float to a whole number with 64 binary digits. The rounded number has
53 digits, of which the first is added to the exponent. -/
theorem nearest_eq_ofBits {n : Nat} (hlow : 2 ^ 63 ≤ n) (hhigh : n < 2 ^ 64) :
    nearest n 1 = Float.ofBits (UInt64.ofNat (1085 * 2 ^ 52 + roundHalfEven n 2048)) := by
  have horder : binaryOrder n 1 = 63 := by
    have hlog : n.log2 = 63 := by
      rw [Nat.log2_eq_iff (by omega)]
      omega
    have hguess : ¬n * Nat.pow 2 0 < 1 * Nat.pow 2 63 := by
      simp only [Nat.pow_eq]
      omega
    rw [binaryOrder, hlog]
    exact if_neg hguess
  have hsignificand : roundHalfEven (n * Nat.pow 2 0) (1 * Nat.pow 2 11) =
      roundHalfEven n 2048 := by
    rw [Nat.pow_eq, Nat.pow_eq, pow_zero, mul_one, one_mul]
  have hbits : min (((11 : Int) + 1074) * Nat.pow 2 52 + roundHalfEven n 2048).toNat
      (2047 * Nat.pow 2 52) = 1085 * 2 ^ 52 + roundHalfEven n 2048 := by
    have hmost := (roundHalfEven_bounds hlow hhigh).2
    simp only [Nat.pow_eq]
    omega
  rw [nearest, if_neg (by omega), horder]
  change Float.ofBits (UInt64.ofNat (min (((11 : Int) + 1074) * Nat.pow 2 52 +
    roundHalfEven (n * Nat.pow 2 0) (1 * Nat.pow 2 11)).toNat (2047 * Nat.pow 2 52))) = _
  rw [hsignificand, hbits]

/-- Beyond 63 binary digits the nearest float to a whole number of 64 is the nearest multiple of
2048. -/
theorem number?_nearest {n : Nat} (hlow : 2 ^ 63 ≤ n) (hhigh : n < 2 ^ 64) :
    number? (nearest n 1) = some ((2048 * roundHalfEven n 2048 : Nat) : ℚ) := by
  obtain ⟨hleast, hmost⟩ := roundHalfEven_bounds hlow hhigh
  have hbits : (UInt64.ofNat (1085 * 2 ^ 52 + roundHalfEven n 2048)).toNat =
      1085 * 2 ^ 52 + roundHalfEven n 2048 := by
    rw [UInt64.toNat_ofNat']
    omega
  rw [nearest_eq_ofBits hlow hhigh]
  -- a carry into a 54th digit raises the exponent
  by_cases hcarry : roundHalfEven n 2048 = 2 ^ 53
  · have hfields := hbits.trans (show _ = 1087 * 2 ^ 52 + 0 by omega)
    rw [number?_ofBits hfields (by decide) (by decide) (by decide), hcarry]
    norm_num
  · have hfields := hbits.trans
      (show _ = 1086 * 2 ^ 52 + (roundHalfEven n 2048 - 2 ^ 52) by omega)
    rw [number?_ofBits hfields (by decide) (by decide) (by omega), Nat.add_sub_cancel' hleast]
    norm_num
    ring

end QueryTree.Decimal
