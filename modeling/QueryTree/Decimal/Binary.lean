/-!
Binary64 numbers as a sign and a whole number times a power of two, and the binary64 number
nearest to a quotient of naturals.
-/

namespace QueryTree.Decimal

/-- A finite binary64 number without its sign: `significand * 2 ^ exponent`. `evenSpacing` is false
at a power of two, where the numbers below lie twice as close as those above. -/
structure Binary where
  significand : Nat
  exponent : Int
  evenSpacing : Bool

def isNegative (x : Float) : Bool :=
  x.toBits.toNat / Nat.pow 2 63 = 1

/-- The magnitude of a number; an infinity or a NaN has none. -/
def Binary.ofFloat? (x : Float) : Option Binary :=
  let bits : Nat := x.toBits.toNat
  let field : Nat := bits / Nat.pow 2 52 % Nat.pow 2 11
  let fraction : Nat := bits % Nat.pow 2 52
  if field = 2047 then none
  else if field = 0 then some ⟨fraction, -1074, true⟩
  else some ⟨Nat.pow 2 52 + fraction, (field : Int) - 1075, fraction ≠ 0 || field = 1⟩

/-- A quotient to the nearest whole number, a half to the even neighbour. -/
def roundHalfEven (num den : Nat) : Nat :=
  let floor := num / den
  let twice := 2 * (num % den)
  if twice < den ∨ (twice = den ∧ floor % 2 = 0) then floor else floor + 1

/-- The number of binary digits in front of the point of `num / den`, less one; for a quotient
below one, one more than the zeros behind the point, negated. -/
def binaryOrder (num den : Nat) : Int :=
  let guess : Int := (num.log2 : Int) - den.log2
  if num * Nat.pow 2 (-guess).toNat < den * Nat.pow 2 guess.toNat then guess - 1 else guess

/-- The binary64 number nearest to `num / den`, a tie to the even significand; too large a quotient
gives infinity. -/
def nearest (num den : Nat) : Float :=
  if num = 0 then 0
  else
    let order := binaryOrder num den
    let exponent := max (order - 52) (-1074)
    let significand := roundHalfEven (num * Nat.pow 2 (-exponent).toNat)
      (den * Nat.pow 2 exponent.toNat)
    -- a significand below 2^52 is subnormal, and one that rounds up to 2^53 carries by itself
    let bits : Int := (exponent + 1074) * Nat.pow 2 52 + significand
    Float.ofBits (UInt64.ofNat (min bits.toNat (2047 * Nat.pow 2 52)))

def nearestScaled (significand : Nat) (exponent : Int) : Float :=
  nearest (significand * Nat.pow 10 exponent.toNat) (Nat.pow 10 (-exponent).toNat)

end QueryTree.Decimal
