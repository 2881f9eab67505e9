import QueryTree.Json.Basic
import QueryTree.Decimal.Reading

/-!
Numbers of JSON text. A float is the product of a significand of 64 bits and a power of ten, taken
in binary64 arithmetic; digits that no longer fit the significand only count for the power.
-/

namespace QueryTree.Json

open Text Decimal

structure Numeral where
  negative : Bool
  whole : List Nat
  fraction : Option (List Nat)
  exponent : Option Int

/-- A significand below `2 ^ 64` and a power of ten. -/
structure Scaled where
  significand : Nat
  exponent : Int

def Scaled.push? (s : Scaled) (digit : Nat) : Option Nat :=
  let next := s.significand * 10 + digit
  if next < Nat.pow 2 64 then some next else none

/-- The digits in front of the point; from the first that does not fit on, each is a power of
ten. -/
def Scaled.whole (s : Scaled) : List Nat → Scaled
  | [] => s
  | d :: rest =>
    match s.push? d with
    | some next => Scaled.whole ⟨next, s.exponent⟩ rest
    | none => ⟨s.significand, s.exponent + (rest.length + 1)⟩

/-- The digits behind the point; from the first that does not fit on, they are dropped. -/
def Scaled.fraction (s : Scaled) : List Nat → Scaled
  | [] => s
  | d :: rest =>
    match s.push? d with
    | some next => Scaled.fraction ⟨next, s.exponent - 1⟩ rest
    | none => s

/-- The magnitude in binary64 arithmetic; powers beyond `10 ^ 308` are taken in steps, and a number
beyond the greatest float has none. -/
def scaleFloat? : Nat → Float → Int → Option Float
  | 0, _, _ => none
  | fuel + 1, x, exponent =>
    if exponent.natAbs ≤ 308 then
      let power := nearest (Nat.pow 10 exponent.natAbs) 1
      if exponent < 0 then some (x / power)
      else
        let product := x * power
        if product.isFinite then some product else none
    else if x == 0 then some x
    else if 0 ≤ exponent then none
    else scaleFloat? fuel (x / nearest (Nat.pow 10 308) 1) (exponent + 308)

def Scaled.float? (s : Scaled) (exponent : Int) : Option Float :=
  -- three steps of 308 take every significand to zero
  scaleFloat? 5 (nearest s.significand 1) (s.exponent + exponent)

/-- The number that a numeral stands for. Whole numbers reach from `-2 ^ 63` to `2 ^ 64 - 1`; the
others become floats, and so does a negative zero. -/
def Numeral.value? (n : Numeral) : Option Number :=
  let whole := Scaled.whole ⟨0, 0⟩ n.whole
  let float (x : Float) : Number := .float (if n.negative then -x else x)
  match n.fraction, n.exponent with
  | none, none =>
    if whole.exponent ≠ 0 then (whole.float? 0).map float
    else if ¬ n.negative then some (.int whole.significand)
    else if whole.significand = 0 ∨ Nat.pow 2 63 < whole.significand then
      some (float (nearest whole.significand 1))
    else some (.int (-whole.significand))
  | fraction, exponent =>
    ((whole.fraction (fraction.getD [])).float? (exponent.getD 0)).map float

def exponentPart? : List Char → Option (Option Int × List Char)
  | mark :: rest =>
    if mark = 'e' ∨ mark = 'E' then
      let (negative, text) := splitSign rest
      match leadingDigits text with
      | ([], _) => none
      | (digits, after) =>
        let size : Int := ofDigits digits
        some (some (if negative then -size else size), after)
    else some (none, mark :: rest)
  | [] => some (none, [])

/-- The numeral at the front of a text. A zero starts no longer number, and a point has digits on
both sides. -/
def numeral? (text : List Char) : Option (Numeral × List Char) := do
  let (negative, text) := match text with
    | '-' :: rest => (true, rest)
    | text => (false, text)
  let (whole, text) := leadingDigits text
  if whole.isEmpty ∨ (whole.head? = some 0 ∧ whole.length ≠ 1) then none
  else
    let (fraction, text) ← match text with
      | '.' :: rest =>
        match leadingDigits rest with
        | ([], _) => none
        | (digits, after) => some (some digits, after)
      | text => some (none, text)
    let (exponent, text) ← exponentPart? text
    return (⟨negative, whole, fraction, exponent⟩, text)

end QueryTree.Json
