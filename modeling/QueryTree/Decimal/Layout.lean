import QueryTree.Decimal.Shortest
import QueryTree.Text.Digits

/-! Decimal texts of binary64 numbers, by a record of the choices that a format makes. -/

namespace QueryTree.Decimal

/-- How a format writes a finite number. Positional notation, always with a digit on both sides of
the point, is used if the exponent of the leading digit is in the given range. -/
structure Layout where
  leastPositional : Int
  greatestPositional : Int
  plusInExponent : Bool
  tie : Tie

def withPoint (digits : String) (places : Int) : String :=
  let count : Int := digits.length
  if places ≤ 0 then
    "0." ++ String.ofList (List.replicate (-places).toNat '0') ++ digits
  else if count ≤ places then
    digits ++ String.ofList (List.replicate (places - count).toNat '0') ++ ".0"
  else
    String.ofList (digits.toList.take places.toNat) ++ "." ++
      String.ofList (digits.toList.drop places.toNat)

def Layout.magnitude (layout : Layout) (d : Decimal) : String :=
  let digits := toString d.digits
  let leading := d.exponent + digits.length - 1
  if layout.leastPositional ≤ leading ∧ leading ≤ layout.greatestPositional then
    withPoint digits (leading + 1)
  else
    let fraction := String.ofList (digits.toList.drop 1)
    String.ofList (digits.toList.take 1) ++ (if fraction = "" then "" else "." ++ fraction) ++
      "e" ++ (if leading < 0 then "-" else if layout.plusInExponent then "+" else "") ++
      toString leading.natAbs

/-- The text of a finite number; an infinity or a NaN has none. -/
def Layout.text? (layout : Layout) (x : Float) : Option String :=
  (Binary.ofFloat? x).map fun b =>
    (if isNegative x then "-" else "") ++
      if b.significand = 0 then "0.0" else layout.magnitude (b.shortest layout.tie)

end QueryTree.Decimal
