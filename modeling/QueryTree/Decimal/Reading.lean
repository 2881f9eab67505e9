import QueryTree.Decimal.Binary
import QueryTree.Text.Digits

/-! Decimal texts read as binary64 numbers, rounded to the nearest. -/

namespace QueryTree.Decimal

open Text

def splitSign : List Char → Bool × List Char
  | '-' :: rest => (true, rest)
  | '+' :: rest => (false, rest)
  | text => (false, text)

def exponent? : List Char → Option Int
  | [] => some 0
  | mark :: rest =>
    let (negative, text) := splitSign rest
    match leadingDigits text with
    | (d :: digits, []) =>
      if mark = 'e' ∨ mark = 'E' then
        some (if negative then -(ofDigits (d :: digits) : Int) else ofDigits (d :: digits))
      else none
    | _ => none

/-- The value of a significand at a power of ten. Beyond the range of binary64 the power no longer
matters and is not computed. -/
def scaled (significand : Nat) (exponent : Int) : Float :=
  let order := exponent + (toString significand).length
  if significand = 0 ∨ order < -400 then 0
  else if 400 < order then nearestScaled 1 400
  else nearestScaled significand exponent

def magnitude? (text : List Char) : Option Float :=
  let word := String.ofList (text.map Char.toLower)
  if word = "inf" ∨ word = "infinity" then some (nearestScaled 1 400)
  else if word = "nan" then some (0 / 0)
  else
    let (whole, rest) := leadingDigits text
    let (fraction, rest) := match rest with
      | '.' :: rest => leadingDigits rest
      | rest => ([], rest)
    if whole.isEmpty ∧ fraction.isEmpty then none
    else (exponent? rest).map fun exponent =>
      scaled (ofDigits (whole ++ fraction)) (exponent - fraction.length)

/-- A number as text: a sign, digits with a point among them and an exponent, or a word for an
infinity or for no number. -/
def float? (text : String) : Option Float :=
  let (negative, rest) := splitSign text.toList
  (magnitude? rest).map fun x => if negative then -x else x

end QueryTree.Decimal
