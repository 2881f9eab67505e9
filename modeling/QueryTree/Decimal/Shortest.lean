import QueryTree.Decimal.Binary

/-!
The shortest decimal of a binary64 number: the fewest digits that read back as the number, and of
those the nearest to it.
-/

namespace QueryTree

/-- The value `digits * 10 ^ exponent`. -/
structure Decimal where
  digits : Nat
  exponent : Int
  deriving DecidableEq

namespace Decimal

/-- Where a value half way between two decimals of the same length goes. -/
inductive Tie where
  | toEven
  | away
  deriving DecidableEq

/-- A number and the ends of the interval that rounds to it, as multiples of one unit. The ends
belong to the interval iff `closed`. -/
structure Target where
  value : Nat
  low : Nat
  high : Nat
  unit : Nat
  closed : Bool

/-- The interval of a number, in multiples of `2 ^ (exponent - 2)`. -/
def Binary.target (b : Binary) : Target :=
  let exponent := b.exponent - 2
  let scale := Nat.pow 2 exponent.toNat
  { value := 4 * b.significand * scale
    low := (4 * b.significand - if b.evenSpacing then 2 else 1) * scale
    high := (4 * b.significand + 2) * scale
    unit := Nat.pow 2 (-exponent).toNat
    closed := b.significand % 2 = 0 }

def Target.contains (t : Target) (place : Int) (n : Nat) : Bool :=
  let point := n * (t.unit * Nat.pow 10 place.toNat)
  let up := Nat.pow 10 (-place).toNat
  if t.closed then t.low * up ≤ point && point ≤ t.high * up
  else t.low * up < point && point < t.high * up

/-- The multiple of `10 ^ place` to print, if one of the two beside the value is in the interval. -/
def Target.onGrid? (t : Target) (tie : Tie) (place : Int) : Option Nat :=
  let value := t.value * Nat.pow 10 (-place).toNat
  let step := t.unit * Nat.pow 10 place.toNat
  let below := value / step
  match t.contains place below, t.contains place (below + 1) with
  | true, false => some below
  | false, true => some (below + 1)
  | false, false => none
  | true, true =>
    let twice := 2 * (value % step)
    let down := twice < step || (twice = step && tie = .toEven && below % 2 = 0)
    some (if down then below else below + 1)

/-- The exponent of the leading decimal digit of a positive quotient, searched downward. -/
def leadingPlace (num den : Nat) : Nat → Int → Int
  | 0, place => place
  | fuel + 1, place =>
    if den * Nat.pow 10 place.toNat ≤ num * Nat.pow 10 (-place).toNat then place
    else leadingPlace num den fuel (place - 1)

/-- The first grid with a hit, from `first` on to finer ones. -/
def Target.shortest (t : Target) (tie : Tie) : Nat → Int → Decimal
  | 0, place => ⟨t.value * Nat.pow 10 (-place).toNat / (t.unit * Nat.pow 10 place.toNat), place⟩
  | fuel + 1, place =>
    match t.onGrid? tie place with
    | some digits => ⟨digits, place⟩
    | none => t.shortest tie fuel (place - 1)

def trimmed (d : Decimal) : Nat → Decimal
  | 0 => d
  | fuel + 1 =>
    if d.digits ≠ 0 ∧ d.digits % 10 = 0 then
      trimmed ⟨d.digits / 10, d.exponent + 1⟩ fuel
    else d

/-- The shortest decimal of a positive number; seventeen digits always suffice. -/
def Binary.shortest (b : Binary) (tie : Tie) : Decimal :=
  let t := b.target
  let place := leadingPlace t.value t.unit 700 309
  (t.shortest tie 17 place).trimmed 20

end Decimal

end QueryTree
