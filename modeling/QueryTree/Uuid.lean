import QueryTree.Text.Digits

/-! Universally unique identifiers: 128 bits, written as 32 hexadecimal digits in five groups. -/

namespace QueryTree

structure Uuid where
  bits : BitVec 128
  deriving DecidableEq

namespace Uuid

def text (u : Uuid) : String :=
  let digits := Text.hex 32 u.bits.toNat
  let group (start count : Nat) := String.ofList ((digits.drop start).take count)
  group 0 8 ++ "-" ++ group 8 4 ++ "-" ++ group 12 4 ++ "-" ++ group 16 4 ++ "-" ++ group 20 12

def ofDigits? (digits : List Char) : Option Uuid :=
  if digits.length = 32 then (Text.ofHex? digits).map fun n => ⟨BitVec.ofNat 128 n⟩ else none

def ofGroups? (text : List Char) : Option Uuid :=
  let hyphens := [8, 13, 18, 23]
  if text.length = 36 ∧ hyphens.all (text[·]? = some '-') then
    ofDigits? (text.zipIdx.filterMap fun (c, i) => if hyphens.contains i then none else some c)
  else none

/-- Reads the bare digits, the groups, the groups in braces, or the groups after `urn:uuid:`, in
letters of either case. -/
def ofText? (text : String) : Option Uuid :=
  let chars := text.toList
  match chars.length with
  | 32 => ofDigits? chars
  | 36 => ofGroups? chars
  | 38 =>
    if chars.head? = some '\x7b' ∧ chars.getLast? = some '\x7d' then
      ofGroups? (chars.drop 1).dropLast
    else none
  | 45 =>
    if (chars.take 9).map Char.toLower = "urn:uuid:".toList then ofGroups? (chars.drop 9) else none
  | _ => none

end Uuid

end QueryTree
