/-! White space as the Unicode property White_Space has it, and texts cut into words. -/

namespace QueryTree.Text

/-- The 25 characters of White_Space, as closed ranges of code points. -/
def blankRanges : List (Nat × Nat) :=
  [(0x9, 0xD), (0x20, 0x20), (0x85, 0x85), (0xA0, 0xA0), (0x1680, 0x1680), (0x2000, 0x200A),
   (0x2028, 0x2029), (0x202F, 0x202F), (0x205F, 0x205F), (0x3000, 0x3000)]

def isBlank (c : Char) : Bool :=
  blankRanges.any fun range => range.1 ≤ c.toNat && c.toNat ≤ range.2

/-- The stretches of a text between the characters that `cut` accepts, the empty ones included. -/
def stretches (cut : Char → Bool) : List Char → List (List Char)
  | [] => [[]]
  | c :: rest =>
    match cut c, stretches cut rest with
    | true, found => [] :: found
    | false, [] => [[c]]
    | false, word :: found => (c :: word) :: found

def words (cut : Char → Bool) (text : String) : List String :=
  ((stretches cut text.toList).filter (!·.isEmpty)).map String.ofList

end QueryTree.Text
