/-! The least number of insertions, deletions and replacements of characters between two texts. -/

namespace QueryTree.Text

/-- The rest of a row of the distance table: `left` is the entry just written, the list holds the
entries of the row above from the one diagonally before on. -/
def distanceRow (c : Char) : Nat → List Char → List Nat → List Nat
  | left, d :: rest, diagonal :: up :: above =>
    let here := min (min left up + 1) (diagonal + if c = d then 0 else 1)
    here :: distanceRow c here rest (up :: above)
  | _, _, _ => []

def lastDistanceRow (target : List Char) : List Char → List Nat → List Nat
  | [], row => row
  | c :: rest, row =>
    let first := row.headD 0 + 1
    lastDistanceRow target rest (first :: distanceRow c first target row)

def editDistance (source target : String) : Nat :=
  let goal := target.toList
  (lastDistanceRow goal source.toList (List.range (goal.length + 1))).getLastD 0

end QueryTree.Text
