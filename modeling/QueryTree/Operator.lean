/-! Operators of expressions, kinds of joins and set operations, and their SQL texts. -/

namespace QueryTree

inductive UnaryOp where
  | not
  | asc
  | desc
  deriving DecidableEq

inductive BinaryOp where
  | add
  | sub
  | mul
  | div
  | eq
  | ne
  | gt
  | lt
  | gte
  | lte
  | and
  | or
  | is
  | isNot
  | in_
  | notIn
  | like
  | ilike
  deriving DecidableEq

inductive JoinKind where
  | inner
  | leftOuter
  | rightOuter
  | fullOuter
  | cross
  deriving DecidableEq

inductive SetOp where
  | union
  | unionAll
  deriving DecidableEq

/-- Postfix operators stand behind their operand and take no parentheses. -/
def UnaryOp.isPostfix : UnaryOp → Bool
  | .not => false
  | .asc | .desc => true

def UnaryOp.text : UnaryOp → String
  | .not => "NOT"
  | .asc => "ASC"
  | .desc => "DESC"

def BinaryOp.text : BinaryOp → String
  | .add => "+"
  | .sub => "-"
  | .mul => "*"
  | .div => "/"
  | .eq => "="
  | .ne => "<>"
  | .gt => ">"
  | .lt => "<"
  | .gte => ">="
  | .lte => "<="
  | .and => "AND"
  | .or => "OR"
  | .is => "IS"
  | .isNot => "IS NOT"
  | .in_ => "IN"
  | .notIn => "NOT IN"
  | .like => "LIKE"
  | .ilike => "ILIKE"

def JoinKind.text : JoinKind → String
  | .inner => "JOIN"
  | .leftOuter => "LEFT OUTER JOIN"
  | .rightOuter => "RIGHT OUTER JOIN"
  | .fullOuter => "FULL OUTER JOIN"
  | .cross => "CROSS JOIN"

def SetOp.text : SetOp → String
  | .union => "UNION"
  | .unionAll => "UNION ALL"

end QueryTree
