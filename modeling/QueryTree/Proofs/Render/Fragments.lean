import QueryTree.Render.Context

/-!
The text of a query as a flat list of fragments, in the order in which they are written. A fragment
is a piece of text, or a step between two pieces: a check of a level, or the number that a level and
the names of its unions go by. The list depends on the tree alone. Bindings, options and the
registry come in when it is written.
-/

namespace QueryTree.Render

/-- The texts that SQL itself puts between names, constants and markers. -/
inductive Word where
  | opening
  | closing
  | comma
  | as_
  | star
  | on
  | between
  | and_
  | prefixOp (op : UnaryOp)
  | postfixOp (op : UnaryOp)
  | binaryOp (op : BinaryOp)
  | join (kind : JoinKind)
  | set (op : SetOp)
  | clause (kind : ClauseKind)

def Word.text : Word → String
  | .opening => "("
  | .closing => ")"
  | .comma => ", "
  | .as_ => " as "
  | .star => "*"
  | .on => " ON "
  | .between => " BETWEEN "
  | .and_ => " AND "
  | .prefixOp op => op.text ++ " "
  | .postfixOp op => " " ++ op.text
  | .binaryOp op => " " ++ op.text ++ " "
  | .join kind => " " ++ kind.text ++ " "
  | .set op => " " ++ op.text ++ " "
  | .clause kind => kind.keyword ++ " "

inductive Fragment where
  | word (w : Word)
  | name (n : String)
  | function (n : String)
  | constant (v : Value)
  | marker (scopes : Scopes) (key : String)
  | column (scopes : Scopes) (c : Column)
  | separator
  /-- The check of a level, before anything of it is written. -/
  | check (q : Query)
  /-- The number that the level just entered goes by. -/
  | number (identity : Identity) (id : Nat)
  /-- The generated name of the level, for a union among its sources. -/
  | generated
  /-- The end of a level that has a number. -/
  | leave

/-- One column in place of a SELECT list, and what it comes to inside the query. -/
abbrev Narrowing (α : Type) := Column × (Scopes → List α)

/-- The query with one column as its SELECT list, if one is given. -/
def Query.narrowed {α : Type} (only : Option (Narrowing α)) (q : Query) : Query :=
  match only with
  | some c => q.extend .select [.column c.1] true
  | none => q

/-- The items of a SELECT list: the one column, if one is given. -/
def narrowedItems (only : Option (Narrowing Fragment)) (scopes : Scopes)
    (given : List (List Fragment)) : List (List Fragment) :=
  match only with
  | some c => [c.2 scopes]
  | none => given

def joined (between : Fragment) : List (List Fragment) → List Fragment
  | [] => []
  | [part] => part
  | part :: next :: rest => part ++ between :: joined between (next :: rest)

def enclosed (inner : List Fragment) : List Fragment :=
  .word .opening :: (inner ++ [.word .closing])

def listed (items : List (List Fragment)) : List Fragment :=
  joined (.word .comma) items

def unionFragments (op : SetOp) (left right : List Fragment) : List Fragment :=
  left ++ .word (.set op) :: right

/-- ON with its predicates nested to the left. -/
def onFragments : List (List Fragment) → List Fragment
  | [] => []
  | first :: rest =>
    .word .on :: rest.foldl (fun left right => enclosed (left ++ .word .and_ :: right)) first

def clauseFragments (kind : ClauseKind) (items : List (List Fragment)) : List (List Fragment) :=
  if items.isEmpty then [] else [.word (.clause kind) :: listed items]

def selectFragments (items : List (List Fragment)) : List (List Fragment) :=
  clauseFragments .select (if items.isEmpty then [[.word .star]] else items)

def labelFragments (scopes : Scopes) : Expr → List Fragment
  | .column c =>
    match c.label with
    | some label => if scopes.isBare then [] else [.word .as_, .name label]
    | none => []
  | .labeled _ label => [.word .as_, .name label]
  | _ => []

/-- The items of a SELECT list from the fragments of its expressions. -/
def itemFragments (scopes : Scopes) (exprs : List Expr) (parts : List (List Fragment)) :
    List (List Fragment) :=
  List.zipWith (fun e part => part ++ labelFragments scopes e) exprs parts

/-- The fragments of the items of each clause of a level. -/
structure LevelParts where
  select : List (List Fragment)
  sources : List (List Fragment)
  filter : List (List Fragment)
  group : List (List Fragment)
  having : List (List Fragment)
  order : List (List Fragment)
  limit : List (List Fragment)

def LevelParts.fragments (level : LevelParts) : List Fragment :=
  joined .separator (selectFragments level.select ++ clauseFragments .from_ level.sources ++
    clauseFragments .filter level.filter ++ clauseFragments .groupBy level.group ++
    clauseFragments .having level.having ++ clauseFragments .orderBy level.order ++
    clauseFragments .limit level.limit)

mutual

def exprFragments (scopes : Scopes) : Expr → List Fragment
  | .value v => [.constant v]
  | .param key => [.marker scopes key]
  | .star => [.word .star]
  | .column ⟨owner, field, label, correlated⟩ =>
    columnFragments scopes ⟨owner, field, label, correlated⟩ owner
  | .unary op operand =>
    if op.isPostfix then exprFragments scopes operand ++ [.word (.postfixOp op)]
    else enclosed (.word (.prefixOp op) :: exprFragments scopes operand)
  | .binary op left right =>
    enclosed (exprFragments scopes left ++ .word (.binaryOp op) :: exprFragments scopes right)
  | .between subject low high =>
    enclosed (exprFragments scopes subject ++ .word .between :: (exprFragments scopes low ++
      .word .and_ :: exprFragments scopes high))
  | .call name args => .function name :: enclosed (listed (exprsFragments scopes args))
  | .list items => enclosed (listed (exprsFragments scopes items))
  | .labeled e _ => exprFragments scopes e
  | .subquery ⟨name, q⟩ => enclosed (queryFragments scopes (some name) .own none q)

def exprsFragments (scopes : Scopes) : List Expr → List (List Fragment)
  | [] => []
  | e :: rest => exprFragments scopes e :: exprsFragments scopes rest

/-- A column, given with its owner. -/
def columnFragments (scopes : Scopes) (c : Column) : Relation → List Fragment
  | .projected (.unfolded ⟨name, q⟩) source =>
    let inner := Column.plain source c.field
    enclosed (queryFragments scopes (some name) .made
      (some (inner, fun scopes => columnFragments scopes inner source)) q)
  | _ => [.column scopes c]

def queryFragments (scopes : Scopes) (alias_ : Option String) (identity : Identity)
    (only : Option (Narrowing Fragment)) : Query → List Fragment
  | ⟨select, sub, sources, filter, group, having, order, limit, id⟩ =>
    let q := Query.narrowed only ⟨select, sub, sources, filter, group, having, order, limit, id⟩
    .check q ::
      if q.isBareUnion then bareUnionFragments (⟨alias_, [], false⟩ :: scopes) identity sources
      else
        let inside : Scopes := ⟨alias_, q.reachableNames, q.isUnionFed⟩ :: scopes
        let items := narrowedItems only inside
          (itemFragments inside select (exprsFragments inside select))
        let level : LevelParts := ⟨items, sourcesFragments inside identity sources,
          exprsFragments inside filter, exprsFragments inside group,
          exprsFragments inside having, exprsFragments inside order,
          exprsFragments inside limit⟩
        .number identity id :: (level.fragments ++ [.leave])

def bareUnionFragments (scopes : Scopes) (identity : Identity) : List Source → List Fragment
  | .union op left right :: _ =>
    unionFragments op (queryFragments scopes none identity.ofOperands none left)
      (queryFragments scopes none identity.ofOperands none right)
  | _ => []

def sourcesFragments (scopes : Scopes) (identity : Identity) :
    List Source → List (List Fragment)
  | [] => []
  | source :: rest =>
    sourceFragments scopes identity source :: sourcesFragments scopes identity rest

def sourceFragments (scopes : Scopes) (identity : Identity) : Source → List Fragment
  | .relation (.table t) => [.name t.name]
  | .relation (.alias_ a) => [.name a.table.name, .word .as_, .name a.name]
  | .relation (.projected scope _) => [.name scope.name]
  | .relation (.derived ⟨name, q, _⟩) =>
    enclosed (queryFragments scopes (some name) .own none q) ++ [.word .as_, .name name]
  | .join kind left right on =>
    sourceFragments scopes identity left ++ .word (.join kind) ::
      ((if right.isJoin then enclosed (sourceFragments scopes identity right)
        else sourceFragments scopes identity right) ++ onFragments (exprsFragments scopes on))
  | .union op left right =>
    enclosed (unionFragments op (queryFragments scopes none identity.ofOperands none left)
      (queryFragments scopes none identity.ofOperands none right)) ++ [.word .as_, .generated]

end

end QueryTree.Render

namespace QueryTree

/-- The fragments of a query that is written on its own. -/
def Query.fragments (q : Query) : List Render.Fragment :=
  Render.queryFragments [] none .own none q

end QueryTree
