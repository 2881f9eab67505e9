import QueryTree.Render.Scope
import QueryTree.Text.Uppercase
import QueryTree.Validation

/-!
SQL text of expressions, sources and queries. The text and the parameters come from one walk, so
the markers in the text stand in the order of the parameters.
-/

namespace QueryTree.Render

/-- Whether a query is written itself, as the operand of a union that was copied with the query
around it, or as a query made for the occasion. It decides on the number that names are given to. -/
inductive Identity where
  | own
  | copied
  | made

namespace Identity

def number : Identity → Nat → Naming Nat
  | .own, id => pure id
  | .copied, id => Registry.copyOf id
  | .made, _ => Registry.fresh

def ofOperands : Identity → Identity
  | .own => .own
  | .copied | .made => .copied

end Identity

def parenthesized (text : String) : String :=
  "(" ++ text ++ ")"

def Setting.check (s : Setting) (q : Query) : Except QueryError Unit :=
  if s.options.validate then q.validate else .ok ()

/-- The predicates of a join behind ON, joined by AND as `Expr.conjunction?` nests them. -/
def onText : List String → String
  | [] => ""
  | first :: rest =>
    " ON " ++ rest.foldl (fun left right => parenthesized (left ++ " AND " ++ right)) first

def clauseText (kind : ClauseKind) (items : List String) : List String :=
  if items.isEmpty then [] else [kind.keyword ++ " " ++ ", ".intercalate items]

def selectText (items : List String) : List String :=
  clauseText .select (if items.isEmpty then ["*"] else items)

structure Level where
  select : List String
  sources : List String
  filter : List String
  group : List String
  having : List String
  order : List String
  limit : List String

def Level.text (level : Level) (separator : String) : String :=
  separator.intercalate (selectText level.select ++ clauseText .from_ level.sources ++
    clauseText .filter level.filter ++ clauseText .groupBy level.group ++
    clauseText .having level.having ++ clauseText .orderBy level.order ++
    clauseText .limit level.limit)

/-- One column in place of a SELECT list, and how it is written inside the query. -/
structure OnlyColumn where
  column : Column
  text : Setting → Writer String

namespace OnlyColumn

def of (only : Option OnlyColumn) (q : Query) : Query :=
  match only with
  | some c => q.extend .select [.column c.column] true
  | none => q

def items (only : Option OnlyColumn) (s : Setting) (given : Writer (List String)) :
    Writer (List String) :=
  match only with
  | some c => List.singleton <$> c.text s
  | none => given

end OnlyColumn

mutual

/-- An expression without its label. -/
def expr (s : Setting) : Expr → Writer String
  | .value v => pure v.literal
  | .param key => s.placeholder key
  | .star => pure "*"
  | .column ⟨owner, field, label, correlated⟩ =>
    column s ⟨owner, field, label, correlated⟩ owner
  | .unary op operand => do
    let inner ← expr s operand
    return if op.isPostfix then inner ++ " " ++ op.text
      else parenthesized (op.text ++ " " ++ inner)
  | .binary op left right => do
    let l ← expr s left
    let r ← expr s right
    return parenthesized (l ++ " " ++ op.text ++ " " ++ r)
  | .between subject low high => do
    let x ← expr s subject
    let lo ← expr s low
    let hi ← expr s high
    return parenthesized (x ++ " BETWEEN " ++ lo ++ " AND " ++ hi)
  | .call name args => do
    let args ← exprs s args
    return Text.upper name ++ parenthesized (", ".intercalate args)
  | .list items => do
    let items ← exprs s items
    return parenthesized (", ".intercalate items)
  | .labeled e _ => expr s e
  | .subquery ⟨name, q⟩ => do
    let inner ← query s (some name) .own none q
    return parenthesized inner

def exprs (s : Setting) : List Expr → Writer (List String)
  | [] => pure []
  | e :: rest => do
    let text ← expr s e
    let texts ← exprs s rest
    return text :: texts

/-- A column, given with its owner. One seen through a scalar subquery is that subquery with the
column of its source as the whole SELECT list. -/
def column (s : Setting) (c : Column) : Relation → Writer String
  | .projected (.unfolded ⟨name, q⟩) source => do
    let inner := Column.plain source c.field
    let text ← query s (some name) .made (some ⟨inner, fun s => column s inner source⟩) q
    return parenthesized text
  | _ => s.column c

/-- A query as one level, under the name that it has in the level around it. -/
def query (s : Setting) (alias_ : Option String) (identity : Identity)
    (only : Option OnlyColumn) : Query → Writer String
  | ⟨select, sub, sources, filter, group, having, order, limit, id⟩ => do
    let q := OnlyColumn.of only ⟨select, sub, sources, filter, group, having, order, limit, id⟩
    s.check q
    if q.isBareUnion then
      bareUnion (s.enter alias_ [] false) identity sources
    else
      let s := s.enter alias_ q.reachableNames q.isUnionFed
      let id ← naming (identity.number id)
      let select ← OnlyColumn.items only s (s.labeled select <$> exprs s select)
      let sources ← sourceTexts s identity id sources
      let filter ← exprs s filter
      let group ← exprs s group
      let having ← exprs s having
      let order ← exprs s order
      let limit ← exprs s limit
      return Level.text ⟨select, sources, filter, group, having, order, limit⟩ s.options.separator

def bareUnion (s : Setting) (identity : Identity) : List Source → Writer String
  | .union op left right :: _ => do
    let l ← query s none identity.ofOperands none left
    let r ← query s none identity.ofOperands none right
    return l ++ " " ++ op.text ++ " " ++ r
  | _ => pure ""

def sourceTexts (s : Setting) (identity : Identity) (id : Nat) :
    List Source → Writer (List String)
  | [] => pure []
  | source :: rest => do
    let text ← sourceText s identity id source
    let texts ← sourceTexts s identity id rest
    return text :: texts

/-- A source of the query with the given number. A union takes the query's generated name. -/
def sourceText (s : Setting) (identity : Identity) (id : Nat) : Source → Writer String
  | .relation (.table t) => pure t.name
  | .relation (.alias_ a) => pure (a.table.name ++ " as " ++ a.name)
  | .relation (.projected scope _) => pure scope.name
  | .relation (.derived ⟨name, q, _⟩) => do
    let inner ← query s (some name) .own none q
    return parenthesized inner ++ " as " ++ name
  | .join kind left right on => do
    let l ← sourceText s identity id left
    let r ← sourceText s identity id right
    let on ← exprs s on
    return l ++ " " ++ kind.text ++ " " ++
      (if right.isJoin then parenthesized r else r) ++ onText on
  | .union op left right => do
    let l ← query s none identity.ofOperands none left
    let r ← query s none identity.ofOperands none right
    let name ← naming (Registry.nameOf id)
    return parenthesized (l ++ " " ++ op.text ++ " " ++ r) ++ " as " ++ name

end

def item (s : Setting) (e : Expr) : Writer String :=
  (· ++ s.label e) <$> expr s e

end QueryTree.Render
