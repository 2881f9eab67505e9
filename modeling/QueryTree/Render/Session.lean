import QueryTree.Render.Sql

/-!
Writing into a context step by step. The scopes are a stack that is pushed and popped by hand, and
the parameters of every piece written so far are kept. A column that is seen through a scalar
subquery is looked up once more in the relation behind it.
-/

namespace QueryTree.Render

structure Context where
  bindings : Bindings
  scopes : Scopes
  params : List Value

namespace Context

def start (bindings : Bindings) : Context := ⟨bindings, [], []⟩

def push (ctx : Context) (frame : Frame) : Context :=
  { ctx with scopes := frame :: ctx.scopes }

def pop (ctx : Context) : Context :=
  { ctx with scopes := ctx.scopes.tail }

end Context

/-- What is done to a context. The context stays as it has become, even if this fails. -/
abbrev Session := ExceptT QueryError (StateT Context Naming)

namespace Session

def setting (options : Options) : Session Setting := do
  let ctx ← get
  return ⟨ctx.bindings, options, ctx.scopes⟩

def placeholder (key : String) : Session String := do
  let ctx ← get
  let value ← ctx.scopes.lookUp ctx.bindings key
  set { ctx with params := ctx.params ++ [value] }
  return "?"

def naming {α : Type} (step : Naming α) : Session α :=
  liftM (liftM step : StateT Context Naming α)

/-- Writes a level in a scope of its own. What has been pushed is popped again, whether the level
could be written or not. -/
def level {α : Type} (frame : Frame) (inside : Session α) : Session α := fun ctx => do
  let (result, after) ← inside (ctx.push frame)
  return (result, after.pop)

/-- One column in place of a SELECT list, and the session that writes it inside the query. -/
structure OnlyColumn where
  column : Column
  text : Session String

namespace OnlyColumn

def of (only : Option OnlyColumn) (q : Query) : Query :=
  match only with
  | some c => q.extend .select [.column c.column] true
  | none => q

def items (only : Option OnlyColumn) (given : Session (List String)) : Session (List String) :=
  match only with
  | some c => List.singleton <$> c.text
  | none => given

end OnlyColumn

mutual

def expr (options : Options) : Expr → Session String
  | .value v => pure v.literal
  | .param key => placeholder key
  | .star => pure "*"
  | .column ⟨owner, field, label, correlated⟩ =>
    column options ⟨owner, field, label, correlated⟩ owner
  | .unary op operand => do
    let inner ← expr options operand
    return if op.isPostfix then inner ++ " " ++ op.text
      else parenthesized (op.text ++ " " ++ inner)
  | .binary op left right => do
    let l ← expr options left
    let r ← expr options right
    return parenthesized (l ++ " " ++ op.text ++ " " ++ r)
  | .between subject low high => do
    let x ← expr options subject
    let lo ← expr options low
    let hi ← expr options high
    return parenthesized (x ++ " BETWEEN " ++ lo ++ " AND " ++ hi)
  | .call name args => do
    let args ← exprs options args
    return Text.upper name ++ parenthesized (", ".intercalate args)
  | .list items => do
    let items ← exprs options items
    return parenthesized (", ".intercalate items)
  | .labeled e _ => expr options e
  | .subquery ⟨name, q⟩ => do
    let inner ← query options (some name) .own none q
    return parenthesized inner

def exprs (options : Options) : List Expr → Session (List String)
  | [] => pure []
  | e :: rest => do
    let text ← expr options e
    let texts ← exprs options rest
    return text :: texts

def items (options : Options) : List Expr → Session (List String)
  | [] => pure []
  | e :: rest => do
    let text ← expr options e
    let s ← setting options
    let texts ← items options rest
    return (text ++ s.label e) :: texts

/-- A column, given with its owner. One seen through a scalar subquery is that subquery with the
column that its source has for the field as the whole SELECT list. -/
def column (options : Options) (c : Column) : Relation → Session String
  | .projected (.unfolded ⟨name, q⟩) source => do
    let inner ← source.column c.field
    let text ← query options (some name) .made
      (some ⟨inner, column options inner source⟩) q
    return parenthesized text
  | _ => do
    let s ← setting options
    s.column c

def query (options : Options) (alias_ : Option String) (identity : Identity)
    (only : Option OnlyColumn) : Query → Session String
  | ⟨select, sub, sources, filter, group, having, order, limit, id⟩ => do
    let q := OnlyColumn.of only ⟨select, sub, sources, filter, group, having, order, limit, id⟩
    let s ← setting options
    s.check q
    if q.isBareUnion then
      level ⟨alias_, [], false⟩ (bareUnion options identity sources)
    else
      level ⟨alias_, q.reachableNames, q.isUnionFed⟩ do
        let id ← naming (identity.number id)
        let select ← OnlyColumn.items only (items options select)
        let sources ← sourceTexts options identity id sources
        let filter ← exprs options filter
        let group ← exprs options group
        let having ← exprs options having
        let order ← exprs options order
        let limit ← exprs options limit
        return Level.text ⟨select, sources, filter, group, having, order, limit⟩ options.separator

def bareUnion (options : Options) (identity : Identity) : List Source → Session String
  | .union op left right :: _ => do
    let l ← query options none identity.ofOperands none left
    let r ← query options none identity.ofOperands none right
    return l ++ " " ++ op.text ++ " " ++ r
  | _ => pure ""

def sourceTexts (options : Options) (identity : Identity) (id : Nat) :
    List Source → Session (List String)
  | [] => pure []
  | source :: rest => do
    let text ← sourceText options identity id source
    let texts ← sourceTexts options identity id rest
    return text :: texts

def sourceText (options : Options) (identity : Identity) (id : Nat) : Source → Session String
  | .relation (.table t) => pure t.name
  | .relation (.alias_ a) => pure (a.table.name ++ " as " ++ a.name)
  | .relation (.projected scope _) => pure scope.name
  | .relation (.derived ⟨name, q, _⟩) => do
    let inner ← query options (some name) .own none q
    return parenthesized inner ++ " as " ++ name
  | .join kind left right on => do
    let l ← sourceText options identity id left
    let r ← sourceText options identity id right
    let on ← exprs options on
    return l ++ " " ++ kind.text ++ " " ++
      (if right.isJoin then parenthesized r else r) ++ onText on
  | .union op left right => do
    let l ← query options none identity.ofOperands none left
    let r ← query options none identity.ofOperands none right
    let name ← naming (Registry.nameOf id)
    return parenthesized (l ++ " " ++ op.text ++ " " ++ r) ++ " as " ++ name

end

def item (options : Options) (e : Expr) : Session String := do
  let text ← expr options e
  let s ← setting options
  return text ++ s.label e

end Session

end QueryTree.Render
