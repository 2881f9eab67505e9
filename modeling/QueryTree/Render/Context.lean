import QueryTree.Render.Session

/-! What is written into a context piece by piece, and the statement of a query, which is written in
one go. -/

namespace QueryTree.Render

namespace Context

/-- Writes something in the scopes of the context. What it records stays, even if it fails. -/
def write {α : Type} (ctx : Context) (options : Options) (piece : Setting → Writer α) :
    Naming (Except QueryError α × Context) := fun registry =>
  let (result, state) := piece ⟨ctx.bindings, options, ctx.scopes⟩ ⟨ctx.params, registry⟩
  ((result, { ctx with params := state.params }), state.registry)

def param (ctx : Context) (key : String) : Naming (Except QueryError Unit × Context) :=
  (discard (Session.placeholder key) : Session Unit) ctx

def expr (ctx : Context) (options : Options) (e : Expr) :
    Naming (Except QueryError String × Context) :=
  Session.expr options e ctx

def item (ctx : Context) (options : Options) (e : Expr) :
    Naming (Except QueryError String × Context) :=
  Session.item options e ctx

def exprs (ctx : Context) (options : Options) (es : List Expr) :
    Naming (Except QueryError (List String) × Context) :=
  Session.exprs options es ctx

def compile (ctx : Context) (options : Options) (q : Query) :
    Naming (Except QueryError String × Context) :=
  Session.query options none .own none q ctx

end Context

/-- A text of SQL and the constants of its markers in their order. -/
structure Statement where
  sql : String
  params : List Value

end QueryTree.Render

namespace QueryTree

open Render

namespace Query

def statement (q : Query) (bindings : Bindings) (options : Options) : Attempt Statement := do
  let (result, ctx) ← ((Context.start bindings).write options fun s =>
    Render.query s none .own none q : Naming _)
  return ⟨← result, ctx.params⟩

def sql (q : Query) (options : Options) : Attempt String := do
  return (← q.statement .empty options).sql

end Query

def Expr.sql (e : Expr) (options : Options) : Attempt String := do
  (← ((Render.Context.start .empty).expr options e : Naming _)).1

end QueryTree
