import QueryTree.Render.Context

/-!
What writing by hand does to a context. Whether it succeeds or fails, the scopes are those that it
started with, and the parameters have only become more. What is written and what is appended does
not depend on the parameters that there were.
-/

namespace QueryTree.Render

namespace Session

variable {α β : Type}

theorem bind_run (x : Session α) (f : α → Session β) (ctx : Context) (registry : Registry) :
    (x >>= f) ctx registry = match x ctx registry with
      | ((.ok a, between), last) => f a between last
      | ((.error e, between), last) => ((.error e, between), last) := by
  change (ExceptT.bindCont f (x ctx registry).1.1) (x ctx registry).1.2 (x ctx registry).2 = _
  obtain ⟨⟨result, between⟩, last⟩ := x ctx registry
  cases result <;> rfl

theorem level_run (frame : Frame) (inside : Session α) (ctx : Context) (registry : Registry) :
    level frame inside ctx registry = match inside (ctx.push frame) registry with
      | ((result, after), last) => ((result, after.pop), last) :=
  rfl

theorem placeholder_run (key : String) (ctx : Context) (registry : Registry) :
    placeholder key ctx registry = match ctx.scopes.lookUp ctx.bindings key with
      | .ok value => ((.ok "?", { ctx with params := ctx.params ++ [value] }), registry)
      | .error e => ((.error e, ctx), registry) := by
  change (liftM (ctx.scopes.lookUp ctx.bindings key) >>= fun value => do
    set { ctx with params := ctx.params ++ [value] }
    return "?" : Session String) ctx registry = _
  cases ctx.scopes.lookUp ctx.bindings key <;> rfl

end Session

/-- The session gives the context back as it was, with more parameters. What it comes to, what it
appends and the names that it gives out depend on the bindings, the scopes and the names alone. -/
def Steady {α : Type} (session : Session α) : Prop :=
  ∀ bindings scopes registry, ∃ result values last, ∀ params,
    session ⟨bindings, scopes, params⟩ registry =
      ((result, ⟨bindings, scopes, params ++ values⟩), last)

namespace Steady

variable {α β : Type}

/-- A session that appends nothing. -/
theorem of_params_kept {session : Session α}
    (h : ∀ bindings scopes registry, ∃ result last, ∀ params,
      session ⟨bindings, scopes, params⟩ registry = ((result, ⟨bindings, scopes, params⟩), last)) :
    Steady session := by
  intro bindings scopes registry
  obtain ⟨result, last, hrun⟩ := h bindings scopes registry
  refine ⟨result, [], last, fun params => ?_⟩
  rw [hrun, List.append_nil]

theorem pure (a : α) : Steady (pure a) :=
  of_params_kept fun _ _ registry => ⟨.ok a, registry, fun _ => rfl⟩

theorem lift (x : Except QueryError α) : Steady (liftM x) :=
  of_params_kept fun _ _ registry => ⟨x, registry, fun _ => by cases x <;> rfl⟩

theorem setting (options : Options) : Steady (Session.setting options) :=
  of_params_kept fun bindings scopes registry =>
    ⟨.ok ⟨bindings, options, scopes⟩, registry, fun _ => rfl⟩

theorem naming (step : Naming α) : Steady (Session.naming step) :=
  of_params_kept fun _ _ registry => ⟨.ok (step registry).1, (step registry).2, fun _ => rfl⟩

theorem bind {x : Session α} {f : α → Session β} (hx : Steady x) (hf : ∀ a, Steady (f a)) :
    Steady (x >>= f) := by
  intro bindings scopes registry
  obtain ⟨result, values, between, hfirst⟩ := hx bindings scopes registry
  cases result with
  | error e =>
    refine ⟨.error e, values, between, fun params => ?_⟩
    rw [Session.bind_run, hfirst]
  | ok a =>
    obtain ⟨result, more, last, hlater⟩ := hf a bindings scopes between
    refine ⟨result, values ++ more, last, fun params => ?_⟩
    rw [Session.bind_run, hfirst, ← List.append_assoc]
    exact hlater (params ++ values)

theorem map (f : α → β) {x : Session α} (hx : Steady x) : Steady (f <$> x) := by
  rw [map_eq_pure_bind]
  exact hx.bind fun a => .pure (f a)

theorem placeholder (key : String) : Steady (Session.placeholder key) := by
  intro bindings scopes registry
  cases hvalue : scopes.lookUp bindings key with
  | error e =>
    refine ⟨.error e, [], registry, fun params => ?_⟩
    simp only [Session.placeholder_run, hvalue, List.append_nil]
  | ok value =>
    refine ⟨.ok "?", [value], registry, fun params => ?_⟩
    simp only [Session.placeholder_run, hvalue]

/-- The scope that a level pushes is the one that it pops, as the level itself gives the scopes
back. -/
theorem level (frame : Frame) {inside : Session α} (h : Steady inside) :
    Steady (Session.level frame inside) := by
  intro bindings scopes registry
  obtain ⟨result, values, last, hinside⟩ := h bindings (frame :: scopes) registry
  refine ⟨result, values, last, fun params => ?_⟩
  rw [Session.level_run, Context.push, hinside]
  rfl

end Steady

/-! Each form of what is written gives the context back if its parts do. -/

section
variable (options : Options)

theorem steady_onlyColumn {only : Option Session.OnlyColumn} (h : ∀ c ∈ only, Steady c.text)
    {given : Session (List String)} (hgiven : Steady given) :
    Steady (Session.OnlyColumn.items only given) := by
  cases only with
  | none => exact hgiven
  | some c => exact (h c rfl).map _

mutual

theorem steady_expr : (e : Expr) → Steady (Session.expr options e)
  | .value v => .pure v.literal
  | .param key => .placeholder key
  | .star => .pure "*"
  | .column ⟨owner, field, label, correlated⟩ => steady_column _ owner
  | .unary _ operand => (steady_expr operand).bind fun _ => .pure _
  | .binary _ left right =>
    (steady_expr left).bind fun _ => (steady_expr right).bind fun _ => .pure _
  | .between subject low high =>
    (steady_expr subject).bind fun _ => (steady_expr low).bind fun _ =>
      (steady_expr high).bind fun _ => .pure _
  | .call _ args => (steady_exprs args).bind fun _ => .pure _
  | .list items => (steady_exprs items).bind fun _ => .pure _
  | .labeled e _ => steady_expr e
  | .subquery ⟨name, q⟩ => (steady_query (some name) .own none (by simp) q).bind fun _ => .pure _

theorem steady_exprs : (es : List Expr) → Steady (Session.exprs options es)
  | [] => .pure []
  | e :: rest => (steady_expr e).bind fun _ => (steady_exprs rest).bind fun _ => .pure _

theorem steady_items : (es : List Expr) → Steady (Session.items options es)
  | [] => .pure []
  | e :: rest =>
    (steady_expr e).bind fun _ => (Steady.setting options).bind fun _ =>
      (steady_items rest).bind fun _ => .pure _

theorem steady_column (c : Column) : (owner : Relation) → Steady (Session.column options c owner)
  | .projected (.unfolded ⟨name, q⟩) source =>
    (Steady.lift (source.column c.field)).bind fun inner =>
      (steady_query (some name) .made (some ⟨inner, Session.column options inner source⟩)
        (by rintro _ ⟨⟩; exact steady_column inner source) q).bind fun _ => .pure _
  | .projected (.derived _) _ => (Steady.setting options).bind fun s => .lift (s.column c)
  | .table _ => (Steady.setting options).bind fun s => .lift (s.column c)
  | .alias_ _ => (Steady.setting options).bind fun s => .lift (s.column c)
  | .derived _ => (Steady.setting options).bind fun s => .lift (s.column c)

theorem steady_query (alias_ : Option String) (identity : Identity)
    (only : Option Session.OnlyColumn) (h : ∀ c ∈ only, Steady c.text) :
    (q : Query) → Steady (Session.query options alias_ identity only q)
  | ⟨select, sub, sources, filter, group, having, order, limit, id⟩ => by
    rw [Session.query]
    refine (Steady.setting options).bind fun s => (Steady.lift _).bind fun _ => ?_
    split
    · exact .level _ (steady_bareUnion identity sources)
    · refine .level _ ?_
      refine (Steady.naming _).bind fun id => ?_
      refine (steady_onlyColumn h (steady_items select)).bind fun _ => ?_
      refine (steady_sources identity id sources).bind fun _ => ?_
      refine (steady_exprs filter).bind fun _ => ?_
      refine (steady_exprs group).bind fun _ => ?_
      refine (steady_exprs having).bind fun _ => ?_
      refine (steady_exprs order).bind fun _ => ?_
      exact (steady_exprs limit).bind fun _ => .pure _

theorem steady_bareUnion (identity : Identity) : (sources : List Source) →
    Steady (Session.bareUnion options identity sources)
  | .union _ left right :: _ =>
    (steady_query none identity.ofOperands none (by simp) left).bind fun _ =>
      (steady_query none identity.ofOperands none (by simp) right).bind fun _ => .pure _
  | .relation _ :: _ => .pure ""
  | .join .. :: _ => .pure ""
  | [] => .pure ""

theorem steady_sources (identity : Identity) (id : Nat) : (sources : List Source) →
    Steady (Session.sourceTexts options identity id sources)
  | [] => .pure []
  | source :: rest =>
    (steady_source identity id source).bind fun _ =>
      (steady_sources identity id rest).bind fun _ => .pure _

theorem steady_source (identity : Identity) (id : Nat) : (source : Source) →
    Steady (Session.sourceText options identity id source)
  | .relation (.table t) => .pure t.name
  | .relation (.alias_ a) => .pure (a.table.name ++ " as " ++ a.name)
  | .relation (.projected scope _) => .pure scope.name
  | .relation (.derived ⟨name, q, _⟩) =>
    (steady_query (some name) .own none (by simp) q).bind fun _ => .pure _
  | .join _ left right on =>
    (steady_source identity id left).bind fun _ => (steady_source identity id right).bind fun _ =>
      (steady_exprs on).bind fun _ => .pure _
  | .union _ left right =>
    (steady_query none identity.ofOperands none (by simp) left).bind fun _ =>
      (steady_query none identity.ofOperands none (by simp) right).bind fun _ =>
        (Steady.naming _).bind fun _ => .pure _

end

/-- Compiling gives a context back as it was, with constants behind its parameters, whether it
succeeds or fails. Neither what it comes to nor the constants depend on the parameters that there
were. So a query that is compiled behind another one does what it does alone, and the parameters
of the two stand one after the other. -/
theorem compile_gives_back (ctx : Context) (q : Query) (registry : Registry) :
    (∃ result values last, ∀ params,
      Context.compile { ctx with params := params } options q registry =
        ((result, { ctx with params := params ++ values }), last)) ∧
      ∀ (options' : Options) (q' : Query),
        let first := (Context.start ctx.bindings).compile options q registry
        let alone := (Context.start ctx.bindings).compile options' q' first.2
        first.1.2.compile options' q' first.2 =
          ((alone.1.1, { alone.1.2 with params := first.1.2.params ++ alone.1.2.params }),
            alone.2) := by
  have hsteady : ∀ options q, Steady (Session.query options none .own none q) :=
    fun options q => steady_query options none .own none (by simp) q
  refine ⟨hsteady options q ctx.bindings ctx.scopes registry, ?_⟩
  intro options' q' first alone
  obtain ⟨result, values, between, hfirst⟩ := hsteady options q ctx.bindings [] registry
  obtain ⟨result', values', last, hsecond⟩ := hsteady options' q' ctx.bindings [] between
  have hone : first = ((result, ⟨ctx.bindings, [], values⟩), between) := hfirst []
  have htwo : alone = ((result', ⟨ctx.bindings, [], values'⟩), last) := by
    simp only [alone, hone]
    exact hsecond []
  rw [htwo, hone]
  exact hsecond values

end

end QueryTree.Render
