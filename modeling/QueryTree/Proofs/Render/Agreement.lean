import QueryTree.Proofs.Render.Runs
import QueryTree.Proofs.Render.Steadiness
import QueryTree.Proofs.Tree.Built

/-!
Writing by hand is the same as writing with the scopes handed inward. The two differ at one place
only, where a column that stands for a subquery is looked up once more: in what can be built, the
lookup always finds the column.
-/

namespace QueryTree.Render

/-- The session does what the writer does in the scopes of the context. -/
def Writes {α : Type} (options : Options) (session : Session α) (piece : Setting → Writer α) :
    Prop :=
  ∀ ctx : Context, session ctx = ctx.write options piece

namespace Writes

variable {α β : Type} {options : Options}

theorem pure (f : Options → α) : Writes options (pure (f options)) fun s => pure (f s.options) :=
  fun _ => rfl

theorem naming (step : Naming α) : Writes options (Session.naming step) fun _ => naming step :=
  fun _ => rfl

theorem bind {x : Session α} {f : α → Session β} {first : Setting → Writer α}
    {rest : α → Setting → Writer β} (hx : Writes options x first)
    (hf : ∀ a, Writes options (f a) (rest a)) :
    Writes options (x >>= f) fun s => first s >>= fun a => rest a s := by
  intro ctx
  funext registry
  rw [Session.bind_run, hx, Context.write, Context.write, bind_run]
  cases first ⟨ctx.bindings, options, ctx.scopes⟩ ⟨ctx.params, registry⟩ with
  | mk result between =>
    cases result with
    | error e => rfl
    | ok a =>
      dsimp only
      rw [hf]
      rfl

theorem map (f : α → β) {x : Session α} {piece : Setting → Writer α} (h : Writes options x piece) :
    Writes options (f <$> x) fun s => f <$> piece s := by
  simp only [map_eq_pure_bind]
  exact h.bind fun a => pure fun _ => f a

/-- The setting that a session asks for is the one that the writer has been handed. -/
theorem setting_bind {f : Setting → Session α} {piece : Setting → Setting → Writer α}
    (h : ∀ s, Writes options (f s) (piece s)) :
    Writes options (Session.setting options >>= f) fun s => piece s s := by
  intro ctx
  exact h ⟨ctx.bindings, options, ctx.scopes⟩ ctx

theorem lift (x : Except QueryError α) : Writes options (liftM x) fun _ => liftM x := by
  intro ctx
  cases x <;> rfl

theorem column (c : Column) :
    Writes options (Session.setting options >>= fun s => liftM (s.column c))
      fun s => liftM (s.column c) :=
  setting_bind fun s => lift (s.column c)

theorem placeholder (key : String) :
    Writes options (Session.placeholder key) fun s => s.placeholder key := by
  intro ctx
  funext registry
  rw [Session.placeholder_run, Context.write, Setting.placeholder, bind_run]
  cases ctx.scopes.lookUp ctx.bindings key <;> rfl

theorem level (frame : Frame) {inside : Session α} {piece : Setting → Writer α}
    (h : Writes options inside piece) :
    Writes options (Session.level frame inside)
      fun s => piece (s.enter frame.alias_ frame.tables frame.bare) := by
  intro ctx
  funext registry
  rw [Session.level_run, h]
  rfl

end Writes

/-- The one column is the same, and so is what is written for it. -/
structure WritesColumn (options : Options) (session : Session.OnlyColumn) (piece : OnlyColumn) :
    Prop where
  column : session.column = piece.column
  text : Writes options session.text piece.text

section
variable {options : Options}

theorem only_of_eq {byHand : Option Session.OnlyColumn} {only : Option OnlyColumn}
    (h : Option.Rel (WritesColumn options) byHand only) (q : Query) :
    Session.OnlyColumn.of byHand q = OnlyColumn.of only q := by
  cases h with
  | none => rfl
  | some h => simp only [Session.OnlyColumn.of, OnlyColumn.of, h.column]

theorem writes_only {byHand : Option Session.OnlyColumn} {only : Option OnlyColumn}
    (h : Option.Rel (WritesColumn options) byHand only) {given : Session (List String)}
    {piece : Setting → Writer (List String)} (hgiven : Writes options given piece) :
    Writes options (Session.OnlyColumn.items byHand given)
      fun s => OnlyColumn.items only s (piece s) := by
  cases h with
  | none => exact hgiven
  | some h => exact h.text.map List.singleton

/-- A known column that stands for a subquery is found once more. -/
theorem writes_lookUp {source : Relation} {field : String} (h : source.Has field)
    {rest : Column → Session String} {piece : Setting → Writer String}
    (hrest : Writes options (rest (.plain source field)) piece) :
    Writes options (liftM (source.column field) >>= rest) piece := by
  rw [h]
  exact hrest

theorem writes_checked (q : Query) {rest : Session String} {piece : Setting → Writer String}
    (h : Writes options rest piece) :
    Writes options (do let s ← Session.setting options; s.check q; rest)
      (fun s => do s.check q; piece s) :=
  Writes.setting_bind fun s => (Writes.lift (s.check q)).bind fun _ => h

mutual

theorem writes_expr : (e : Expr) → e.Known → Writes options (Session.expr options e) (expr · e)
  | .value v, _ => .pure fun _ => v.literal
  | .param key, _ => .placeholder key
  | .star, _ => .pure fun _ => "*"
  | .column ⟨owner, field, label, correlated⟩, ⟨howner, hfield⟩ =>
    writes_column ⟨owner, field, label, correlated⟩ owner howner hfield
  | .unary _ operand, h => (writes_expr operand h).bind fun _ => .pure fun _ => _
  | .binary _ left right, ⟨hleft, hright⟩ =>
    (writes_expr left hleft).bind fun _ => (writes_expr right hright).bind fun _ => .pure fun _ => _
  | .between subject low high, ⟨hsubject, hlow, hhigh⟩ =>
    (writes_expr subject hsubject).bind fun _ => (writes_expr low hlow).bind fun _ =>
      (writes_expr high hhigh).bind fun _ => .pure fun _ => _
  | .call _ args, h => (writes_exprs args h).bind fun _ => .pure fun _ => _
  | .list items, h => (writes_exprs items h).bind fun _ => .pure fun _ => _
  | .labeled e _, h => writes_expr e h
  | .subquery ⟨name, q⟩, h =>
    (writes_query (some name) .own none none .none q h).bind fun _ => .pure fun _ => _

theorem writes_exprs : (es : List Expr) → exprsKnown es →
    Writes options (Session.exprs options es) (exprs · es)
  | [], _ => .pure fun _ => []
  | e :: rest, ⟨he, hrest⟩ =>
    (writes_expr e he).bind fun _ => (writes_exprs rest hrest).bind fun _ => .pure fun _ => _

theorem writes_items : (es : List Expr) → exprsKnown es →
    Writes options (Session.items options es) fun s => s.labeled es <$> exprs s es
  | [], _ => .pure fun _ => []
  | e :: rest, ⟨he, hrest⟩ => by
    -- the writer puts the labels behind all texts at the end, the session behind each at once
    have hcons : (fun s => s.labeled (e :: rest) <$> exprs s (e :: rest)) =
        fun s => expr s e >>= fun text =>
          (s.labeled rest <$> exprs s rest) >>= fun texts =>
            (pure ((text ++ s.label e) :: texts) : Writer (List String)) := by
      funext s
      simp [exprs, Setting.labeled]
    rw [hcons]
    refine (writes_expr e he).bind fun text => ?_
    have hlater : ∀ s : Setting, Writes options
        (Session.items options rest >>= fun texts => pure ((text ++ s.label e) :: texts))
        fun s' : Setting => (s'.labeled rest <$> exprs s' rest) >>= fun texts =>
          pure ((text ++ s.label e) :: texts) := fun s =>
      (writes_items rest hrest).bind fun texts => .pure fun _ => (text ++ s.label e) :: texts
    exact Writes.setting_bind hlater

theorem writes_column (c : Column) : (owner : Relation) → owner.Known → owner.Has c.field →
    Writes options (Session.column options c owner) (column · c owner)
  | .projected (.unfolded ⟨name, q⟩) source, ⟨hq, hsource⟩, hfield => by
    -- what the owner has, its source has: so the lookup cannot fail
    have hinner := Relation.has_projected_iff.mp hfield
    refine writes_lookUp hinner ?_
    refine (writes_query (some name) .made _ _ (.some ⟨rfl, ?_⟩) q hq).bind fun _ =>
      .pure fun _ => _
    exact writes_column (.plain source c.field) source hsource hinner
  | .projected (.derived _) _, _, _ => .column c
  | .table _, _, _ => .column c
  | .alias_ _, _, _ => .column c
  | .derived _, _, _ => .column c

theorem writes_query (alias_ : Option String) (identity : Identity)
    (byHand : Option Session.OnlyColumn) (only : Option OnlyColumn)
    (h : Option.Rel (WritesColumn options) byHand only) : (q : Query) → q.Known →
    Writes options (Session.query options alias_ identity byHand q)
      (query · alias_ identity only q)
  | ⟨select, sub, sources, filter, group, having, order, limit, id⟩,
    ⟨hselect, hsources, hfilter, hgroup, hhaving, horder, hlimit⟩ => by
    unfold Session.query query
    simp only [only_of_eq h]
    refine writes_checked _ ?_
    split
    · exact .level _ (writes_bareUnion identity sources hsources)
    -- put together before the level is entered, so that the setting inside stays a variable
    · have hinside := (Writes.naming (identity.number id)).bind fun id =>
        (writes_only h (writes_items select hselect)).bind fun select =>
        (writes_sources identity id sources hsources).bind fun sources =>
        (writes_exprs filter hfilter).bind fun filter =>
        (writes_exprs group hgroup).bind fun group =>
        (writes_exprs having hhaving).bind fun having =>
        (writes_exprs order horder).bind fun order =>
        (writes_exprs limit hlimit).bind fun limit =>
        Writes.pure fun options : Options =>
          Level.text ⟨select, sources, filter, group, having, order, limit⟩ options.separator
      exact .level _ hinside

theorem writes_bareUnion (identity : Identity) : (sources : List Source) → sourcesKnown sources →
    Writes options (Session.bareUnion options identity sources) (bareUnion · identity sources)
  | .union _ left right :: _, ⟨⟨hleft, hright⟩, _⟩ =>
    (writes_query none identity.ofOperands none none .none left hleft).bind fun _ =>
      (writes_query none identity.ofOperands none none .none right hright).bind fun _ =>
        .pure fun _ => _
  | .relation _ :: _, _ => .pure fun _ => ""
  | .join .. :: _, _ => .pure fun _ => ""
  | [], _ => .pure fun _ => ""

theorem writes_sources (identity : Identity) (id : Nat) : (sources : List Source) →
    sourcesKnown sources →
    Writes options (Session.sourceTexts options identity id sources)
      (sourceTexts · identity id sources)
  | [], _ => .pure fun _ => []
  | source :: rest, ⟨hsource, hrest⟩ =>
    (writes_source identity id source hsource).bind fun _ =>
      (writes_sources identity id rest hrest).bind fun _ => .pure fun _ => _

theorem writes_source (identity : Identity) (id : Nat) : (source : Source) → source.Known →
    Writes options (Session.sourceText options identity id source)
      (sourceText · identity id source)
  | .relation (.table t), _ => .pure fun _ => t.name
  | .relation (.alias_ a), _ => .pure fun _ => a.table.name ++ " as " ++ a.name
  | .relation (.projected scope _), _ => .pure fun _ => scope.name
  | .relation (.derived ⟨name, q, _⟩), ⟨hq, _⟩ =>
    (writes_query (some name) .own none none .none q hq).bind fun _ => .pure fun _ => _
  | .join _ left right on, ⟨hleft, hright, hon⟩ =>
    (writes_source identity id left hleft).bind fun _ =>
      (writes_source identity id right hright).bind fun _ =>
        (writes_exprs on hon).bind fun _ => .pure fun _ => _
  | .union _ left right, ⟨hleft, hright⟩ =>
    (writes_query none identity.ofOperands none none .none left hleft).bind fun _ =>
      (writes_query none identity.ofOperands none none .none right hright).bind fun _ =>
        (Writes.naming _).bind fun _ => .pure fun _ => _

end

/-- A query that can be built is compiled as it is written in the scopes of the context. -/
theorem compile_eq_write {q : Query} (h : Built (.query q)) (ctx : Context) (options : Options) :
    ctx.compile options q = ctx.write options fun s => query s none .own none q :=
  writes_query none .own none none .none q h.known ctx

/-- The statement of a query that can be built is what compiling it into a fresh context comes
to. -/
theorem statement_eq_compile {q : Query} (h : Built (.query q)) (bindings : Bindings)
    (options : Options) :
    q.statement bindings options = (do
      let (result, ctx) ← ((Context.start bindings).compile options q : Naming _)
      return ⟨← result, ctx.params⟩) := by
  rw [compile_eq_write h]
  rfl

end

/-! A column that stands for a subquery is written as a query that is no part of the tree. -/

theorem Session.items_column (options : Options) {c : Column} (h : c.label = none) :
    Session.items options [.column c] = List.singleton <$> Session.column options c c.owner := by
  obtain ⟨owner, field, label, correlated⟩ := c
  obtain rfl : label = none := h
  funext ctx registry
  rw [map_eq_pure_bind, items, expr, bind_run, bind_run]
  cases column options ⟨owner, field, none, correlated⟩ owner ctx registry with
  | mk between last =>
    cases between with
    | mk result between =>
      cases result with
      | error e => rfl
      | ok text =>
        change ((Except.ok [text ++ ""], between), last) = _
        rw [String.append_empty]
        rfl

theorem Session.query_of_only (options : Options) (alias_ : Option String) (identity : Identity)
    {c : Column} (h : c.label = none) (q : Query) :
    Session.query options alias_ identity (some ⟨c, Session.column options c c.owner⟩) q =
      Session.query options alias_ identity none (q.extend .select [.column c] true) := by
  obtain ⟨select, sub, sources, filter, group, having, order, limit, id⟩ := q
  have hextend : Query.extend ⟨select, sub, sources, filter, group, having, order, limit, id⟩
      .select [.column c] true =
        ⟨[.column c], sub, sources, filter, group, having, order, limit, id⟩ := by
    cases sub <;> rfl
  rw [hextend]
  unfold Session.query
  simp only [OnlyColumn.of, hextend, OnlyColumn.items, items_column options h]

/-- A column that stands for a subquery is written as the query made of the subquery with the column
behind it, which is looked up, in place of the SELECT list. -/
theorem Session.column_unfolded (options : Options) (c : Column) (name : String) (q : Query)
    (source : Relation) :
    Session.column options c (.projected (.unfolded ⟨name, q⟩) source) = (do
      let inner ← source.column c.field
      let text ← Session.query options (some name) .made none
        (q.extend .select [.column inner] true)
      return parenthesized text) := by
  rw [Session.column]
  cases hinner : source.column c.field with
  | error e => rfl
  | ok inner =>
    obtain rfl := source.eq_plain_of_column hinner
    have hquery := query_of_only options (some name) .made (c := .plain source c.field) rfl q
    exact congrArg (· >>= fun text => pure (parenthesized text)) hquery

end QueryTree.Render
