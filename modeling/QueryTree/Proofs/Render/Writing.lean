import QueryTree.Proofs.Render.Fragments

/-!
Writing a query is writing its fragments one after the other. The main statement is an equality of
writers, so that text, parameters, errors and generated names all agree.
-/

namespace QueryTree.Render

/-- Writes a fragment. The numbers are those of the levels around it, from the innermost outward. -/
def Fragment.write (bindings : Bindings) (options : Options) (numbers : List Nat) :
    Fragment → Writer (String × List Nat)
  | .word w => pure (w.text, numbers)
  | .name n => pure (n, numbers)
  | .function n => pure (Text.upper n, numbers)
  | .constant v => pure (v.literal, numbers)
  | .marker scopes key => do
    let text ← Setting.placeholder ⟨bindings, options, scopes⟩ key
    return (text, numbers)
  | .column scopes c => do
    let text ← Setting.column ⟨bindings, options, scopes⟩ c
    return (text, numbers)
  | .separator => pure (options.separator, numbers)
  | .check q => do
    Setting.check ⟨bindings, options, []⟩ q
    return ("", numbers)
  | .number identity id => do
    let number ← naming (identity.number id)
    return ("", number :: numbers)
  | .generated => do
    let text ← naming (Registry.nameOf (numbers.headD 0))
    return (text, numbers)
  | .leave => pure ("", numbers.tail)

/-- Writes fragments in their order. -/
def writeAll (bindings : Bindings) (options : Options) :
    List Fragment → List Nat → Writer (String × List Nat)
  | [], numbers => pure ("", numbers)
  | f :: rest, numbers => do
    let first ← f.write bindings options numbers
    let others ← writeAll bindings options rest first.2
    return (first.1 ++ others.1, others.2)

/-- Writes lists of fragments, with a text for each list. -/
def writeEach (bindings : Bindings) (options : Options) :
    List (List Fragment) → List Nat → Writer (List String × List Nat)
  | [], numbers => pure ([], numbers)
  | part :: rest, numbers => do
    let first ← writeAll bindings options part numbers
    let others ← writeEach bindings options rest first.2
    return (first.1 :: others.1, others.2)

/-- A writer beside fragments that leave the numbers of the levels as they were. -/
def keeping {α : Type} (numbers : List Nat) (writer : Writer α) : Writer (α × List Nat) := do
  let a ← writer
  return (a, numbers)

section
variable (bindings : Bindings) (options : Options)

@[simp] theorem writeAll_append (fs gs : List Fragment) (numbers : List Nat) :
    writeAll bindings options (fs ++ gs) numbers = (do
      let first ← writeAll bindings options fs numbers
      let others ← writeAll bindings options gs first.2
      return (first.1 ++ others.1, others.2)) := by
  induction fs generalizing numbers with
  | nil => simp [writeAll]
  | cons f fs ih => simp [writeAll, ih, String.append_assoc]

@[simp] theorem writeEach_append (ps qs : List (List Fragment)) (numbers : List Nat) :
    writeEach bindings options (ps ++ qs) numbers = (do
      let first ← writeEach bindings options ps numbers
      let others ← writeEach bindings options qs first.2
      return (first.1 ++ others.1, others.2)) := by
  induction ps generalizing numbers with
  | nil => simp [writeEach]
  | cons p ps ih => simp [writeEach, ih]

theorem writeAll_joined {between : Fragment} {text : String}
    (h : ∀ numbers, between.write bindings options numbers = pure (text, numbers))
    (ps : List (List Fragment)) (numbers : List Nat) :
    writeAll bindings options (joined between ps) numbers = (do
      let texts ← writeEach bindings options ps numbers
      return (text.intercalate texts.1, texts.2)) := by
  induction ps generalizing numbers with
  | nil => simp [joined, writeAll, writeEach]
  | cons p ps ih =>
    cases ps with
    | nil => simp [joined, writeEach]
    | cons q qs =>
      rw [joined, writeAll_append]
      simp [writeAll, h, ih, writeEach, String.append_assoc]

@[simp] theorem writeAll_enclosed (fs : List Fragment) (numbers : List Nat) :
    writeAll bindings options (enclosed fs) numbers = (do
      let inner ← writeAll bindings options fs numbers
      return (parenthesized inner.1, inner.2)) := by
  simp [enclosed, writeAll, Fragment.write, Word.text, parenthesized, String.append_assoc]

@[simp] theorem writeAll_listed (ps : List (List Fragment)) (numbers : List Nat) :
    writeAll bindings options (listed ps) numbers = (do
      let texts ← writeEach bindings options ps numbers
      return (", ".intercalate texts.1, texts.2)) :=
  writeAll_joined bindings options (fun _ => rfl) ps numbers

@[simp] theorem writeEach_clause (kind : ClauseKind) (items : List (List Fragment))
    (numbers : List Nat) :
    writeEach bindings options (clauseFragments kind items) numbers = (do
      let texts ← writeEach bindings options items numbers
      return (clauseText kind texts.1, texts.2)) := by
  cases items with
  | nil => simp [clauseFragments, clauseText, writeEach]
  | cons p ps =>
    simp [clauseFragments, clauseText, writeEach, writeAll, Fragment.write, Word.text,
      String.append_assoc]

@[simp] theorem writeEach_select (items : List (List Fragment)) (numbers : List Nat) :
    writeEach bindings options (selectFragments items) numbers = (do
      let texts ← writeEach bindings options items numbers
      return (selectText texts.1, texts.2)) := by
  cases items with
  | nil => simp [selectFragments, selectText, writeEach, writeAll, Fragment.write, Word.text]
  | cons p ps => simp [selectFragments, selectText, writeEach]

theorem writeAll_foldl_and (first : List Fragment) (ps : List (List Fragment))
    (numbers : List Nat) :
    writeAll bindings options
      (ps.foldl (fun left right => enclosed (left ++ .word .and_ :: right)) first) numbers = (do
      let text ← writeAll bindings options first numbers
      let texts ← writeEach bindings options ps text.2
      return (texts.1.foldl (fun left right => parenthesized (left ++ " AND " ++ right)) text.1,
        texts.2)) := by
  induction ps generalizing first numbers with
  | nil => simp [writeEach]
  | cons p ps ih =>
    simp [ih, writeEach, writeAll, Fragment.write, Word.text, String.append_assoc]

@[simp] theorem writeAll_on (ps : List (List Fragment)) (numbers : List Nat) :
    writeAll bindings options (onFragments ps) numbers = (do
      let texts ← writeEach bindings options ps numbers
      return (onText texts.1, texts.2)) := by
  cases ps with
  | nil => simp [onFragments, onText, writeEach, writeAll]
  | cons p ps =>
    simp [onFragments, onText, writeEach, writeAll, writeAll_foldl_and, Fragment.write, Word.text]

@[simp] theorem writeAll_level (level : LevelParts) (numbers : List Nat) :
    writeAll bindings options level.fragments numbers = (do
      let select ← writeEach bindings options level.select numbers
      let sources ← writeEach bindings options level.sources select.2
      let filter ← writeEach bindings options level.filter sources.2
      let group ← writeEach bindings options level.group filter.2
      let having ← writeEach bindings options level.having group.2
      let order ← writeEach bindings options level.order having.2
      let limit ← writeEach bindings options level.limit order.2
      return (Level.text ⟨select.1, sources.1, filter.1, group.1, having.1, order.1, limit.1⟩
        options.separator, limit.2)) := by
  rw [LevelParts.fragments, writeAll_joined bindings options (fun _ => rfl)]
  simp [Level.text]

@[simp] theorem writeAll_label (scopes : Scopes) (e : Expr) (numbers : List Nat) :
    writeAll bindings options (labelFragments scopes e) numbers =
      pure (Setting.label ⟨bindings, options, scopes⟩ e, numbers) := by
  cases e with
  | column c =>
    cases hl : c.label <;> cases hb : scopes.isBare <;>
      simp [labelFragments, Setting.label, hl, hb, writeAll, Fragment.write, Word.text]
  | labeled e l => simp [labelFragments, Setting.label, writeAll, Fragment.write, Word.text]
  | _ => simp [labelFragments, Setting.label, writeAll]

/-- The fragments of a narrowing are those of the column written in place of a SELECT list. -/
structure Narrows (only : OnlyColumn) (narrowing : Narrowing Fragment) : Prop where
  column : only.column = narrowing.1
  text : ∀ scopes numbers, writeAll bindings options (narrowing.2 scopes) numbers =
    keeping numbers (only.text ⟨bindings, options, scopes⟩)

theorem narrowed_eq {only : Option OnlyColumn} {narrowing : Option (Narrowing Fragment)}
    (h : Option.Rel (Narrows bindings options) only narrowing) (q : Query) :
    Query.narrowed narrowing q = OnlyColumn.of only q := by
  cases h with
  | none => rfl
  | some h => simp [Query.narrowed, OnlyColumn.of, h.column]

theorem writeEach_narrowed {only : Option OnlyColumn} {narrowing : Option (Narrowing Fragment)}
    (h : Option.Rel (Narrows bindings options) only narrowing) (scopes : Scopes)
    {parts : List (List Fragment)} {given : Writer (List String)} {numbers : List Nat}
    (hgiven : writeEach bindings options parts numbers = keeping numbers given) :
    writeEach bindings options (narrowedItems narrowing scopes parts) numbers =
      keeping numbers (OnlyColumn.items only ⟨bindings, options, scopes⟩ given) := by
  cases h with
  | none => exact hgiven
  | some h => simp [narrowedItems, OnlyColumn.items, writeEach, h.text, keeping, List.singleton]

/-! The walk itself, one case for each form of what is written. -/

mutual

theorem writeAll_expr (scopes : Scopes) (numbers : List Nat) : (e : Expr) →
    writeAll bindings options (exprFragments scopes e) numbers =
      keeping numbers (expr ⟨bindings, options, scopes⟩ e)
  | .value v => by simp [exprFragments, expr, writeAll, Fragment.write, keeping]
  | .param key => by simp [exprFragments, expr, writeAll, Fragment.write, keeping]
  | .star => by simp [exprFragments, expr, writeAll, Fragment.write, Word.text, keeping]
  | .column ⟨owner, field, label, correlated⟩ => by
    simp [exprFragments, expr, writeAll_column scopes numbers _ owner]
  | .unary op operand => by
    have h := fun n => writeAll_expr scopes n operand
    simp only [exprFragments, expr]
    cases hop : op.isPostfix with
    | false => simp [writeAll, h, Fragment.write, Word.text, keeping, String.append_assoc]
    | true => simp [writeAll, h, Fragment.write, Word.text, keeping, String.append_assoc]
  | .binary op left right => by
    have hl := fun n => writeAll_expr scopes n left
    have hr := fun n => writeAll_expr scopes n right
    simp [exprFragments, expr, writeAll, hl, hr, Fragment.write, Word.text, keeping,
      String.append_assoc]
  | .between subject low high => by
    have hs := fun n => writeAll_expr scopes n subject
    have hl := fun n => writeAll_expr scopes n low
    have hh := fun n => writeAll_expr scopes n high
    simp [exprFragments, expr, writeAll, hs, hl, hh, Fragment.write, Word.text, keeping,
      String.append_assoc]
  | .call name args => by
    have h := fun n => writeEach_exprs scopes n args
    simp [exprFragments, expr, writeAll, h, Fragment.write, keeping]
  | .list items => by
    have h := fun n => writeEach_exprs scopes n items
    simp [exprFragments, expr, h, keeping]
  | .labeled e _ => by simpa [exprFragments, expr] using writeAll_expr scopes numbers e
  | .subquery ⟨name, q⟩ => by
    have h := fun n => writeAll_query scopes (some name) .own none none .none n q
    simp [exprFragments, expr, h, keeping]

theorem writeEach_exprs (scopes : Scopes) (numbers : List Nat) : (es : List Expr) →
    writeEach bindings options (exprsFragments scopes es) numbers =
      keeping numbers (exprs ⟨bindings, options, scopes⟩ es)
  | [] => by simp [exprsFragments, exprs, writeEach, keeping]
  | e :: rest => by
    have h := fun n => writeAll_expr scopes n e
    have hs := fun n => writeEach_exprs scopes n rest
    simp [exprsFragments, exprs, writeEach, h, hs, keeping]

theorem writeEach_items (scopes : Scopes) (numbers : List Nat) : (es : List Expr) →
    writeEach bindings options (itemFragments scopes es (exprsFragments scopes es)) numbers =
      keeping numbers (Setting.labeled ⟨bindings, options, scopes⟩ es <$>
        exprs ⟨bindings, options, scopes⟩ es)
  | [] => by simp [exprsFragments, exprs, itemFragments, Setting.labeled, writeEach, keeping]
  | e :: rest => by
    have h := fun n => writeAll_expr scopes n e
    have hs := fun n => writeEach_items scopes n rest
    simp only [itemFragments] at hs
    simp [exprsFragments, exprs, itemFragments, Setting.labeled, writeEach, h, hs, keeping]

theorem writeAll_column (scopes : Scopes) (numbers : List Nat) (c : Column) :
    (owner : Relation) →
    writeAll bindings options (columnFragments scopes c owner) numbers =
      keeping numbers (column ⟨bindings, options, scopes⟩ c owner)
  | .projected (.unfolded ⟨name, q⟩) source => by
    have h := fun n => writeAll_query scopes (some name) .made
      (some ⟨Column.plain source c.field,
        fun s => column s (Column.plain source c.field) source⟩)
      (some (Column.plain source c.field,
        fun scopes => columnFragments scopes (Column.plain source c.field) source))
      (.some ⟨rfl, fun scopes n => writeAll_column scopes n _ source⟩) n q
    simp [columnFragments, column, h, keeping]
  | .projected (.derived d) source => by
    simp [columnFragments, column, writeAll, Fragment.write, keeping]
  | .table t => by simp [columnFragments, column, writeAll, Fragment.write, keeping]
  | .alias_ a => by simp [columnFragments, column, writeAll, Fragment.write, keeping]
  | .derived d => by simp [columnFragments, column, writeAll, Fragment.write, keeping]

theorem writeAll_query (scopes : Scopes) (alias_ : Option String) (identity : Identity)
    (only : Option OnlyColumn) (narrowing : Option (Narrowing Fragment))
    (h : Option.Rel (Narrows bindings options) only narrowing) (numbers : List Nat) :
    (q : Query) →
    writeAll bindings options (queryFragments scopes alias_ identity narrowing q) numbers =
      keeping numbers (query ⟨bindings, options, scopes⟩ alias_ identity only q)
  | ⟨select, sub, sources, filter, group, having, order, limit, id⟩ => by
    have hselect := fun scopes n =>
      writeEach_narrowed bindings options h scopes (writeEach_items scopes n select)
    have hsources := fun scopes n => writeEach_sources scopes identity n numbers sources
    have hfilter := fun scopes n => writeEach_exprs scopes n filter
    have hgroup := fun scopes n => writeEach_exprs scopes n group
    have hhaving := fun scopes n => writeEach_exprs scopes n having
    have horder := fun scopes n => writeEach_exprs scopes n order
    have hlimit := fun scopes n => writeEach_exprs scopes n limit
    have hunion := fun scopes => writeAll_bareUnion scopes identity numbers sources
    simp only [queryFragments, query, narrowed_eq bindings options h, writeAll, Fragment.write]
    split
    · simp [hunion, Setting.enter, Setting.check, keeping]
    · simp [writeAll, Fragment.write, hselect, hsources, hfilter, hgroup, hhaving, horder, hlimit,
        Setting.enter, Setting.check, keeping]

theorem writeAll_bareUnion (scopes : Scopes) (identity : Identity) (numbers : List Nat) :
    (sources : List Source) →
    writeAll bindings options (bareUnionFragments scopes identity sources) numbers =
      keeping numbers (bareUnion ⟨bindings, options, scopes⟩ identity sources)
  | .union op left right :: _ => by
    have hl := fun n => writeAll_query scopes none identity.ofOperands none none .none n left
    have hr := fun n => writeAll_query scopes none identity.ofOperands none none .none n right
    simp [bareUnionFragments, bareUnion, unionFragments, writeAll, hl, hr, Fragment.write,
      Word.text, keeping, String.append_assoc]
  | .relation _ :: _ => by simp [bareUnionFragments, bareUnion, writeAll, keeping]
  | .join .. :: _ => by simp [bareUnionFragments, bareUnion, writeAll, keeping]
  | [] => by simp [bareUnionFragments, bareUnion, writeAll, keeping]

theorem writeEach_sources (scopes : Scopes) (identity : Identity) (id : Nat)
    (numbers : List Nat) : (sources : List Source) →
    writeEach bindings options (sourcesFragments scopes identity sources) (id :: numbers) =
      keeping (id :: numbers) (sourceTexts ⟨bindings, options, scopes⟩ identity id sources)
  | [] => by simp [sourcesFragments, sourceTexts, writeEach, keeping]
  | source :: rest => by
    have h := writeAll_source scopes identity id numbers source
    have hs := writeEach_sources scopes identity id numbers rest
    simp [sourcesFragments, sourceTexts, writeEach, h, hs, keeping]

theorem writeAll_source (scopes : Scopes) (identity : Identity) (id : Nat)
    (numbers : List Nat) : (source : Source) →
    writeAll bindings options (sourceFragments scopes identity source) (id :: numbers) =
      keeping (id :: numbers) (sourceText ⟨bindings, options, scopes⟩ identity id source)
  | .relation (.table t) => by
    simp [sourceFragments, sourceText, writeAll, Fragment.write, keeping]
  | .relation (.alias_ a) => by
    simp [sourceFragments, sourceText, writeAll, Fragment.write, Word.text, keeping,
      String.append_assoc]
  | .relation (.projected scope _) => by
    simp [sourceFragments, sourceText, writeAll, Fragment.write, keeping]
  | .relation (.derived ⟨name, q, _⟩) => by
    have h := fun n => writeAll_query scopes (some name) .own none none .none n q
    simp [sourceFragments, sourceText, writeAll, h, Fragment.write, Word.text, keeping,
      String.append_assoc]
  | .join kind left right on => by
    have hl := writeAll_source scopes identity id numbers left
    have hr := writeAll_source scopes identity id numbers right
    have hon := fun n => writeEach_exprs scopes n on
    cases hj : right.isJoin <;>
      simp [sourceFragments, sourceText, hj, writeAll, hl, hr, hon, Fragment.write, Word.text,
        keeping, String.append_assoc]
  | .union op left right => by
    have hl := fun n => writeAll_query scopes none identity.ofOperands none none .none n left
    have hr := fun n => writeAll_query scopes none identity.ofOperands none none .none n right
    simp [sourceFragments, sourceText, unionFragments, writeAll, hl, hr, Fragment.write,
      Word.text, keeping, String.append_assoc]

end

/-- The text of a query is that of its fragments; so are its parameters, its error and the names it
gives out. -/
theorem query_eq_writeAll (scopes : Scopes) (alias_ : Option String) (identity : Identity)
    (q : Query) :
    query ⟨bindings, options, scopes⟩ alias_ identity none q =
      Prod.fst <$> writeAll bindings options (queryFragments scopes alias_ identity none q) [] := by
  rw [writeAll_query bindings options scopes alias_ identity none none .none]
  simp [keeping]

end

end QueryTree.Render
