import QueryTree.Proofs.Render.Apart
import QueryTree.Proofs.Render.Marks
import QueryTree.Proofs.Render.Sites
import QueryTree.Proofs.Value.Quotations

/-!
What the text of a query quotes. A scan for literals finds the texts of its constants, each as it is
and in their order, and nothing else, whatever characters they have.
-/

namespace QueryTree

def Leaf.names : Leaf → List String
  | .name n => [n]
  | .constant _ => []

mutual

/-- What an expression quotes, in the order in which it is written. -/
def Expr.quotations : Expr → List String
  | .value v => v.quotations
  | .param _ => []
  | .star => []
  | .column ⟨owner, _, _, _⟩ => owner.quotations
  | .unary _ operand => operand.quotations
  | .binary _ left right => left.quotations ++ right.quotations
  | .between subject low high => subject.quotations ++ low.quotations ++ high.quotations
  | .call _ args => exprsQuotations args
  | .list items => exprsQuotations items
  | .labeled e _ => e.quotations
  | .subquery ⟨_, q⟩ => queryQuotations none q

def exprsQuotations : List Expr → List String
  | [] => []
  | e :: rest => e.quotations ++ exprsQuotations rest

/-- What a column of a relation quotes: nothing, unless it stands for a subquery. -/
def Relation.quotations : Relation → List String
  | .projected (.unfolded ⟨_, q⟩) source => queryQuotations (some source.quotations) q
  | _ => []

/-- What a query quotes, with the quotations of one column in place of its SELECT list if they are
given. -/
def queryQuotations (only : Option (List String)) : Query → List String
  | ⟨select, _, sources, filter, group, having, order, limit, _⟩ =>
    only.getD (exprsQuotations select) ++ sourcesQuotations sources ++ exprsQuotations filter ++
      exprsQuotations group ++ exprsQuotations having ++ exprsQuotations order ++
      exprsQuotations limit

def sourcesQuotations : List Source → List String
  | [] => []
  | source :: rest => source.quotations ++ sourcesQuotations rest

/-- What a source quotes: its sides from left to right, then what joins them. -/
def Source.quotations : Source → List String
  | .relation (.derived ⟨_, q, _⟩) => queryQuotations none q
  | .relation _ => []
  | .join _ left right on => left.quotations ++ right.quotations ++ exprsQuotations on
  | .union _ left right => queryQuotations none left ++ queryQuotations none right

end

def Query.quotations (q : Query) : List String :=
  queryQuotations none q

namespace Render

@[simp] def Fragment.quotations : Fragment → List String
  | .constant v => v.quotations
  | _ => []

@[simp] theorem passingNames_quotations : PassingNames Fragment.quotations :=
  ⟨⟨fun _ => rfl, rfl⟩, fun _ => rfl⟩

@[simp] theorem passing_quotations : Passing Fragment.quotations :=
  passingNames_quotations.toPassing

/-- The fragments in place of a SELECT list quote what is given for them. -/
def SameQuotations (written : Narrowing Fragment) (texts : List String) : Prop :=
  ∀ scopes, (written.2 scopes).flatMap Fragment.quotations = texts

mutual

theorem quotations_expr (scopes : Scopes) : (e : Expr) →
    (exprFragments scopes e).flatMap Fragment.quotations = e.quotations
  | .value v => by simp [exprFragments, Expr.quotations]
  | .param key => rfl
  | .star => rfl
  | .column ⟨owner, field, label, correlated⟩ => by
    simp [exprFragments, Expr.quotations, quotations_column scopes _ owner]
  | .unary op operand => by
    have h := quotations_expr scopes operand
    cases hop : op.isPostfix <;> simp [exprFragments, Expr.quotations, hop, h]
  | .binary op left right => by
    have hl := quotations_expr scopes left
    have hr := quotations_expr scopes right
    simp [exprFragments, Expr.quotations, hl, hr]
  | .between subject low high => by
    have hs := quotations_expr scopes subject
    have hl := quotations_expr scopes low
    have hh := quotations_expr scopes high
    simp [exprFragments, Expr.quotations, hs, hl, hh]
  | .call name args => by
    have h := quotations_exprs scopes args
    simp [exprFragments, Expr.quotations, h]
  | .list items => by
    have h := quotations_exprs scopes items
    simp [exprFragments, Expr.quotations, h]
  | .labeled e _ => by simpa [exprFragments, Expr.quotations] using quotations_expr scopes e
  | .subquery ⟨name, q⟩ => by
    have h := quotations_query scopes (some name) .own none none .none q
    simp [exprFragments, Expr.quotations, h]

theorem quotations_exprs (scopes : Scopes) : (es : List Expr) →
    (exprsFragments scopes es).flatMap (List.flatMap Fragment.quotations) = exprsQuotations es
  | [] => rfl
  | e :: rest => by
    have h := quotations_expr scopes e
    have hs := quotations_exprs scopes rest
    simp [exprsFragments, exprsQuotations, h, hs]

theorem quotations_column (scopes : Scopes) (c : Column) : (owner : Relation) →
    (columnFragments scopes c owner).flatMap Fragment.quotations = owner.quotations
  | .projected (.unfolded ⟨name, q⟩) source => by
    have h := quotations_query scopes (some name) .made
      (some (Column.plain source c.field,
        fun scopes => columnFragments scopes (Column.plain source c.field) source))
      (some source.quotations) (.some fun scopes => quotations_column scopes _ source) q
    simp [columnFragments, Relation.quotations, h]
  | .projected (.derived d) source => rfl
  | .table t => rfl
  | .alias_ a => rfl
  | .derived d => rfl

theorem quotations_query (scopes : Scopes) (alias_ : Option String) (identity : Identity)
    (written : Option (Narrowing Fragment)) (only : Option (List String))
    (h : Option.Rel SameQuotations written only) : (q : Query) →
    (queryFragments scopes alias_ identity written q).flatMap Fragment.quotations =
      queryQuotations only q
  | ⟨select, sub, sources, filter, group, having, order, limit, id⟩ => by
    have hselect := fun scopes => quotations_exprs scopes select
    have hsources := fun scopes => quotations_sources scopes identity sources
    have hfilter := fun scopes => quotations_exprs scopes filter
    have hgroup := fun scopes => quotations_exprs scopes group
    have hhaving := fun scopes => quotations_exprs scopes having
    have horder := fun scopes => quotations_exprs scopes order
    have hlimit := fun scopes => quotations_exprs scopes limit
    have hunion := fun scopes => quotations_bareUnion scopes identity sources
    rw [queryFragments, queryQuotations]
    cases h with
    | none =>
      by_cases hbare : Query.isBareUnion
        ⟨select, sub, sources, filter, group, having, order, limit, id⟩
      · -- a bare union has no clause but FROM, so what it quotes is in its operands
        obtain ⟨op, left, right, hsource, rfl, rfl, rfl, rfl, rfl, rfl⟩ :=
          (Query.isBareUnion_iff _).mp hbare
        simp [narrowed_none, hbare, hunion _ ⟨op, left, right, hsource⟩, exprsQuotations]
      · simp [narrowed_none, hbare, narrowedItems, hselect, hsources, hfilter, hgroup, hhaving,
          horder, hlimit]
    | @some written texts h =>
      have hitems : ∀ scopes, (written.2 scopes).flatMap Fragment.quotations = texts := h
      simp [isBareUnion_narrowed, narrowedItems, hitems, hsources, hfilter, hgroup, hhaving, horder,
        hlimit]

theorem quotations_bareUnion (scopes : Scopes) (identity : Identity) : (sources : List Source) →
    (∃ op left right, sources = [.union op left right]) →
    (bareUnionFragments scopes identity sources).flatMap Fragment.quotations =
      sourcesQuotations sources
  | .union op left right :: rest, hunion => by
    have hl := quotations_query scopes none identity.ofOperands none none .none left
    have hr := quotations_query scopes none identity.ofOperands none none .none right
    obtain ⟨_, _, _, hrest⟩ := hunion
    rw [List.cons.injEq] at hrest
    simp [bareUnionFragments, sourcesQuotations, Source.quotations, hl, hr, hrest.2]

theorem quotations_sources (scopes : Scopes) (identity : Identity) : (sources : List Source) →
    (sourcesFragments scopes identity sources).flatMap (List.flatMap Fragment.quotations) =
      sourcesQuotations sources
  | [] => rfl
  | source :: rest => by
    have h := quotations_source scopes identity source
    have hs := quotations_sources scopes identity rest
    simp [sourcesFragments, sourcesQuotations, h, hs]

theorem quotations_source (scopes : Scopes) (identity : Identity) : (source : Source) →
    (sourceFragments scopes identity source).flatMap Fragment.quotations = source.quotations
  | .relation (.table t) => rfl
  | .relation (.alias_ a) => rfl
  | .relation (.projected scope _) => rfl
  | .relation (.derived ⟨name, q, _⟩) => by
    have h := quotations_query scopes (some name) .own none none .none q
    simp [sourceFragments, Source.quotations, h]
  | .join kind left right on => by
    have hl := quotations_source scopes identity left
    have hr := quotations_source scopes identity right
    have hon := quotations_exprs scopes on
    cases hj : right.isJoin <;>
      simp [sourceFragments, Source.quotations, hj, hl, hr, hon]
  | .union op left right => by
    have hl := quotations_query scopes none identity.ofOperands none none .none left
    have hr := quotations_query scopes none identity.ofOperands none none .none right
    simp [sourceFragments, Source.quotations, hl, hr]

end

/-- No name among some leaves has a quote. -/
def QuoteFreeNames (leaves : List Leaf) : Prop :=
  ∀ l ∈ leaves, ∀ n ∈ l.names, '\'' ∉ n.toList

instance (leaves : List Leaf) : Decidable (QuoteFreeNames leaves) :=
  inferInstanceAs (Decidable (∀ l ∈ leaves, ∀ n ∈ l.names, '\'' ∉ n.toList))

theorem QuoteFreeNames.subset {leaves written : List Leaf} (h : QuoteFreeNames leaves)
    (hwritten : written ⊆ leaves) : QuoteFreeNames written :=
  fun l hl => h l (hwritten hl)

theorem sign_quote : Sign '\'' :=
  ⟨by decide, by decide, by decide, by decide⟩

theorem quoteFree_word (w : Word) : '\'' ∉ w.text.toList ∧ w.text.toList ≠ [] := by
  cases w with
  | prefixOp op => cases op <;> decide
  | postfixOp op => cases op <;> decide
  | binaryOp op => cases op <;> decide
  | join kind => cases kind <;> decide
  | set op => cases op <;> decide
  | clause kind => cases kind <;> decide
  | _ => decide

theorem quoteFree_separator (options : Options) :
    '\'' ∉ options.separator.toList ∧ options.separator.toList ≠ [] := by
  unfold Options.separator
  split <;> decide

/-- A scan for literals between two fragments. If the last of the fragments is no constant, or a
text of SQL follows it, no quote can be taken for a part of the literal before. -/
def Stands (pending : Bool) (scan : Text.Scan) (found : List String) : Prop :=
  if pending then scan.literals? = some found else scan = .outside found

theorem Stands.literals? {pending : Bool} {scan : Text.Scan} {found : List String}
    (h : Stands pending scan found) : scan.literals? = some found := by
  cases pending with
  | true => exact h
  | false =>
    obtain rfl : scan = .outside found := h
    rfl

theorem Stands.run {pending : Bool} {scan : Text.Scan} {found : List String}
    (h : Stands pending scan found) {cs : List Char} (hcs : '\'' ∉ cs) :
    Stands pending (scan.run cs) found := by
  cases pending with
  | true =>
    by_cases hempty : cs = []
    · rw [hempty]
      exact h
    · have hrun := Text.Scan.run_of_literals? h.literals? hcs hempty
      rw [hrun]
      rfl
  | false =>
    obtain rfl : scan = .outside found := h
    exact Text.Scan.run_of_not_mem hcs found

section
variable {bindings : Bindings} {options : Options} {numbers : List Nat} {state after : State}

/-- Only constants write quotes. -/
theorem quote_not_mem_write {f : Fragment} (hf : ∀ v, f ≠ .constant v)
    (hnames : QuoteFreeNames f.leaves) {r : String × List Nat}
    (h : f.write bindings options numbers state = (.ok r, after)) : '\'' ∉ r.1.toList := by
  intro hmem
  have horigin := sign_quote.of_mem_write h hmem
  cases f with
  | constant v => exact hf v rfl
  | word w => exact (quoteFree_word w).1 horigin
  | marker scopes key => cases horigin
  | separator => exact (quoteFree_separator options).1 horigin
  | _ =>
    obtain ⟨n, hn, hc⟩ := horigin
    exact hnames _ hn n (List.mem_singleton_self n) hc

/-- What one fragment does to a scan: the literals of a constant are found whole, and anything else
leaves what was found as it is. -/
theorem stands_write {pending : Bool} {f : Fragment} {fs : List Fragment}
    (hapart : Apart pending (f :: fs)) (hnames : QuoteFreeNames f.leaves) {r : String × List Nat}
    (h : f.write bindings options numbers state = (.ok r, after)) {scan : Text.Scan}
    {found : List String} (hscan : Stands pending scan found) :
    ∃ next, Apart next fs ∧ Stands next (scan.run r.1.toList) (found ++ f.quotations) := by
  have hquote := fun hf => quote_not_mem_write hf hnames h
  cases f with
  | constant v =>
    obtain ⟨rfl, hrest⟩ := hapart
    obtain ⟨rfl, -⟩ := write_ok_iff.mp h
    obtain rfl : scan = .outside found := hscan
    exact ⟨true, hrest, v.run_literal found⟩
  | word w =>
    obtain ⟨rfl, -⟩ := write_ok_iff.mp h
    refine ⟨false, hapart, ?_⟩
    simp only [Fragment.quotations, List.append_nil]
    obtain ⟨hquote, hne⟩ := quoteFree_word w
    exact Text.Scan.run_of_literals? hscan.literals? hquote hne
  | separator =>
    obtain ⟨rfl, -⟩ := write_ok_iff.mp h
    refine ⟨false, hapart, ?_⟩
    simp only [Fragment.quotations, List.append_nil]
    obtain ⟨hquote, hne⟩ := quoteFree_separator options
    exact Text.Scan.run_of_literals? hscan.literals? hquote hne
  | _ =>
    refine ⟨pending, hapart, ?_⟩
    simp only [Fragment.quotations, List.append_nil]
    exact hscan.run (hquote (by simp))

/-- A scan of what some fragments write finds their quotations behind what it has found before. -/
theorem literals?_writeAll {pending : Bool} {fs : List Fragment} (hapart : Apart pending fs)
    (hnames : QuoteFreeNames (fs.flatMap Fragment.leaves)) {r : String × List Nat}
    (h : writeAll bindings options fs numbers state = (.ok r, after)) {scan : Text.Scan}
    {found : List String} (hscan : Stands pending scan found) :
    (scan.run r.1.toList).literals? = some (found ++ fs.flatMap Fragment.quotations) := by
  induction fs generalizing pending numbers state r scan found with
  | nil =>
    obtain ⟨rfl, -⟩ := writeAll_nil_ok_iff.mp h
    simpa using hscan.literals?
  | cons f fs ih =>
    obtain ⟨first, between, hfirst, others, hothers, rfl⟩ := writeAll_cons_ok_iff.mp h
    rw [List.flatMap_cons] at hnames
    have hf := hnames.subset (List.subset_append_left _ _)
    have hfs := hnames.subset (List.subset_append_right _ _)
    obtain ⟨next, hrest, hnext⟩ := stands_write hapart hf hfirst hscan
    have hrun := ih hrest hfs hothers hnext
    rw [String.toList_append, Text.Scan.run_append, hrun, List.flatMap_cons, List.append_assoc]

/-- The literals of a statement are the texts of the constants of its query, one for one and
unchanged, and the last of them is closed. -/
theorem statement_literals {q : Query} {registry last : Registry} {result : Statement}
    (h : q.statement bindings options registry = (.ok result, last))
    (hnames : QuoteFreeNames q.leaves) : Text.literals? result.sql = some q.quotations := by
  obtain ⟨numbers, hrun⟩ := statement_ok_iff.mp h
  have hwritten := hnames.subset (leafy_fragments q)
  have hscan : Stands false (.outside []) [] := rfl
  have hfound := literals?_writeAll q.apart_fragments hwritten hrun hscan
  rw [List.nil_append, Query.fragments, quotations_query [] none .own none none .none] at hfound
  exact hfound

end

def letters : Table := ⟨0, "Letters", ["id", "sender"]⟩

/-- The letters of a sender, given as a constant. -/
def lettersOf (sender : String) : Query :=
  ⟨[.column (.plain (.table letters) "id")], false, [.relation (.table letters)],
    [.binary .eq (.column (.plain (.table letters) "sender")) (.value (.text sender))],
    [], [], [], [], 1⟩

/-- Quotes at every place of a text, two constants in a list, and a subquery with an empty text. -/
def hostileLetters : Query :=
  { lettersOf "' OR ''=''; --" with
    selectList := [
      .value (.list [.text "it's", .date ⟨2024, 2, 29, by decide⟩]),
      .labeled (.subquery ⟨"s", lettersOf ""⟩) "unsigned"],
    id := 2 }

theorem statement_literals_hostileLetters :
    ∃ result last, hostileLetters.statement .empty {} {} = (.ok result, last) ∧
      QuoteFreeNames hostileLetters.leaves ∧
      Text.literals? result.sql = some hostileLetters.quotations ∧
      hostileLetters.quotations = ["it's", "2024-02-29", "", "' OR ''=''; --"] := by
  have hnames : QuoteFreeNames hostileLetters.leaves := by decide
  have h : hostileLetters.statement .empty {} {} = (.ok ⟨"SELECT ('it''s', '2024-02-29'), " ++
      "(SELECT Letters.id FROM Letters WHERE (Letters.sender = '')) as unsigned FROM Letters " ++
      "WHERE (Letters.sender = ''' OR ''''=''''; --')", []⟩, ⟨0, []⟩) := rfl
  exact ⟨_, _, h, hnames, statement_literals h hnames, rfl⟩

end Render

end QueryTree
