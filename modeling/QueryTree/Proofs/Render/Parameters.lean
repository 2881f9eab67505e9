import QueryTree.Proofs.Render.Marks
import QueryTree.Proofs.Render.Sites

/-!
The parameters of a statement. They are the constants of the placeholders in the order of the tree,
and every marker of the text is one of them.
-/

namespace QueryTree.Render

/-- A placeholder, with the names of the levels around it from the outermost inward. -/
structure Occurrence where
  path : List String
  key : String
  deriving DecidableEq

/-- The constant bound to the key with its path in front, if there is one, else to the bare key. -/
def Occurrence.value? (bindings : Bindings) (o : Occurrence) : Option Value :=
  let scope := ".".intercalate o.path
  if scope = "" then bindings.get? o.key
  else (bindings.get? (scope ++ "." ++ o.key)).or (bindings.get? o.key)

/-- The names of the levels from the outermost inward. -/
def Scopes.names (scopes : Scopes) : List String :=
  scopes.reverse.filterMap Frame.alias_

def Site.occurrence? : Site → Option Occurrence
  | .marker scopes key => some ⟨scopes.names, key⟩
  | _ => none

/-- The placeholders among some sites, in their order. -/
def occurrences (sites : List Site) : List Occurrence :=
  sites.filterMap Site.occurrence?

@[simp] theorem occurrences_nil : occurrences [] = [] :=
  rfl

@[simp] theorem occurrences_append (a b : List Site) :
    occurrences (a ++ b) = occurrences a ++ occurrences b :=
  List.filterMap_append

variable {bindings : Bindings} {options : Options} {numbers : List Nat} {state after : State}

/-- A placeholder without a constant fails with the key that was looked for first. -/
theorem lookUp_eq (scopes : Scopes) (key : String) :
    scopes.lookUp bindings key = ((Occurrence.mk scopes.names key).value? bindings).elim
      (.error (.unboundParameter ((scopes.scopedKey? key).getD key))) .ok := by
  have hpath : ".".intercalate scopes.names = scopes.path := rfl
  unfold Scopes.lookUp Scopes.scopedKey? Occurrence.value?
  simp only [hpath]
  by_cases hempty : scopes.path = ""
  · simp only [hempty, if_true, Option.bind_none]
    cases bindings.get? key <;> rfl
  · simp only [hempty, if_false, Option.bind_some]
    cases bindings.get? (scopes.path ++ "." ++ key) with
    | some found => rfl
    | none => cases bindings.get? key <;> rfl

theorem lookUp_ok_iff {scopes : Scopes} {key : String} {value : Value} :
    scopes.lookUp bindings key = .ok value ↔
      (Occurrence.mk scopes.names key).value? bindings = some value := by
  rw [lookUp_eq]
  cases (Occurrence.mk scopes.names key).value? bindings <;> simp

theorem write_params {f : Fragment} {r : String × List Nat}
    (h : f.write bindings options numbers state = (.ok r, after)) :
    after.params.map some =
      state.params.map some ++ (occurrences f.sites).map (Occurrence.value? bindings) := by
  rw [write_ok_iff] at h
  cases f with
  | marker scopes key =>
    obtain ⟨value, hvalue, -, rfl⟩ := h
    simp [occurrences, Site.occurrence?, lookUp_ok_iff.mp hvalue]
  | column scopes c =>
    obtain ⟨_, -, -, rfl⟩ := h
    simp [occurrences, Site.occurrence?]
  | check q =>
    obtain ⟨-, -, rfl⟩ := h
    simp [occurrences, Site.occurrence?]
  | _ =>
    obtain ⟨-, rfl⟩ := h
    simp

theorem writeAll_params {fs : List Fragment} {r : String × List Nat}
    (h : writeAll bindings options fs numbers state = (.ok r, after)) :
    after.params.map some =
      state.params.map some ++
        (occurrences (fs.flatMap Fragment.sites)).map (Occurrence.value? bindings) := by
  induction fs generalizing numbers state r with
  | nil =>
    obtain ⟨-, rfl⟩ := writeAll_nil_ok_iff.mp h
    simp
  | cons f fs ih =>
    obtain ⟨first, between, hfirst, others, hothers, -⟩ := writeAll_cons_ok_iff.mp h
    rw [ih hothers, write_params hfirst]
    simp

/-- A fragment writes as many markers as placeholders stand in it. -/
theorem write_count_question {f : Fragment} (hfree : FreeOf '?' f.leaves) {r : String × List Nat}
    (h : f.write bindings options numbers state = (.ok r, after)) :
    r.1.toList.count '?' = (occurrences f.sites).length := by
  by_cases hmem : '?' ∈ r.1.toList
  · rcases foreign_question.of_mem_write hfree h hmem with ⟨scopes, key, rfl⟩ | rfl
    · obtain ⟨_, -, rfl, -⟩ := write_ok_iff.mp h
      have hone : "?".toList.count '?' = 1 := by decide
      exact hone
    · obtain ⟨rfl, -⟩ := write_ok_iff.mp h
      have hseparator : '?' ∉ options.separator.toList := by
        unfold Options.separator
        split <;> decide
      exact absurd hmem hseparator
  · rw [List.count_eq_zero.mpr hmem]
    cases f with
    | marker scopes key =>
      obtain ⟨_, -, rfl, -⟩ := write_ok_iff.mp h
      simp at hmem
    | _ => rfl

theorem writeAll_count_question {fs : List Fragment}
    (hfree : FreeOf '?' (fs.flatMap Fragment.leaves)) {r : String × List Nat}
    (h : writeAll bindings options fs numbers state = (.ok r, after)) :
    r.1.toList.count '?' = (occurrences (fs.flatMap Fragment.sites)).length := by
  induction fs generalizing numbers state r with
  | nil =>
    obtain ⟨rfl, -⟩ := writeAll_nil_ok_iff.mp h
    rfl
  | cons f fs ih =>
    obtain ⟨first, between, hfirst, others, hothers, rfl⟩ := writeAll_cons_ok_iff.mp h
    rw [List.flatMap_cons, freeOf_append] at hfree
    obtain ⟨hf, hfs⟩ := hfree
    simp [write_count_question hf hfirst, ih hfs hothers]

theorem params_eq_of_statement {q : Query} {registry last : Registry} {result : Statement}
    (h : q.statement bindings options registry = (.ok result, last)) :
    result.params.map some = (occurrences q.sites).map (Occurrence.value? bindings) := by
  obtain ⟨numbers, hrun⟩ := statement_ok_iff.mp h
  simpa [q.sites_fragments] using writeAll_params hrun

/-- The parameters of a statement are those of its placeholders, place by place. -/
theorem getElem?_params {q : Query} {registry last : Registry} {result : Statement}
    (h : q.statement bindings options registry = (.ok result, last)) (i : Nat) :
    result.params[i]? = (occurrences q.sites)[i]?.bind (Occurrence.value? bindings) := by
  have hplace := congrArg (·[i]?) (params_eq_of_statement h)
  simp only [List.getElem?_map] at hplace
  cases hoccurrence : (occurrences q.sites)[i]? with
  | none => simpa [hoccurrence] using hplace
  | some o =>
    rw [hoccurrence, Option.map_some, Option.map_eq_some_iff] at hplace
    obtain ⟨value, hparam, hvalue⟩ := hplace
    rw [hparam, hvalue]
    rfl

/-- A marker among the fragments is the placeholder behind those in front of it. -/
theorem getElem?_occurrences {fs pre post : List Fragment} {scopes : Scopes} {key : String}
    (hplace : fs = pre ++ .marker scopes key :: post) :
    (occurrences (fs.flatMap Fragment.sites))[(occurrences (pre.flatMap Fragment.sites)).length]? =
      some ⟨scopes.names, key⟩ := by
  have hmarker : occurrences (Fragment.sites (.marker scopes key)) = [⟨scopes.names, key⟩] := rfl
  rw [hplace, List.flatMap_append, List.flatMap_cons, occurrences_append, occurrences_append,
    hmarker, List.getElem?_append_right (Nat.le_refl _), Nat.sub_self]
  rfl

/-- Every placeholder of some fragments has its marker among them. -/
theorem exists_marker_of_lt {fs : List Fragment} {i : Nat}
    (h : i < (occurrences (fs.flatMap Fragment.sites)).length) :
    ∃ pre scopes key post, fs = pre ++ .marker scopes key :: post ∧
      (occurrences (pre.flatMap Fragment.sites)).length = i := by
  induction fs generalizing i with
  | nil => simp at h
  | cons f fs ih =>
    rw [List.flatMap_cons, occurrences_append, List.length_append] at h
    by_cases hfirst : i < (occurrences f.sites).length
    · cases f with
      | marker scopes key =>
        have hzero : i = 0 := Nat.lt_one_iff.mp hfirst
        exact ⟨[], scopes, key, fs, rfl, hzero.symm⟩
      | _ => exact absurd hfirst (Nat.not_lt_zero i)
    · obtain ⟨pre, scopes, key, post, rfl, hlength⟩ :=
        ih (i := i - (occurrences f.sites).length) (by omega)
      refine ⟨f :: pre, scopes, key, post, rfl, ?_⟩
      rw [List.flatMap_cons, occurrences_append, List.length_append, hlength]
      omega

/-- The parameters of a statement are the constants of the placeholders in the order of the tree,
and that is the order of the markers in the text: behind what is written in front of a marker comes
the marker, and the parameter in the place of the marker is the constant of its placeholder. Each
parameter has such a marker. If no name and no text has a question mark, then the markers are all
the question marks of the text. -/
theorem statement_params {q : Query} {registry last : Registry} {result : Statement}
    (h : q.statement bindings options registry = (.ok result, last)) :
    result.params.map some = (occurrences q.sites).map (Occurrence.value? bindings) ∧
      (∀ pre scopes key post, q.fragments = pre ++ .marker scopes key :: post →
        ∃ before numbers state later,
          writeAll bindings options pre [] ⟨[], registry⟩ = (.ok (before, numbers), state) ∧
          result.sql = before ++ "?" ++ later ∧
          result.params[(occurrences (pre.flatMap Fragment.sites)).length]? =
            (Occurrence.mk scopes.names key).value? bindings ∧
          (FreeOf '?' q.leaves → before.toList.count '?' =
            (occurrences (pre.flatMap Fragment.sites)).length)) ∧
      (∀ i < result.params.length, ∃ pre scopes key post,
        q.fragments = pre ++ .marker scopes key :: post ∧
        (occurrences (pre.flatMap Fragment.sites)).length = i) ∧
      (FreeOf '?' q.leaves → result.sql.toList.count '?' = result.params.length) := by
  obtain ⟨numbers, hrun⟩ := statement_ok_iff.mp h
  have hparams := params_eq_of_statement h
  have hwritten : FreeOf '?' q.leaves → FreeOf '?' (q.fragments.flatMap Fragment.leaves) :=
    fun hfree l hl => hfree l (leafy_fragments q l hl)
  have hlength : result.params.length = (occurrences q.sites).length := by
    simpa using congrArg List.length hparams
  refine ⟨hparams, ?_, ?_, ?_⟩
  · intro pre scopes key post hplace
    obtain ⟨⟨before, numbers⟩, state, _, _, later, hbefore, hmarker, htext⟩ :=
      exists_text_of_statement hplace h
    obtain ⟨_, -, rfl, -⟩ := write_ok_iff.mp hmarker
    refine ⟨before, numbers, state, later, hbefore, htext, ?_, ?_⟩
    · rw [getElem?_params h, ← q.sites_fragments, getElem?_occurrences hplace]
      rfl
    · intro hfree
      have hpre := hwritten hfree
      rw [hplace, List.flatMap_append, freeOf_append] at hpre
      exact writeAll_count_question hpre.1 hbefore
  · intro i hi
    rw [hlength, ← q.sites_fragments] at hi
    exact exists_marker_of_lt hi
  · intro hfree
    calc result.sql.toList.count '?'
        = (occurrences (q.fragments.flatMap Fragment.sites)).length :=
          writeAll_count_question (hwritten hfree) hrun
      _ = (occurrences q.sites).length := by rw [q.sites_fragments]
      _ = result.params.length := hlength.symm

def accounts : Table := ⟨0, "Accounts", ["id", "owner"]⟩

/-- The accounts of one owner. -/
def owned : Query :=
  ⟨[.column (.plain (.table accounts) "id")], false, [.relation (.table accounts)],
    [.binary .eq (.column (.plain (.table accounts) "owner")) (.param "owner")],
    [], [], [], [], 1⟩

/-- The accounts of one owner, seen as a scalar, beside a placeholder and as a table. -/
def ownedTwice : Query :=
  ⟨[.column (.plain (.projected (.unfolded ⟨"s", owned⟩) (.table accounts)) "id"), .param "owner"],
    false, [.relation (.derived ⟨"d", owned.subSelect, owned⟩)], [], [], [], [], [], 2⟩

def owners : Bindings := .ofList [("owner", .int 1), ("s.owner", .int 2), ("d.owner", .int 3)]

/-- The scopes of the owner in the table. -/
def tableScopes : Scopes :=
  [⟨some "d", ["Accounts"], false⟩, ⟨none, ["d"], false⟩]

/-- The owner in the table is asked for under the same key as the other two, and its marker is the
third one. -/
theorem statement_params_nested :
    ∃ result last, ownedTwice.statement owners {} {} = (.ok result, last) ∧
      result.params.map some = (occurrences ownedTwice.sites).map (Occurrence.value? owners) ∧
      result.params = [.int 2, .int 1, .int 3] ∧ FreeOf '?' ownedTwice.leaves ∧
      result.sql.toList.count '?' = 3 ∧
      ∃ pre post before later,
        ownedTwice.fragments = pre ++ .marker tableScopes "owner" :: post ∧
        before = "SELECT (SELECT Accounts.id FROM Accounts WHERE (Accounts.owner = ?)), ? FROM " ++
          "(SELECT Accounts.id as Accounts_id FROM Accounts WHERE (Accounts.owner = " ∧
        result.sql = before ++ "?" ++ later ∧ before.toList.count '?' = 2 ∧
        result.params[2]? = some (.int 3) := by
  have hfree : FreeOf '?' ownedTwice.leaves := by decide
  have h : ownedTwice.statement owners {} {} = (.ok ⟨"SELECT (SELECT Accounts.id FROM Accounts " ++
      "WHERE (Accounts.owner = ?)), ? FROM (SELECT Accounts.id as Accounts_id FROM Accounts " ++
      "WHERE (Accounts.owner = ?)) as d", [.int 2, .int 1, .int 3]⟩, ⟨1, []⟩) := rfl
  have hplace : ownedTwice.fragments = ownedTwice.fragments.take 39 ++
      .marker tableScopes "owner" :: ownedTwice.fragments.drop 40 := rfl
  have hwritten :
      (writeAll owners {} (ownedTwice.fragments.take 39) [] ⟨[], {}⟩).1.toOption.map Prod.fst =
        some ("SELECT (SELECT Accounts.id FROM Accounts WHERE (Accounts.owner = ?)), ? FROM " ++
        "(SELECT Accounts.id as Accounts_id FROM Accounts WHERE (Accounts.owner = ") := by
    decide +kernel
  obtain ⟨hparams, hmarkers, -, hcount⟩ := statement_params h
  obtain ⟨before, numbers, state, later, hbefore, htext, hparam, hearlier⟩ :=
    hmarkers _ _ _ _ hplace
  rw [hbefore] at hwritten
  exact ⟨_, _, h, hparams, rfl, hfree, hcount hfree, _, _, before, later, hplace,
    Option.some.inj hwritten, htext, hearlier hfree, hparam⟩

end QueryTree.Render
