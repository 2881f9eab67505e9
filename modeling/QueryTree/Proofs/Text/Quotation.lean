import QueryTree.Proofs.Text.Figures
import QueryTree.Text.Quoted

/-!
Texts between quotes are read back: a single literal behind its first quote, and all literals of a
text by the quoting rule of SQL, where a quote opens a literal, two quotes in it stand for one, and
a single quote closes it.
-/

namespace QueryTree.Text

theorem doubleQuotes_eq_self {cs : List Char} (h : '\'' ∉ cs) : doubleQuotes cs = cs := by
  induction cs with
  | nil => rfl
  | cons c cs ih =>
    rw [List.mem_cons, not_or] at h
    rw [doubleQuotes, if_neg (Ne.symm h.1), ih h.2]

theorem Figures.not_mem_quote {text : String} (h : Figures text) : '\'' ∉ text.toList := by
  intro hmem
  have hquote := h _ hmem
  revert hquote
  decide

/-- Figures need no doubling. -/
theorem Figures.quoted_eq {text : String} (h : Figures text) :
    quoted text = "'" ++ text ++ "'" := by
  rw [quoted, doubleQuotes_eq_self h.not_mem_quote, String.ofList_toList]

/-- The text between quotes, behind the first of them, and what follows the last. -/
def unquoted? : List Char → Option (List Char × List Char)
  | [] => none
  | '\'' :: '\'' :: rest => (unquoted? rest).map fun r => ('\'' :: r.1, r.2)
  | '\'' :: rest => some ([], rest)
  | c :: rest => (unquoted? rest).map fun r => (c :: r.1, r.2)

theorem toList_quoted (text : String) :
    (quoted text).toList = '\'' :: (doubleQuotes text.toList ++ ['\'']) := by
  simp [quoted]

/-- Whatever stands between quotes is read back, if no other quote follows. -/
theorem unquoted?_doubleQuotes (cs : List Char) {rest : List Char} (h : rest.head? ≠ some '\'') :
    unquoted? (doubleQuotes cs ++ '\'' :: rest) = some (cs, rest) := by
  induction cs with
  | nil =>
    cases rest with
    | nil => rfl
    | cons c rest =>
      have hc : c ≠ '\'' := by simpa using h
      simp [doubleQuotes, unquoted?, hc]
  | cons c cs ih =>
    by_cases hc : c = '\''
    · simp [doubleQuotes, unquoted?, hc, ih]
    · simp [doubleQuotes, unquoted?, hc, ih]

/-- Where a scan for literals stands, with the contents of those that are over. -/
inductive Scan where
  | outside (found : List String)
  | inside (found : List String) (content : String)
  /-- Behind a quote that closes the literal, unless another one follows. -/
  | closing (found : List String) (content : String)

namespace Scan

def step : Scan → Char → Scan
  | outside found, c => if c = '\'' then inside found "" else outside found
  | inside found content, c =>
    if c = '\'' then closing found content else inside found (content.push c)
  | closing found content, c =>
    if c = '\'' then inside found (content.push '\'') else outside (found ++ [content])

def run (scan : Scan) (cs : List Char) : Scan :=
  cs.foldl step scan

/-- The literals of what has been scanned, if the last one is closed. -/
def literals? : Scan → Option (List String)
  | outside found => some found
  | inside _ _ => none
  | closing found content => some (found ++ [content])

@[simp] theorem run_nil (scan : Scan) : scan.run [] = scan :=
  rfl

@[simp] theorem run_append (scan : Scan) (cs ds : List Char) :
    scan.run (cs ++ ds) = (scan.run cs).run ds :=
  List.foldl_append

theorem run_of_not_mem {cs : List Char} (h : '\'' ∉ cs) (found : List String) :
    (outside found).run cs = outside found := by
  induction cs with
  | nil => rfl
  | cons c cs ih =>
    rw [List.mem_cons, not_or] at h
    have hc : c ≠ '\'' := Ne.symm h.1
    rw [run, List.foldl_cons, step, if_neg hc]
    exact ih h.2

/-- A text without quotes ends the literal before it, if it has a character at all. -/
theorem run_of_literals? {scan : Scan} {found : List String} (hscan : scan.literals? = some found)
    {cs : List Char} (h : '\'' ∉ cs) (hne : cs ≠ []) : scan.run cs = outside found := by
  cases scan with
  | outside earlier =>
    cases hscan
    exact run_of_not_mem h found
  | inside earlier content => cases hscan
  | closing earlier content =>
    cases hscan
    obtain ⟨c, cs, rfl⟩ := List.exists_cons_of_ne_nil hne
    rw [List.mem_cons, not_or] at h
    have hc : c ≠ '\'' := Ne.symm h.1
    rw [run, List.foldl_cons, step, if_neg hc]
    exact run_of_not_mem h.2 _

/-- Inside a literal the scan takes back the doubling of quotes. -/
theorem run_doubleQuotes (found : List String) (content : String) (cs : List Char) :
    (inside found content).run (doubleQuotes cs) = inside found (content ++ String.ofList cs) := by
  unfold run
  induction cs generalizing content with
  | nil => simp [doubleQuotes]
  | cons c cs ih =>
    have hcontent : content.push c ++ String.ofList cs = content ++ String.ofList (c :: cs) := by
      apply String.toList_inj.mp
      simp
    by_cases hc : c = '\''
    · subst hc
      simp [doubleQuotes, step, ih, hcontent]
    · simp [doubleQuotes, step, hc, ih, hcontent]

theorem run_quoted (found : List String) (text : String) :
    (outside found).run (quoted text).toList = closing found text := by
  rw [toList_quoted]
  change ((inside found "").run _) = _
  rw [run_append, run_doubleQuotes]
  simp [run, step]

theorem run_figures (found : List String) {text : String} (h : Figures text) :
    (outside found).run ("'" ++ text ++ "'").toList = closing found text := by
  rw [← h.quoted_eq, run_quoted]

end Scan

/-- The contents of the literals of a text, if the last of them is closed. -/
def literals? (text : String) : Option (List String) :=
  ((Scan.outside []).run text.toList).literals?

example : literals? "SELECT 'it''s', ''" = some ["it's", ""] := by decide

end QueryTree.Text
