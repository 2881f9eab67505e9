import QueryTree.Proofs.Expression.Skeleton
import QueryTree.Proofs.Text.Quotation

/-!
Reading an expression back from its text. What a text starts with says how the expression goes on:
a word, a quote, a sign or a parenthesis. Behind an expression stands a blank, a comma, a closing
parenthesis or nothing.
-/

namespace QueryTree.Skeleton

open Text

/-- Reads an expression off the front of a text. -/
abbrev Reader := List Char → Option (Skeleton × List Char)

/-- Takes the postfix operators behind an expression. -/
def postfixed (t : Skeleton) : List Char → Skeleton × List Char
  | ' ' :: 'A' :: 'S' :: 'C' :: rest => (unary .asc t).postfixed rest
  | ' ' :: 'D' :: 'E' :: 'S' :: 'C' :: rest => (unary .desc t).postfixed rest
  | rest => (t, rest)

/-- Reads a closing parenthesis behind an expression. -/
def closed (t : Skeleton) : Reader
  | ')' :: rest => some (t, rest)
  | _ => none

/-- Expressions that hold no others, from the word that they start with and what follows it. -/
def readAtom : List Char → Reader
  | [], '?' :: rest => some (marker, rest)
  | [], '*' :: rest => some (star, rest)
  | [], '\'' :: rest => (unquoted? rest).map fun (cs, rest) => (text (String.ofList cs), rest)
  | [], '-' :: rest =>
    let (digits, rest) := cutWord rest
    (number? digits).map fun (n : Nat) => (int (.ofInt (-(n : Int))), rest)
  | owner, '.' :: rest =>
    let (name, rest) := cutWord rest
    some (column (String.ofList owner) (String.ofList name), rest)
  | word, rest =>
    if word = "NULL".toList then some (null, rest)
    else (number? word).map fun (n : Nat) => (int (.ofInt n), rest)

/-- The operators with a single word or sign. -/
def plainOps : List BinaryOp :=
  [.add, .sub, .mul, .div, .eq, .ne, .gt, .lt, .gte, .lte, .and, .or, .is, .in_, .like, .ilike]

/-- Reads an operator between its operands, with the blank behind it. -/
def readOp : List Char → Option (BinaryOp × List Char)
  | 'I' :: 'S' :: ' ' :: 'N' :: 'O' :: 'T' :: ' ' :: rest => some (.isNot, rest)
  | 'N' :: 'O' :: 'T' :: ' ' :: 'I' :: 'N' :: ' ' :: rest => some (.notIn, rest)
  | cs =>
    (plainOps.find? fun op => op.text.toList = cs.takeWhile (· ≠ ' ')).map fun op =>
      (op, (cs.dropWhile (· ≠ ' ')).tail)

section
variable (read : Reader)

/-- Reads further items up to the closing parenthesis, as many as there may be at most. -/
def readMore : Nat → List Char → Option (List Skeleton × List Char)
  | _, ')' :: rest => some ([], rest)
  | n + 1, ',' :: ' ' :: cs => do
    let (t, rest) ← read cs
    let (ts, rest) ← readMore n rest
    return (t :: ts, rest)
  | _, _ => none

def readItems (n : Nat) : List Char → Option (List Skeleton × List Char)
  | ')' :: rest => some ([], rest)
  | cs => do
    let (t, rest) ← read cs
    let (ts, rest) ← readMore read n rest
    return (t :: ts, rest)

/-- Reads what follows the lower bound of a BETWEEN. -/
def readHigh (subject low : Skeleton) : Reader
  | ' ' :: 'A' :: 'N' :: 'D' :: ' ' :: cs => do
    let (high, rest) ← read cs
    closed (between subject low high) rest
  | _ => none

/-- Reads what follows a left operand and a blank. -/
def readOperation (left : Skeleton) : Reader
  | 'B' :: 'E' :: 'T' :: 'W' :: 'E' :: 'E' :: 'N' :: ' ' :: cs => do
    let (low, rest) ← read cs
    readHigh read left low rest
  | cs => do
    let (op, cs) ← readOp cs
    let (right, rest) ← read cs
    closed (binary op left right) rest

/-- Reads an operator with its operands, or a list of one item at least. -/
def readInner (n : Nat) (cs : List Char) : Option (Skeleton × List Char) := do
  let (first, rest) ← read cs
  match rest with
  | ' ' :: rest => readOperation read first rest
  | rest => do
    let (others, rest) ← readMore read n rest
    return (list (first :: others), rest)

/-- Reads what stands in parentheses. -/
def readEnclosed (n : Nat) (cs : List Char) : Option (Skeleton × List Char) :=
  match cutWord cs, cs with
  | (['N', 'O', 'T'], ' ' :: cs), _ => do
    let (operand, rest) ← read cs
    closed (unary .not operand) rest
  | _, ')' :: rest => some (list [], rest)
  | _, cs => readInner read n cs

end

/-- Reads an expression that is nested to some depth at most, with the postfix operators behind
it. -/
def read : Nat → Reader
  | 0, _ => none
  | n + 1, cs =>
    (match cutWord cs with
      | ([], '(' :: rest) => readEnclosed (read n) n rest
      | (name, '(' :: rest) =>
        (readItems (read n) n rest).map fun (args, rest) =>
          (call (String.ofList name) args, rest)
      | (word, rest) => readAtom word rest).map fun (t, rest) => postfixed t rest

mutual

def depth : Skeleton → Nat
  | null | int _ | text _ | marker | star | column _ _ => 1
  | unary _ operand => operand.depth + 1
  | binary _ left right => max left.depth right.depth + 1
  | between subject low high => max subject.depth (max low.depth high.depth) + 1
  | call _ args => itemsDepth args + 1
  | list items => itemsDepth items + 1

/-- Deeper than each item, and no less than the number of the items. -/
def itemsDepth : List Skeleton → Nat
  | [] => 0
  | t :: rest => max t.depth (itemsDepth rest) + 1

end

/-- What may stand behind an expression. -/
def Delimited (rest : List Char) : Prop :=
  ∀ c ∈ rest.head?, c = ' ' ∨ c = ',' ∨ c = ')'

/-- The text of an expression is read back, with the postfix operators behind it. -/
def ReadBy (read : Reader) (t : Skeleton) : Prop :=
  ∀ rest, Delimited rest → read (t.chars ++ rest) = some (t.postfixed rest)

theorem Delimited.endsWord {rest : List Char} (h : Delimited rest) : EndsWord rest := by
  intro c hc
  rcases h c hc with rfl | rfl | rfl <;> decide

theorem delimited_blank (rest : List Char) : Delimited (' ' :: rest) := by
  rintro _ ⟨⟩
  exact Or.inl rfl

theorem delimited_comma (rest : List Char) : Delimited (',' :: rest) := by
  rintro _ ⟨⟩
  exact Or.inr (Or.inl rfl)

theorem delimited_closing (rest : List Char) : Delimited (')' :: rest) := by
  rintro _ ⟨⟩
  exact Or.inr (Or.inr rfl)

theorem postfixed_unary {op : UnaryOp} (hop : op.isPostfix = true) (t : Skeleton)
    (rest : List Char) :
    t.postfixed (' ' :: (op.text.toList ++ rest)) = (unary op t).postfixed rest := by
  cases op with
  | not => cases hop
  | asc => rfl
  | desc => rfl

theorem postfixed_op (t : Skeleton) (op : BinaryOp) (rest : List Char) :
    t.postfixed (' ' :: (op.text.toList ++ rest)) = (t, ' ' :: (op.text.toList ++ rest)) := by
  cases op <;> rfl

theorem postfixed_between (t : Skeleton) (rest : List Char) :
    t.postfixed (' ' :: ("BETWEEN".toList ++ rest)) = (t, ' ' :: ("BETWEEN".toList ++ rest)) :=
  rfl

/-- How the text of an expression starts: neither like a NOT before an operand nor with a closing
parenthesis. -/
structure Starts (cs : List Char) : Prop where
  not : ∀ rest, cutWord cs ≠ ("NOT".toList, ' ' :: rest)
  closing : ∀ rest, cs ≠ ')' :: rest

theorem starts_of_sign {c : Char} (rest : List Char) (hpart : isNamePart c = false) (hc : c ≠ ')') :
    Starts (c :: rest) := by
  constructor
  · intro after h
    rw [cutWord_of_sign hpart] at h
    cases h
  · rintro after h
    exact hc (List.cons.inj h).1

theorem starts_of_word {word rest : List Char} (hword : IsWord word) (hrest : EndsWord rest)
    (h : word ≠ "NOT".toList ∨ rest.head? ≠ some ' ') : Starts (word ++ rest) := by
  constructor
  · intro after hcut
    rw [cutWord_append hword.parts hrest] at hcut
    obtain ⟨rfl, rfl⟩ := Prod.mk.inj hcut
    simp at h
  · intro after hclosing
    obtain ⟨c, cs, rfl⟩ := List.exists_cons_of_ne_nil hword.ne_nil
    have hc := hword.parts c List.mem_cons_self
    obtain rfl : c = ')' := (List.cons.inj hclosing).1
    cases hc

theorem starts_chars : (t : Skeleton) → t.Legible → ∀ rest, Delimited rest →
    Starts (t.chars ++ rest)
  | null, _, rest, hrest => starts_of_word (by decide) hrest.endsWord (Or.inl (by decide))
  | int n, _, rest, hrest => by
    rw [chars, toList_int, List.append_assoc]
    split
    · exact starts_of_sign _ (by decide) (by decide)
    · rw [List.nil_append]
      have hnot : (toString n.toInt.natAbs).toList ≠ "NOT".toList :=
        toList_nat_ne (List.mem_cons_self : 'N' ∈ _) rfl
      exact starts_of_word (isWord_nat _) hrest.endsWord (Or.inl hnot)
  | text s, _, rest, _ => by
    rw [chars, toList_quoted]
    exact starts_of_sign _ (by decide) (by decide)
  | marker, _, rest, _ => starts_of_sign rest (by decide) (by decide)
  | star, _, rest, _ => starts_of_sign rest (by decide) (by decide)
  | column owner name, h, rest, _ => by
    rw [chars, List.append_assoc]
    exact starts_of_word h.1 (endsWord_of_sign (by decide) _) (Or.inr (by simp))
  | unary op operand, h, rest, hrest => by
    rw [chars]
    split
    · rw [List.append_assoc]
      exact starts_chars operand h _ (delimited_blank _)
    · exact starts_of_sign _ (by decide) (by decide)
  | binary _ _ _, _, rest, _ => starts_of_sign _ (by decide) (by decide)
  | between _ _ _, _, rest, _ => starts_of_sign _ (by decide) (by decide)
  | call name args, h, rest, _ => by
    rw [chars, List.append_assoc]
    exact starts_of_word h.1 (endsWord_of_sign (by decide) _) (Or.inr (by simp))
  | list _, _, rest, _ => starts_of_sign _ (by decide) (by decide)

theorem readOp_text (op : BinaryOp) {cs : List Char} (h : Starts cs) :
    readOp (op.text.toList ++ ' ' :: cs) = some (op, cs) := by
  cases op with
  | is =>
    -- an operand with NOT and a blank in front would turn IS into IS NOT
    have hplain : ∀ rest, cs ≠ 'N' :: 'O' :: 'T' :: ' ' :: rest := by
      rintro rest rfl
      exact h.not rest rfl
    change readOp ('I' :: 'S' :: ' ' :: cs) = _
    unfold readOp
    split
    next rest heq => exact absurd (by simpa using heq) (hplain rest)
    next rest heq => cases heq
    next => rfl
  | _ => rfl

section
variable {read : Reader} {n : Nat}

/-- Behind the last operand the parenthesis is closed. -/
theorem ReadBy.closing {t : Skeleton} (h : ReadBy read t) (rest : List Char) :
    read (t.chars ++ ')' :: rest) = some (t, ')' :: rest) :=
  h _ (delimited_closing rest)

theorem ReadBy.op {t : Skeleton} (h : ReadBy read t) (op : BinaryOp) (rest : List Char) :
    read (t.chars ++ ' ' :: (op.text.toList ++ rest)) =
      some (t, ' ' :: (op.text.toList ++ rest)) := by
  rw [h _ (delimited_blank _), postfixed_op]

theorem delimited_moreChars (ts : List Skeleton) (rest : List Char) :
    Delimited (moreChars ts ++ rest) := by
  cases ts with
  | nil => exact delimited_closing rest
  | cons t ts => exact delimited_comma _

theorem postfixed_moreChars (t : Skeleton) (ts : List Skeleton) (rest : List Char) :
    t.postfixed (moreChars ts ++ rest) = (t, moreChars ts ++ rest) := by
  cases ts <;> rfl

theorem readMore_chars {ts : List Skeleton} (h : ∀ t ∈ ts, ReadBy read t) (hn : ts.length ≤ n)
    (rest : List Char) : readMore read n (moreChars ts ++ rest) = some (ts, rest) := by
  induction ts generalizing n with
  | nil => simp [moreChars, readMore]
  | cons t ts ih =>
    rw [List.forall_mem_cons] at h
    cases n with
    | zero => simp at hn
    | succ n =>
      have hmore := ih h.2 (Nat.le_of_succ_le_succ hn)
      simp [moreChars, readMore, h.1 _ (delimited_moreChars ts rest), postfixed_moreChars, hmore]

theorem readItems_of_starts {cs : List Char} (h : Starts cs) :
    readItems read n cs = (do
      let (t, rest) ← read cs
      let (ts, rest) ← readMore read n rest
      return (t :: ts, rest)) := by
  unfold readItems
  split
  next => exact absurd rfl (h.closing _)
  next => rfl

theorem readItems_chars {ts : List Skeleton} (h : ∀ t ∈ ts, ReadBy read t)
    (hstarts : ∀ t ∈ ts, ∀ rest, Delimited rest → Starts (t.chars ++ rest))
    (hn : ts.length ≤ n + 1) (rest : List Char) :
    readItems read n (itemsChars ts ++ rest) = some (ts, rest) := by
  cases ts with
  | nil => rfl
  | cons t ts =>
    rw [List.forall_mem_cons] at h hstarts
    have hmore := delimited_moreChars ts rest
    have hrest := readMore_chars h.2 (Nat.le_of_succ_le_succ hn) rest
    rw [itemsChars, List.append_assoc, readItems_of_starts (hstarts.1 _ hmore), h.1 _ hmore,
      postfixed_moreChars]
    simp [hrest]

theorem readEnclosed_of_starts {cs : List Char} (h : Starts cs) :
    readEnclosed read n cs = readInner read n cs := by
  unfold readEnclosed
  split
  next cs hcut => exact absurd hcut (h.not _)
  next => exact absurd rfl (h.closing _)
  next => rfl

theorem readEnclosed_not {t : Skeleton} (h : ReadBy read t) (rest : List Char) :
    readEnclosed read n ("NOT".toList ++ ' ' :: (t.chars ++ ')' :: rest)) =
      some (unary .not t, rest) := by
  have hcut : cutWord ("NOT".toList ++ ' ' :: (t.chars ++ ')' :: rest)) =
      (['N', 'O', 'T'], ' ' :: (t.chars ++ ')' :: rest)) := rfl
  simp only [readEnclosed, hcut]
  simp [h.closing, closed]

theorem readOperation_op (left : Skeleton) (op : BinaryOp) (cs : List Char) :
    readOperation read left (op.text.toList ++ ' ' :: cs) = (do
      let (op, cs) ← readOp (op.text.toList ++ ' ' :: cs)
      let (right, rest) ← read cs
      closed (binary op left right) rest) := by
  cases op <;> rfl

theorem readOperation_between (left : Skeleton) (cs : List Char) :
    readOperation read left ("BETWEEN".toList ++ ' ' :: cs) = (do
      let (low, rest) ← read cs
      readHigh read left low rest) :=
  rfl

theorem readHigh_and (subject low : Skeleton) (cs : List Char) :
    readHigh read subject low (' ' :: ("AND".toList ++ ' ' :: cs)) = (do
      let (high, rest) ← read cs
      closed (between subject low high) rest) :=
  rfl

theorem readInner_op {l r : Skeleton} (op : BinaryOp) (hl : ReadBy read l) (hr : ReadBy read r)
    (hstarts : ∀ rest, Delimited rest → Starts (r.chars ++ rest)) (rest : List Char) :
    readInner read n (l.chars ++ ' ' :: (op.text.toList ++ ' ' :: (r.chars ++ ')' :: rest))) =
      some (binary op l r, rest) := by
  have hop : readOp (op.text.toList ++ ' ' :: (r.chars ++ ')' :: rest)) =
      some (op, r.chars ++ ')' :: rest) := readOp_text op (hstarts _ (delimited_closing rest))
  simp [readInner, hl.op, readOperation_op, hop, hr.closing, closed]

theorem readInner_between {x lo hi : Skeleton} (hx : ReadBy read x) (hlo : ReadBy read lo)
    (hhi : ReadBy read hi) (rest : List Char) :
    readInner read n (x.chars ++ ' ' :: ("BETWEEN".toList ++ ' ' :: (lo.chars ++ ' ' ::
      ("AND".toList ++ ' ' :: (hi.chars ++ ')' :: rest))))) = some (between x lo hi, rest) := by
  have hlow := hlo.op .and (' ' :: (hi.chars ++ ')' :: rest))
  rw [BinaryOp.text] at hlow
  rw [readInner, hx _ (delimited_blank _), postfixed_between]
  simp only [Option.bind_eq_bind, Option.bind_some, readOperation_between, hlow, readHigh_and,
    hhi.closing, closed]

theorem readInner_list {t : Skeleton} {ts : List Skeleton} (ht : ReadBy read t)
    (h : ∀ t ∈ ts, ReadBy read t) (hn : ts.length ≤ n) (rest : List Char) :
    readInner read n (t.chars ++ (moreChars ts ++ rest)) = some (list (t :: ts), rest) := by
  have hmore := readMore_chars h hn rest
  rw [readInner, ht _ (delimited_moreChars ts rest), postfixed_moreChars]
  cases ts with
  | nil => simp [moreChars, readMore]
  | cons u ts =>
    simp only [moreChars, List.cons_append, List.append_assoc] at hmore ⊢
    simp [hmore]

end

theorem read_of_atom {n : Nat} {cs word rest after : List Char} {t : Skeleton}
    (hcut : cutWord cs = (word, rest)) (hcall : rest.head? ≠ some '(')
    (hatom : readAtom word rest = some (t, after)) :
    read (n + 1) cs = some (t.postfixed after) := by
  rw [read, hcut]
  split
  next hword => simp [(Prod.mk.inj hword).2] at hcall
  next hword => simp [(Prod.mk.inj hword).2] at hcall
  next hword =>
    obtain ⟨rfl, rfl⟩ := Prod.mk.inj hword
    rw [hatom]
    rfl

theorem Delimited.head?_ne {rest : List Char} (h : Delimited rest) {c : Char}
    (hc : c ∉ [' ', ',', ')']) : rest.head? ≠ some c := by
  intro hhead
  rcases h c hhead with rfl | rfl | rfl <;> simp at hc

/-- A word without a dot behind it is NULL or a number. -/
theorem readAtom_of_word {word rest : List Char} (hword : word ≠ [])
    (hdot : rest.head? ≠ some '.') :
    readAtom word rest = if word = "NULL".toList then some (null, rest)
      else (number? word).map fun (n : Nat) => (int (.ofInt n), rest) := by
  unfold readAtom
  split
  next => exact absurd rfl hword
  next => exact absurd rfl hword
  next => exact absurd rfl hword
  next => exact absurd rfl hword
  next => simp at hdot
  next => rfl

theorem readBy_null (n : Nat) : ReadBy (read (n + 1)) null := by
  intro rest hrest
  have hword : IsWord "NULL".toList := by decide
  rw [chars]
  refine read_of_atom (cutWord_append hword.parts hrest.endsWord) (hrest.head?_ne (by decide)) ?_
  rw [readAtom_of_word hword.ne_nil (hrest.head?_ne (by decide)), if_pos rfl]

theorem readBy_int (n : Nat) (m : Int64) : ReadBy (read (n + 1)) (int m) := by
  intro rest hrest
  have hword := isWord_nat m.toInt.natAbs
  have hcut := cutWord_append hword.parts hrest.endsWord
  rw [chars, toList_int, List.append_assoc]
  split
  next hneg =>
    have hm : (Int64.ofInt (-(m.toInt.natAbs : Int))) = m := by
      rw [show -(m.toInt.natAbs : Int) = m.toInt by omega, Int64.ofInt_toInt]
    refine read_of_atom (cutWord_of_sign (by decide) _) (by simp) ?_
    change readAtom [] ('-' :: ((toString m.toInt.natAbs).toList ++ rest)) = _
    simp only [readAtom, hcut, number?_nat, Option.map_some, hm]
  next hneg =>
    have hm : (Int64.ofInt (m.toInt.natAbs : Int)) = m := by
      rw [show (m.toInt.natAbs : Int) = m.toInt by omega, Int64.ofInt_toInt]
    have hnull : (toString m.toInt.natAbs).toList ≠ "NULL".toList :=
      toList_nat_ne (List.mem_cons_self : 'N' ∈ _) rfl
    refine read_of_atom hcut (hrest.head?_ne (by decide)) ?_
    rw [readAtom_of_word hword.ne_nil (hrest.head?_ne (by decide)), if_neg hnull, number?_nat,
      Option.map_some, hm]

theorem readBy_text (n : Nat) (s : String) : ReadBy (read (n + 1)) (text s) := by
  intro rest hrest
  have hquoted := unquoted?_doubleQuotes s.toList (hrest.head?_ne (by decide))
  rw [chars, toList_quoted, List.cons_append, List.append_assoc]
  refine read_of_atom (cutWord_of_sign (by decide) _) (by simp) ?_
  simp only [readAtom, List.singleton_append, hquoted]
  simp

theorem readBy_marker (n : Nat) : ReadBy (read (n + 1)) marker := fun rest _ =>
  read_of_atom (cutWord_of_sign (by decide) rest) (by simp) rfl

theorem readBy_star (n : Nat) : ReadBy (read (n + 1)) star := fun rest _ =>
  read_of_atom (cutWord_of_sign (by decide) rest) (by simp) rfl

theorem readBy_column (n : Nat) {owner name : String} (howner : IsWord owner.toList)
    (hname : IsWord name.toList) : ReadBy (read (n + 1)) (column owner name) := by
  intro rest hrest
  have hcut := cutWord_append hname.parts hrest.endsWord
  have hdot : EndsWord ('.' :: (name.toList ++ rest)) := endsWord_of_sign (by decide) _
  rw [chars, List.append_assoc]
  refine read_of_atom (cutWord_append howner.parts hdot) (by simp) ?_
  obtain ⟨c, cs, hcs⟩ := List.exists_cons_of_ne_nil howner.ne_nil
  have hback : String.ofList (c :: cs) = owner := by rw [← hcs, String.ofList_toList]
  simp [hcs, readAtom, hcut, hback]

theorem readBy_call {n : Nat} {name : String} (hname : IsWord name.toList) {args : List Skeleton}
    (h : ∀ t ∈ args, ReadBy (read n) t)
    (hstarts : ∀ t ∈ args, ∀ rest, Delimited rest → Starts (t.chars ++ rest))
    (hn : args.length ≤ n + 1) : ReadBy (read (n + 1)) (call name args) := by
  intro rest hrest
  have hopening : EndsWord ('(' :: (itemsChars args ++ rest)) := endsWord_of_sign (by decide) _
  have hitems := readItems_chars h hstarts hn rest
  obtain ⟨c, cs, hcs⟩ := List.exists_cons_of_ne_nil hname.ne_nil
  have hback : String.ofList (c :: cs) = name := by rw [← hcs, String.ofList_toList]
  have hcut := cutWord_append hname.parts hopening
  rw [chars, List.append_assoc, List.cons_append, read, hcut, hcs]
  simp [hitems, hback]

/-- What the text of an expression in parentheses is read as. -/
theorem read_of_enclosed {n : Nat} {cs after : List Char} {t : Skeleton}
    (h : readEnclosed (read n) n cs = some (t, after)) :
    read (n + 1) ('(' :: cs) = some (t.postfixed after) := by
  have hcut : cutWord ('(' :: cs) = ([], '(' :: cs) := rfl
  rw [read, hcut]
  simp only
  rw [h]
  rfl

theorem Legible.of_mem {ts : List Skeleton} (h : AllLegible ts) : ∀ t ∈ ts, t.Legible := by
  induction ts with
  | nil => simp
  | cons t ts ih => exact List.forall_mem_cons.mpr ⟨h.1, ih h.2⟩

theorem length_le_itemsDepth (ts : List Skeleton) : ts.length ≤ itemsDepth ts := by
  induction ts with
  | nil => simp [itemsDepth]
  | cons t ts ih =>
    rw [itemsDepth, List.length_cons]
    omega

mutual

/-- A legible expression is read back from its text. -/
theorem readBy_read : (t : Skeleton) → t.Legible → (n : Nat) → t.depth ≤ n → ReadBy (read n) t
  | t, _, 0, hn => by
    cases t <;> simp [depth] at hn
  | null, _, n + 1, _ => readBy_null n
  | int m, _, n + 1, _ => readBy_int n m
  | text s, _, n + 1, _ => readBy_text n s
  | marker, _, n + 1, _ => readBy_marker n
  | star, _, n + 1, _ => readBy_star n
  | column owner name, h, n + 1, _ => readBy_column n h.1 h.2
  | unary op operand, h, n + 1, hn => by
    have hdepth : operand.depth ≤ n := by
      rw [depth] at hn
      omega
    intro rest hrest
    rw [chars]
    split
    next hop =>
      -- what follows the operand is read together with it
      have hoperand := readBy_read operand h (n + 1) (by omega) (' ' :: (op.text.toList ++ rest))
        (delimited_blank _)
      rw [List.append_assoc, List.cons_append, hoperand, postfixed_unary hop]
    next hop =>
      cases op with
      | not =>
        have henclosed := readEnclosed_not (n := n) (readBy_read operand h n hdepth) rest
        simpa [UnaryOp.text] using read_of_enclosed henclosed
      | _ => simp [UnaryOp.isPostfix] at hop
  | binary op left right, h, n + 1, hn => by
    rw [depth] at hn
    have hleft := readBy_read left h.1 n (by omega)
    have hright := readBy_read right h.2 n (by omega)
    intro rest hrest
    have hinner := readInner_op (n := n) op hleft hright (starts_chars right h.2) rest
    rw [← readEnclosed_of_starts (starts_chars left h.1 _ (delimited_blank _))] at hinner
    simpa [chars] using read_of_enclosed hinner
  | between subject low high, h, n + 1, hn => by
    rw [depth] at hn
    have hsubject := readBy_read subject h.1 n (by omega)
    have hlow := readBy_read low h.2.1 n (by omega)
    have hhigh := readBy_read high h.2.2 n (by omega)
    intro rest hrest
    have hinner := readInner_between (n := n) hsubject hlow hhigh rest
    rw [← readEnclosed_of_starts (starts_chars subject h.1 _ (delimited_blank _))] at hinner
    simpa [chars] using read_of_enclosed hinner
  | call name args, h, n + 1, hn => by
    rw [depth] at hn
    have hdepth := Nat.le_of_succ_le_succ hn
    have hlength := length_le_itemsDepth args
    exact readBy_call h.1 (allReadBy_read args h.2 n hdepth)
      (fun t ht => starts_chars t (Legible.of_mem h.2 t ht)) (by omega)
  | list items, h, n + 1, hn => by
    rw [depth] at hn
    have hdepth := Nat.le_of_succ_le_succ hn
    have hall := allReadBy_read items h n hdepth
    intro rest hrest
    cases items with
    | nil => exact read_of_enclosed rfl
    | cons t items =>
      have hlength := length_le_itemsDepth (t :: items)
      rw [List.forall_mem_cons] at hall
      rw [List.length_cons] at hlength
      have hstarts := starts_chars t h.1 _ (delimited_moreChars items rest)
      have hinner := readInner_list (n := n) hall.1 hall.2 (by omega) rest
      rw [← readEnclosed_of_starts hstarts] at hinner
      simpa [chars, itemsChars] using read_of_enclosed hinner

theorem allReadBy_read : (ts : List Skeleton) → AllLegible ts → (n : Nat) → itemsDepth ts ≤ n →
    ∀ t ∈ ts, ReadBy (read n) t
  | [], _, n, _ => by simp
  | t :: rest, h, n, hn => by
    rw [itemsDepth] at hn
    have ht := readBy_read t h.1 n (by omega)
    have hrest := allReadBy_read rest h.2 n (by omega)
    exact List.forall_mem_cons.mpr ⟨ht, hrest⟩

end

/-- The whole text of a legible expression is read back. -/
theorem read_chars {t : Skeleton} (h : t.Legible) {n : Nat} (hn : t.depth ≤ n) :
    read n t.chars = some (t, []) := by
  have hread := readBy_read t h n hn [] (by simp [Delimited])
  rwa [List.append_nil] at hread

example : read 3 "(a.x IS NOT NULL)".toList =
    some (binary .isNot (column "a" "x") null, []) := rfl

example : read 3 "(a.x IS (NOT NULL))".toList =
    some (binary .is (column "a" "x") (unary .not null), []) := rfl

end QueryTree.Skeleton

namespace QueryTree.Render

/-- The text shows the whole skeleton and nothing else: expressions have the same text exactly if
they have the same skeleton, wherever they are written. -/
theorem same_text_iff_same_skeleton {s s' : Setting} (hs : s.Qualifies) (hs' : s'.Qualifies)
    {e e' : Expr} (he : e.skeleton?.isSome) (he' : e'.skeleton?.isSome)
    {state after state' after' : State} {text text' : String}
    (h : expr s e state = (.ok text, after)) (h' : expr s' e' state' = (.ok text', after')) :
    text = text' ↔ e.skeleton? = e'.skeleton? := by
  obtain ⟨t, ht⟩ := Option.isSome_iff_exists.mp he
  obtain ⟨t', ht'⟩ := Option.isSome_iff_exists.mp he'
  have hchars := chars_of_expr hs e ht h
  have hchars' := chars_of_expr hs' e' ht' h'
  rw [ht, ht', Option.some.injEq, ← String.toList_inj, hchars, hchars']
  constructor
  · intro hsame
    have hread := Skeleton.read_chars (legible_of_skeleton? e ht)
      (Nat.le_max_left t.depth t'.depth)
    have hread' := Skeleton.read_chars (legible_of_skeleton? e' ht')
      (Nat.le_max_right t.depth t'.depth)
    rw [hsame, hread'] at hread
    exact (Prod.mk.inj (Option.some.inj hread)).1.symm
  · rintro rfl
    rfl

def staff : Table := ⟨0, "staff", ["name"]⟩

/-- Another table, under the name of the staff. -/
def formerStaff : TableAlias := ⟨"staff", ⟨1, "former", ["name"]⟩⟩

/-- The members of the staff with other names than two. -/
def unlisted : Expr :=
  .binary .notIn (.call "lower" [.column (.plain (.table staff) "name")])
    (.list [.value (.text "o'neil"), .param "name"])

/-- The same condition with other keys and labels. -/
def relabeled : Expr :=
  .labeled (.binary .notIn
    (.call "Lower" [.column ((Column.plain (.alias_ formerStaff) "name").aliased "n").asCorrelated])
    (.list [.labeled (.value (.text "o'neil")) "first", .param "second"])) "found"

theorem unlisted_same_skeleton :
    ∃ s s' : Setting, s.Qualifies ∧ s'.Qualifies ∧ unlisted.skeleton?.isSome ∧
      relabeled.skeleton?.isSome ∧ ∃ state after state' after' text,
        expr s unlisted state = (.ok text, after) ∧ expr s' relabeled state' = (.ok text, after') ∧
          unlisted.skeleton? = relabeled.skeleton? := by
  have h : expr ⟨.ofList [("name", .int 1)], {}, []⟩ unlisted ⟨[], ⟨0, []⟩⟩ =
      (.ok "(LOWER(staff.name) NOT IN ('o''neil', ?))", ⟨[.int 1], ⟨0, []⟩⟩) := rfl
  have h' : expr ⟨.ofList [("second", .null)], { validate := false }, []⟩ relabeled ⟨[], ⟨0, []⟩⟩ =
      (.ok "(LOWER(staff.name) NOT IN ('o''neil', ?))", ⟨[.null], ⟨0, []⟩⟩) := rfl
  exact ⟨_, _, ⟨rfl, rfl⟩, ⟨rfl, rfl⟩, rfl, rfl, _, _, _, _, _, h, h',
    (same_text_iff_same_skeleton ⟨rfl, rfl⟩ ⟨rfl, rfl⟩ rfl rfl h h').mp rfl⟩

end QueryTree.Render
