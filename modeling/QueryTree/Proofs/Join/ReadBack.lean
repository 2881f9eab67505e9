import Mathlib.Logic.Relation
import QueryTree.Proofs.Expression.Reader
import QueryTree.Proofs.Join.Outline

/-!
The text of a join tree shows the whole tree. Read from the left, it is the first relation and a
row of links, each of them a kind of join with its right operand and a condition. The row ends
where no further link stands: a condition does not go on with the words of a join, and nothing
else is left open.
-/

namespace QueryTree.Outline

open Text

/-- What a join adds to its left operand. -/
structure Link where
  kind : JoinKind
  right : Outline
  on : Option String

/-- The tree with one more join around it. -/
def linked (o : Outline) (k : Link) : Outline :=
  .join k.kind o k.right k.on

/-- A right operand, in parentheses if it is a join. -/
def operandChars (o : Outline) : List Char :=
  if o.isJoin then '(' :: (o.chars ++ [')']) else o.chars

theorem operandChars_relation (table : String) (alias_ : Option String) :
    operandChars (relation table alias_) = (relation table alias_).chars :=
  rfl

theorem operandChars_join (kind : JoinKind) (left right : Outline) (on : Option String) :
    operandChars (join kind left right on) = '(' :: ((join kind left right on).chars ++ [')']) :=
  rfl

def onChars (on : Option String) : List Char :=
  (Render.onText on.toList).toList

def Link.chars (k : Link) : List Char :=
  ' ' :: (k.kind.text.toList ++ ' ' :: (operandChars k.right ++ onChars k.on))

/-- What may stand behind a join tree: nothing, a parenthesis that closes or a further link. -/
inductive Behind : List Char → Prop
  | nothing : Behind []
  | closing (rest : List Char) : Behind (')' :: rest)
  | link (kind : JoinKind) (rest : List Char) : Behind (' ' :: (kind.text.toList ++ ' ' :: rest))

theorem Behind.delimited {rest : List Char} (h : Behind rest) : Skeleton.Delimited rest := by
  cases h with
  | nothing => simp [Skeleton.Delimited]
  | closing rest => exact Skeleton.delimited_closing rest
  | link kind rest => exact Skeleton.delimited_blank _

/-- No link is taken for a postfix operator. -/
theorem Behind.postfixed {rest : List Char} (h : Behind rest) (t : Skeleton) :
    t.postfixed rest = (t, rest) := by
  cases h with
  | nothing => rfl
  | closing rest => rfl
  | link kind rest => cases kind <;> rfl

/-- Expressions are told apart from what stands behind them. -/
theorem condition_append_inj {t t' : Skeleton} (ht : t.Legible) (ht' : t'.Legible)
    {rest rest' : List Char} (hrest : Behind rest) (hrest' : Behind rest')
    (h : t.chars ++ rest = t'.chars ++ rest') : t = t' ∧ rest = rest' := by
  have hread := Skeleton.readBy_read t ht (max t.depth t'.depth) (Nat.le_max_left _ _) rest
    hrest.delimited
  have hread' := Skeleton.readBy_read t' ht' (max t.depth t'.depth) (Nat.le_max_right _ _) rest'
    hrest'.delimited
  rw [h, hread', hrest.postfixed, hrest'.postfixed] at hread
  obtain ⟨rfl, rfl⟩ := Prod.mk.inj (Option.some.inj hread)
  exact ⟨rfl, rfl⟩

theorem onChars_some (text : String) : onChars (some text) = " ON ".toList ++ text.toList := by
  simp [onChars, Render.onText]

/-- A link does not start like a condition. -/
theorem Behind.ne_on {rest : List Char} (h : Behind rest) (cs : List Char) :
    rest ≠ " ON ".toList ++ cs := by
  cases h with
  | nothing => simp
  | closing rest => simp
  | link kind rest => cases kind <;> simp [JoinKind.text]

theorem onChars_append_inj {on on' : Option String}
    (hon : ∀ text ∈ on, ∃ t : Skeleton, t.Legible ∧ text.toList = t.chars)
    (hon' : ∀ text ∈ on', ∃ t : Skeleton, t.Legible ∧ text.toList = t.chars)
    {rest rest' : List Char} (hrest : Behind rest) (hrest' : Behind rest')
    (h : onChars on ++ rest = onChars on' ++ rest') : on = on' ∧ rest = rest' := by
  cases on with
  | none =>
    cases on' with
    | none => exact ⟨rfl, h⟩
    | some text =>
      rw [onChars_some, List.append_assoc] at h
      exact absurd h (hrest.ne_on _)
  | some text =>
    cases on' with
    | none =>
      rw [onChars_some, List.append_assoc] at h
      exact absurd h.symm (hrest'.ne_on _)
    | some text' =>
      obtain ⟨t, ht, htext⟩ := hon text rfl
      obtain ⟨t', ht', htext'⟩ := hon' text' rfl
      rw [onChars_some, onChars_some, List.append_assoc, List.append_assoc, htext, htext'] at h
      obtain ⟨rfl, rfl⟩ :=
        condition_append_inj ht ht' hrest hrest' (List.append_cancel_left h)
      rw [String.toList_inj.mp (htext.trans htext'.symm)]
      exact ⟨rfl, rfl⟩

/-- What may stand behind a relation: whatever neither goes on with its name nor gives it an
alias. -/
structure EndsRelation (rest : List Char) : Prop where
  endsWord : EndsWord rest
  ne_as : ∀ cs, rest ≠ " as ".toList ++ cs

theorem Behind.endsRelation {rest : List Char} (h : Behind rest) : EndsRelation rest := by
  refine ⟨h.delimited.endsWord, fun cs => ?_⟩
  cases h with
  | nothing => simp
  | closing rest => simp
  | link kind rest => cases kind <;> simp [JoinKind.text]

theorem endsRelation_onChars (on : Option String) {rest : List Char} (h : Behind rest) :
    EndsRelation (onChars on ++ rest) := by
  cases on with
  | none => exact h.endsRelation
  | some text =>
    rw [onChars_some, List.append_assoc]
    exact ⟨endsWord_of_sign (by decide) _, by simp⟩

/-- The alias of a relation, if it has one. -/
def aliasChars (alias_ : Option String) : List Char :=
  match alias_ with
  | none => []
  | some name => " as ".toList ++ name.toList

theorem chars_relation (table : String) (alias_ : Option String) :
    (relation table alias_).chars = table.toList ++ aliasChars alias_ := by
  cases alias_ <;> simp [chars, aliasChars]

theorem aliasChars_append_inj {alias_ alias' : Option String}
    (halias : ∀ name ∈ alias_, IsWord name.toList) (halias' : ∀ name ∈ alias', IsWord name.toList)
    {rest rest' : List Char} (hrest : EndsRelation rest) (hrest' : EndsRelation rest')
    (h : aliasChars alias_ ++ rest = aliasChars alias' ++ rest') :
    alias_ = alias' ∧ rest = rest' := by
  cases alias_ with
  | none =>
    cases alias' with
    | none => exact ⟨rfl, h⟩
    | some name =>
      rw [aliasChars, aliasChars, List.append_assoc] at h
      exact absurd h (hrest.ne_as _)
  | some name =>
    cases alias' with
    | none =>
      rw [aliasChars, aliasChars, List.append_assoc] at h
      exact absurd h.symm (hrest'.ne_as _)
    | some name' =>
      rw [aliasChars, aliasChars, List.append_assoc, List.append_assoc] at h
      obtain ⟨hname, rfl⟩ := (halias name rfl).append_inj (halias' name' rfl)
        hrest.endsWord hrest'.endsWord (List.append_cancel_left h)
      rw [String.toList_inj.mp hname]
      exact ⟨rfl, rfl⟩

theorem endsWord_aliasChars (alias_ : Option String) {rest : List Char} (h : EndsRelation rest) :
    EndsWord (aliasChars alias_ ++ rest) := by
  cases alias_ with
  | none => exact h.endsWord
  | some name => exact endsWord_of_sign (by decide) _

/-- Relations are told apart from what stands behind them. -/
theorem relation_append_inj {table table' : String} {alias_ alias' : Option String}
    (ho : (relation table alias_).Legible) (ho' : (relation table' alias').Legible)
    {rest rest' : List Char} (hrest : EndsRelation rest) (hrest' : EndsRelation rest')
    (h : (relation table alias_).chars ++ rest = (relation table' alias').chars ++ rest') :
    relation table alias_ = relation table' alias' ∧ rest = rest' := by
  rw [chars_relation, chars_relation, List.append_assoc, List.append_assoc] at h
  obtain ⟨htable, h⟩ := ho.1.append_inj ho'.1 (endsWord_aliasChars alias_ hrest)
    (endsWord_aliasChars alias' hrest') h
  obtain ⟨rfl, rfl⟩ := aliasChars_append_inj ho.2 ho'.2 hrest hrest' h
  rw [String.toList_inj.mp htable]
  exact ⟨rfl, rfl⟩

/-- One more link of a text is read. -/
def ReadsLink (a b : Outline × List Char) : Prop :=
  ∃ k : Link, a.2 = k.chars ++ b.2 ∧ b.1 = a.1.linked k

/-- A tree that has been read, with the rest of the text, and what it grows to when reading goes
on. -/
abbrev Grows : Outline × List Char → Outline × List Char → Prop :=
  Relation.ReflTransGen ReadsLink

variable {o o' : Outline} {rest rest' : List Char}

theorem Grows.legible {a b : Outline × List Char} (h : Grows a b) (hb : b.1.Legible) :
    a.1.Legible := by
  induction h using Relation.ReflTransGen.head_induction_on with
  | refl => exact hb
  | head hstep _ ih =>
    obtain ⟨k, -, hlinked⟩ := hstep
    rw [hlinked] at ih
    exact ih.1

theorem Grows.behind {a b : Outline × List Char} (h : Grows a b) (hb : Behind b.2) :
    Behind a.2 := by
  rcases h.cases_head with rfl | ⟨c, ⟨k, hrest, -⟩, -⟩
  · exact hb
  · rw [hrest]
    simp only [Link.chars, List.cons_append, List.append_assoc]
    exact .link k.kind _

/-- In front of a parenthesis that closes, and at the end, reading is over. -/
theorem Grows.eq_of_no_blank {a b : Outline × List Char} (h : Grows a b)
    (ha : a.2.head? ≠ some ' ') : a = b := by
  rcases h.cases_head with rfl | ⟨c, ⟨k, hrest, -⟩, -⟩
  · rfl
  · rw [hrest] at ha
    exact absurd rfl ha

/-- Every tree grows out of the relation that its text starts with. -/
theorem exists_first (o : Outline) (rest : List Char) : ∃ table alias_ more,
    (relation table alias_).chars ++ more = o.chars ++ rest ∧
      Grows (relation table alias_, more) (o, rest) := by
  induction o generalizing rest with
  | relation table alias_ => exact ⟨table, alias_, rest, rfl, .refl⟩
  | join kind left right on ihleft _ =>
    let k : Link := ⟨kind, right, on⟩
    obtain ⟨table, alias_, more, hchars, hgrows⟩ := ihleft (k.chars ++ rest)
    refine ⟨table, alias_, more, ?_, hgrows.tail ⟨k, rfl, rfl⟩⟩
    rw [hchars, ← List.append_assoc]
    rfl

/-- Of the tree and any other that the same text starts with, one grows to the other. -/
def Comparable (o : Outline) : Prop :=
  ∀ (o' : Outline) (rest rest' : List Char), o.Legible → o'.Legible → Behind rest → Behind rest' →
    o.chars ++ rest = o'.chars ++ rest' →
    Grows (o, rest) (o', rest') ∨ Grows (o', rest') (o, rest)

/-- A tree is told apart from what stands behind the parenthesis around it. -/
theorem Comparable.enclosed_append_inj (h : Comparable o) (ho : o.Legible) (ho' : o'.Legible)
    (hchars : o.chars ++ ')' :: rest = o'.chars ++ ')' :: rest') : o = o' ∧ rest = rest' := by
  have heq : (o, ')' :: rest) = (o', ')' :: rest') := by
    rcases h o' _ _ ho ho' (.closing rest) (.closing rest') hchars with hgrows | hgrows
    · exact hgrows.eq_of_no_blank (by simp)
    · exact (hgrows.eq_of_no_blank (by simp)).symm
  obtain ⟨rfl, hrest⟩ := Prod.mk.inj heq
  exact ⟨rfl, (List.cons.inj hrest).2⟩

theorem head?_relation {table : String} {alias_ : Option String}
    (ho : (relation table alias_).Legible) (rest : List Char) :
    ((relation table alias_).chars ++ rest).head? ≠ some '(' := by
  obtain ⟨c, cs, hcs⟩ := List.exists_cons_of_ne_nil ho.1.ne_nil
  have hc := ho.1.parts c (by simp [hcs])
  rw [chars_relation, hcs]
  rintro ⟨⟩
  cases hc

theorem operandChars_append_inj (hcomparable : Comparable o) (ho : o.Legible) (ho' : o'.Legible)
    (hrest : EndsRelation rest) (hrest' : EndsRelation rest')
    (h : operandChars o ++ rest = operandChars o' ++ rest') : o = o' ∧ rest = rest' := by
  cases o with
  | relation table alias_ =>
    cases o' with
    | relation table' alias' => exact relation_append_inj ho ho' hrest hrest' h
    | join kind' left' right' on' =>
      rw [operandChars_relation, operandChars_join] at h
      exact absurd (congrArg List.head? h) (head?_relation ho rest)
  | join kind left right on =>
    cases o' with
    | relation table' alias' =>
      rw [operandChars_relation, operandChars_join] at h
      exact absurd (congrArg List.head? h.symm) (head?_relation ho' rest')
    | join kind' left' right' on' =>
      simp only [operandChars_join, List.cons_append, List.append_assoc, List.nil_append,
        List.cons.injEq, true_and] at h
      exact hcomparable.enclosed_append_inj ho ho' h

theorem kind_append_inj {kind kind' : JoinKind}
    (h : kind.text.toList ++ ' ' :: rest = kind'.text.toList ++ ' ' :: rest') :
    kind = kind' ∧ rest = rest' := by
  revert h
  cases kind <;> cases kind' <;> simp [JoinKind.text]

/-- Links are told apart from what stands behind them. -/
theorem link_append_inj {k k' : Link} (hcomparable : Comparable k.right)
    (hk : (o.linked k).Legible) (hk' : (o'.linked k').Legible) (hrest : Behind rest)
    (hrest' : Behind rest') (h : k.chars ++ rest = k'.chars ++ rest') : k = k' ∧ rest = rest' := by
  obtain ⟨kind, right, on⟩ := k
  obtain ⟨kind', right', on'⟩ := k'
  simp only [Link.chars, List.cons_append, List.append_assoc, List.cons.injEq, true_and] at h
  obtain ⟨rfl, hright⟩ := kind_append_inj h
  obtain ⟨rfl, hon⟩ := operandChars_append_inj hcomparable hk.2.1 hk'.2.1
    (endsRelation_onChars on hrest) (endsRelation_onChars on' hrest') hright
  obtain ⟨rfl, rfl⟩ := onChars_append_inj hk.2.2 hk'.2.2 hrest hrest' hon
  exact ⟨rfl, rfl⟩

theorem comparable_relation (table : String) (alias_ : Option String) :
    Comparable (relation table alias_) := by
  intro o' rest rest' ho ho' hrest hrest' h
  obtain ⟨table', alias', more, hchars, hgrows⟩ := exists_first o' rest'
  obtain ⟨heq, rfl⟩ := relation_append_inj ho (Grows.legible hgrows ho') hrest.endsRelation
    (Grows.behind hgrows hrest').endsRelation (h.trans hchars.symm)
  rw [heq]
  exact Or.inl hgrows

/-- Where the left operand grows to the other tree, the next link is that of the join; where the
other tree grows to the left operand, it grows to the join by one link more. -/
theorem comparable_join {left right : Outline} (hleft : Comparable left)
    (hright : Comparable right) (kind : JoinKind) (on : Option String) :
    Comparable (join kind left right on) := by
  intro o' rest rest' ho ho' hrest hrest' h
  let k : Link := ⟨kind, right, on⟩
  have hstep : ReadsLink (left, k.chars ++ rest) (join kind left right on, rest) := ⟨k, rfl, rfl⟩
  have hbehind : Behind (k.chars ++ rest) := Grows.behind (.single hstep) hrest
  have hchars : left.chars ++ (k.chars ++ rest) = o'.chars ++ rest' := by
    rw [← h, ← List.append_assoc]
    rfl
  rcases hleft o' _ _ ho.1 ho' hbehind hrest' hchars with hgrows | hgrows
  · rcases hgrows.cases_head with heq | ⟨⟨next, more⟩, ⟨k', hk', rfl⟩, hmore⟩
    · rw [← heq]
      exact Or.inr (.single hstep)
    · obtain ⟨rfl, rfl⟩ := link_append_inj (o := left) (k := k) hright ho
        (Grows.legible hmore ho') hrest (Grows.behind hmore hrest') hk'
      exact Or.inl hmore
  · exact Or.inr (hgrows.tail hstep)

theorem comparable (o : Outline) : Comparable o := by
  induction o with
  | relation table alias_ => exact comparable_relation table alias_
  | join kind left right on ihleft ihright => exact comparable_join ihleft ihright kind on

/-- Trees with the same text are the same. -/
theorem eq_of_chars_eq (ho : o.Legible) (ho' : o'.Legible) (h : o.chars = o'.chars) : o = o' := by
  have hchars : o.chars ++ [] = o'.chars ++ [] := by rw [h]
  rcases comparable o o' [] [] ho ho' .nothing .nothing hchars with hgrows | hgrows
  · exact (Prod.mk.inj (hgrows.eq_of_no_blank (by simp))).1
  · exact (Prod.mk.inj (hgrows.eq_of_no_blank (by simp))).1.symm

end QueryTree.Outline

namespace QueryTree.Render

/-- The text of a join tree shows its outline and nothing else: two trees have the same text exactly
if they have the same shape, at each leaf the same names, and at each join the same kind and the
same text behind ON, or none. -/
theorem same_text_iff_same_outline {s s' : Setting} (hs : s.Qualifies) (hs' : s'.Qualifies)
    {j j' : JoinTree} (hj : j.Legible) (hj' : j'.Legible) {identity identity' : Identity}
    {id id' : Nat} {state after state' after' : State} {text text' : String}
    (h : sourceText s identity id j.source state = (.ok text, after))
    (h' : sourceText s' identity' id' j'.source state' = (.ok text', after')) :
    ∃ o o', outline s j state = (.ok o, after) ∧ outline s' j' state' = (.ok o', after') ∧
      (text = text' ↔ o = o') := by
  obtain ⟨o, ho, hlegible, -, hchars⟩ := exists_outline hs j hj h
  obtain ⟨o', ho', hlegible', -, hchars'⟩ := exists_outline hs' j' hj' h'
  refine ⟨o, o', ho, ho', ?_⟩
  rw [← String.toList_inj, hchars, hchars']
  exact ⟨Outline.eq_of_chars_eq hlegible hlegible', congrArg Outline.chars⟩

def shops : Table := ⟨2, "shops", ["head", "town"]⟩

def towns : Table := ⟨3, "towns", ["name"]⟩

/-- Who may be the head of a shop. -/
def heads : TableAlias := ⟨"heads", staff⟩

def headKnown : Expr :=
  .binary .eq (.column (.plain (.table shops) "head")) (.column (.plain (.alias_ heads) "name"))

def townKnown : Expr :=
  .binary .eq (.column (.plain (.table shops) "town")) (.column (.plain (.table towns) "name"))

/-- The shops with all pairs of heads and towns, on the given conditions. -/
def staffedShops (on : List Expr) : JoinTree :=
  .join .leftOuter (.table shops) (.join .cross (.alias_ heads) (.table towns) []) on

/-- Two conditions, and the two as one. -/
theorem staffedShops_same_outline :
    ∃ s : Setting, s.Qualifies ∧ (staffedShops [headKnown, townKnown]).Legible ∧
      (staffedShops [.labeled (.binary .and headKnown townKnown) "known"]).Legible ∧
      ∃ o o' state,
        outline s (staffedShops [headKnown, townKnown]) state = (.ok o, state) ∧
        outline s (staffedShops [.labeled (.binary .and headKnown townKnown) "known"]) state =
          (.ok o', state) ∧ o = o' := by
  let s : Setting := ⟨.empty, {}, []⟩
  have hs : s.Qualifies := ⟨rfl, rfl⟩
  have hj : (staffedShops [headKnown, townKnown]).Legible := by
    refine ⟨rfl, ⟨⟨rfl, rfl⟩, rfl, by simp⟩, ?_⟩
    decide
  have hj' : (staffedShops [.labeled (.binary .and headKnown townKnown) "known"]).Legible := by
    refine ⟨rfl, ⟨⟨rfl, rfl⟩, rfl, by simp⟩, ?_⟩
    decide
  let text := "shops LEFT OUTER JOIN (staff as heads CROSS JOIN towns) ON " ++
    "((shops.head = heads.name) AND (shops.town = towns.name))"
  have h : sourceText s .own 0 (staffedShops [headKnown, townKnown]).source ⟨[], {}⟩ =
      (.ok text, ⟨[], {}⟩) := rfl
  have h' : sourceText s .own 0
      (staffedShops [.labeled (.binary .and headKnown townKnown) "known"]).source ⟨[], {}⟩ =
      (.ok text, ⟨[], {}⟩) := rfl
  obtain ⟨o, o', ho, ho', hsame⟩ := same_text_iff_same_outline hs hs hj hj' h h'
  exact ⟨s, hs, hj, hj', o, o', _, ho, ho', hsame.mp rfl⟩

end QueryTree.Render
