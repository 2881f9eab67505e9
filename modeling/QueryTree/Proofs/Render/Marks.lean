import QueryTree.Proofs.Render.Leaves
import QueryTree.Proofs.Render.Runs
import QueryTree.Proofs.Text.Uppercase

/-! Where a character comes from that SQL itself does not use: from a name, a constant, a marker or
the end of a line. -/

namespace QueryTree

theorem Relation.mem_leaves_name : (r : Relation) → .name r.name ∈ r.leaves
  | .table t => by simp [Relation.leaves, Relation.name]
  | .alias_ a => by simp [Relation.leaves, Relation.name]
  | .projected (.derived ⟨name, q, given⟩) source => by
    simp [Relation.leaves, Scope.leaves, Relation.name, Scope.name]
  | .projected (.unfolded ⟨name, q⟩) source => by
    simp [Relation.leaves, Scope.leaves, Relation.name, Scope.name]
  | .derived ⟨name, q, given⟩ => by simp [Relation.leaves, Relation.name]

/-- A name comes from the leaves up to the underscores and dots that join its parts. -/
def NamedBy (leaves : List Leaf) (text : String) : Prop :=
  ∀ c ∈ text.toList, c = '_' ∨ c = '.' ∨ ∃ n, .name n ∈ leaves ∧ c ∈ n.toList

theorem NamedBy.of_mem {leaves : List Leaf} {n : String} (h : .name n ∈ leaves) :
    NamedBy leaves n :=
  fun _ hc => Or.inr (Or.inr ⟨n, h, hc⟩)

theorem NamedBy.append {leaves : List Leaf} {a b : String} (ha : NamedBy leaves a)
    (hb : NamedBy leaves b) : NamedBy leaves (a ++ b) := by
  intro c hc
  rw [String.toList_append, List.mem_append] at hc
  exact hc.elim (ha c) (hb c)

theorem namedBy_underscore (leaves : List Leaf) : NamedBy leaves "_" :=
  fun _ hc => Or.inl (List.mem_singleton.mp hc)

theorem namedBy_dot (leaves : List Leaf) : NamedBy leaves "." :=
  fun _ hc => Or.inr (Or.inl (List.mem_singleton.mp hc))

theorem Relation.namedBy_exposedName {leaves : List Leaf} {field : String}
    (hfield : .name field ∈ leaves) : (r : Relation) → r.leaves ⊆ leaves →
    NamedBy leaves (r.exposedName field)
  | .projected scope source, hr => by
    rw [Relation.leaves] at hr
    have hsource : source.leaves ⊆ leaves := fun l hl => hr (List.mem_append_right _ hl)
    have hname := NamedBy.of_mem (hsource source.mem_leaves_name)
    exact (hname.append (namedBy_underscore _)).append
      (source.namedBy_exposedName hfield hsource)
  | .table _, _ | .alias_ _, _ | .derived _, _ => NamedBy.of_mem hfield

namespace Column

theorem leaves_eq (c : Column) :
    c.leaves = c.owner.leaves ++ .name c.field :: (c.label.map Leaf.name).toList := by
  cases c
  rw [leaves]

theorem mem_leaves_owner (c : Column) : .name c.owner.name ∈ c.leaves := by
  rw [leaves_eq]
  exact List.mem_append_left _ c.owner.mem_leaves_name

theorem namedBy_name (c : Column) : NamedBy c.leaves c.name := by
  rw [leaves_eq]
  exact c.owner.namedBy_exposedName (by simp) (List.subset_append_left _ _)

theorem namedBy_projectionName (c : Column) : NamedBy c.leaves c.projectionName := by
  unfold projectionName
  cases hlabel : c.label with
  | none => exact c.namedBy_name
  | some label => exact NamedBy.of_mem (by simp [leaves_eq, hlabel])

end Column

namespace Render

theorem namedBy_column {s : Setting} {c : Column} {text : String} (h : s.column c = .ok text) :
    NamedBy c.leaves text := by
  have hqualified : NamedBy c.leaves (c.owner.name ++ "." ++ c.name) :=
    ((NamedBy.of_mem c.mem_leaves_owner).append (namedBy_dot _)).append c.namedBy_name
  unfold Setting.column at h
  split at h
  · cases h
    exact c.namedBy_projectionName
  · split at h
    · split at h
      · cases h
      · cases h
        exact hqualified
    · split at h
      · cases h
        exact c.namedBy_name
      · cases h
        exact hqualified

/-- The characters of literals, of the texts of SQL itself, and those that join names. -/
def isSqlMark (c : Char) : Bool :=
  Value.isLiteralMark c || ['_', '*', '/', '<', '>', '='].contains c

theorem all_isSqlMark_word (w : Word) : w.text.toList.all isSqlMark = true := by
  cases w with
  | prefixOp op => cases op <;> decide
  | postfixOp op => cases op <;> decide
  | binaryOp op => cases op <;> decide
  | join kind => cases kind <;> decide
  | set op => cases op <;> decide
  | clause kind => cases kind <;> decide
  | _ => decide

theorem alphanum_of_mem_generated {place : Nat} {c : Char}
    (h : c ∈ (generatedName place).toList) : c.isAlphanum = true ∨ c = '_' := by
  rw [generatedName, String.toList_append, List.mem_append] at h
  rcases h with hstart | hdigits
  · have hall : "_q".toList.all (fun c => c.isAlphanum || c = '_') = true := by decide
    simpa using List.all_eq_true.mp hall c hstart
  · rw [Nat.toString_eq_repr, Nat.toList_repr] at hdigits
    have hdigit := Nat.isDigit_of_mem_toDigits (by decide) (by decide) hdigits
    exact Or.inl (by simp [Char.isAlphanum, hdigit])

theorem nameOf_eq_generatedName (id : Nat) (registry : Registry) :
    ∃ place, (Registry.nameOf id registry).1 = generatedName place := by
  unfold Registry.nameOf
  split
  next place _ => exact ⟨place, rfl⟩
  next => exact ⟨_, rfl⟩

/-- What a fragment has of a mark: its own text, its constant, or names. -/
def Fragment.Holds (options : Options) (mark : Char) : Fragment → Prop
  | .word w => mark ∈ w.text.toList
  | .constant v => mark ∈ v.literal.toList
  | .marker _ _ => mark = '?'
  | .separator => mark ∈ options.separator.toList
  | f => ∃ n, .name n ∈ f.leaves ∧ mark ∈ n.toList

/-- A mark of ASCII that is in no generated name and joins no parts of names. -/
structure Sign (mark : Char) : Prop where
  ascii : mark.toNat < 128
  alphanum : mark.isAlphanum = false
  underscore : mark ≠ '_'
  dot : mark ≠ '.'

theorem Sign.of_mem_named {mark : Char} (hmark : Sign mark) {leaves : List Leaf} {text : String}
    (htext : NamedBy leaves text) (h : mark ∈ text.toList) :
    ∃ n, .name n ∈ leaves ∧ mark ∈ n.toList := by
  rcases htext mark h with hjoint | hjoint | hname
  · exact absurd hjoint hmark.underscore
  · exact absurd hjoint hmark.dot
  · exact hname

/-- A mark of ASCII that SQL itself does not use. -/
structure Foreign (mark : Char) : Prop where
  ascii : mark.toNat < 128
  unused : isSqlMark mark = false

theorem foreign_question : Foreign '?' :=
  ⟨by decide, by decide⟩

theorem Foreign.not_mem {mark : Char} (hmark : Foreign mark) {text : String}
    (h : ∀ c ∈ text.toList, isSqlMark c = true) : mark ∉ text.toList := by
  intro hmem
  have hused := h mark hmem
  rw [hmark.unused] at hused
  cases hused

theorem Foreign.sign {mark : Char} (hmark : Foreign mark) : Sign mark := by
  have hunused := hmark.unused
  refine ⟨hmark.ascii, ?_, ?_, ?_⟩
  · simp only [isSqlMark, Value.isLiteralMark, Text.isFigure, Bool.or_eq_false_iff] at hunused
    exact hunused.1.1.1
  · rintro rfl
    exact absurd hunused (by decide)
  · rintro rfl
    exact absurd hunused (by decide)

/-- A mark is in none of the texts of some leaves. -/
def FreeOf (mark : Char) (leaves : List Leaf) : Prop :=
  ∀ l ∈ leaves, ∀ text ∈ l.texts, mark ∉ text.toList

instance (mark : Char) (leaves : List Leaf) : Decidable (FreeOf mark leaves) :=
  inferInstanceAs (Decidable (∀ l ∈ leaves, ∀ text ∈ l.texts, mark ∉ text.toList))

theorem freeOf_append {mark : Char} {a b : List Leaf} :
    FreeOf mark (a ++ b) ↔ FreeOf mark a ∧ FreeOf mark b :=
  List.forall_mem_append

theorem FreeOf.not_mem_literal {mark : Char} {v : Value} (h : FreeOf mark [.constant v])
    (hmark : Foreign mark) : mark ∉ v.literal.toList := by
  intro hmem
  rcases Value.mem_literal v hmem with hused | ⟨text, htext, hc⟩
  · have hunused := hmark.unused
    rw [isSqlMark, hused] at hunused
    cases hunused
  · exact h _ (List.mem_singleton_self _) text htext hc

section
variable {bindings : Bindings} {options : Options} {numbers : List Nat} {state after : State}

/-- Where a sign comes from that is written. -/
theorem Sign.of_mem_write {mark : Char} (hmark : Sign mark) {f : Fragment} {r : String × List Nat}
    (h : f.write bindings options numbers state = (.ok r, after)) (hmem : mark ∈ r.1.toList) :
    f.Holds options mark := by
  rw [write_ok_iff] at h
  cases f with
  | word w =>
    obtain ⟨rfl, -⟩ := h
    exact hmem
  | name n =>
    obtain ⟨rfl, -⟩ := h
    exact ⟨n, List.mem_singleton_self _, hmem⟩
  | function n =>
    obtain ⟨rfl, -⟩ := h
    exact ⟨n, List.mem_singleton_self _, Text.mem_of_mem_upper hmark.ascii hmark.alphanum hmem⟩
  | constant v =>
    obtain ⟨rfl, -⟩ := h
    exact hmem
  | marker scopes key =>
    obtain ⟨_, -, rfl, -⟩ := h
    simpa [Fragment.Holds] using hmem
  | column scopes c =>
    obtain ⟨text, htext, rfl, -⟩ := h
    exact hmark.of_mem_named (namedBy_column htext) hmem
  | separator =>
    obtain ⟨rfl, -⟩ := h
    exact hmem
  | check q =>
    obtain ⟨-, rfl, -⟩ := h
    simp at hmem
  | number identity id =>
    obtain ⟨rfl, -⟩ := h
    simp at hmem
  | generated =>
    obtain ⟨rfl, -⟩ := h
    obtain ⟨place, hplace⟩ := nameOf_eq_generatedName (numbers.headD 0) state.registry
    rw [hplace] at hmem
    rcases alphanum_of_mem_generated hmem with halphanum | hunderscore
    · rw [hmark.alphanum] at halphanum
      cases halphanum
    · exact absurd hunderscore hmark.underscore
  | leave =>
    obtain ⟨rfl, -⟩ := h
    simp at hmem

/-- A foreign mark that is written stands for a placeholder or ends a line, if no leaf has it. -/
theorem Foreign.of_mem_write {mark : Char} (hmark : Foreign mark) {f : Fragment}
    (hfree : FreeOf mark f.leaves) {r : String × List Nat}
    (h : f.write bindings options numbers state = (.ok r, after)) (hmem : mark ∈ r.1.toList) :
    (∃ scopes key, f = .marker scopes key) ∨ f = .separator := by
  have horigin := hmark.sign.of_mem_write h hmem
  cases f with
  | marker scopes key => exact Or.inl ⟨scopes, key, rfl⟩
  | separator => exact Or.inr rfl
  | word w => exact absurd horigin (hmark.not_mem (List.all_eq_true.mp (all_isSqlMark_word w)))
  | constant v => exact absurd horigin (hfree.not_mem_literal hmark)
  | _ =>
    obtain ⟨n, hn, hc⟩ := horigin
    exact absurd hc (hfree _ hn n (List.mem_singleton_self n))

end

end Render

end QueryTree
