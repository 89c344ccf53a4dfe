import Justfile.Proofs.Cursor.Selection
import Justfile.Proofs.Sexp

/-!
# Kinds as selectors

The name of a kind, taken as a selector, should pick the nodes of the kind. Names of tokens are their
spellings, though, and a selector gives a meaning to some characters before it looks at names. A name
without such characters is plain (`Selector.IsPlain`) and picks what it names (`Cursor.select_of_isPlain`).
All names are plain but two: a comma on its own stands between two empty selectors, and an `@` without an
index behind it is a place that no child has (`Selector.isPlain_name_iff`). So all nodes of a tree can be
picked by the names of their kinds except for these marks, which no selector picks by name
(`Selector.mem_select_name_iff`).
-/

set_option autoImplicit false

namespace Justfile

namespace Selector

/-! ## Plain names -/

/-- A character that cuts a selector into parts. -/
def isSeparator (c : Char) : Bool := c == ',' || c == '>' || Text.isSpace c

/-- A selector without a meaning besides the name it is: nothing cuts it into parts, it neither asks for
a place nor for children, and it does not end with an index. -/
structure IsPlain (name : Text) : Prop where
  nonempty : name ≠ []
  whole : name.any isSeparator = false
  noPlace : name.head? ≠ some '@'
  noChildren : name.head? ≠ some '^'
  noIndex : bracketed? name = none

instance (name : Text) : Decidable (IsPlain name) :=
  decidable_of_iff (name ≠ [] ∧ name.any isSeparator = false ∧ name.head? ≠ some '@' ∧
      name.head? ≠ some '^' ∧ bracketed? name = none)
    ⟨fun ⟨nonempty, whole, noPlace, noChildren, noIndex⟩ =>
        ⟨nonempty, whole, noPlace, noChildren, noIndex⟩,
      fun h => ⟨h.nonempty, h.whole, h.noPlace, h.noChildren, h.noIndex⟩⟩

theorem splitBy_of_any_eq_false {separates : Char → Bool} {text : Text}
    (h : text.any separates = false) : text.splitBy separates = [text] := by
  induction text with
  | nil => rfl
  | cons c text ih =>
    rw [List.any_cons, Bool.or_eq_false_iff] at h
    rw [Text.splitBy, ih h.2]
    simp [h.1]

theorem trim_of_any_eq_false {text : Text} (h : text.any Text.isSpace = false) : text.trim = text := by
  have hdrop : ∀ {text : Text}, text.any Text.isSpace = false → text.dropWhile Text.isSpace = text := by
    intro text h
    cases text with
    | nil => rfl
    | cons c rest =>
      rw [List.any_cons, Bool.or_eq_false_iff] at h
      exact List.dropWhile_cons_of_neg (by simp [h.1])
  unfold Text.trim
  rw [hdrop h, hdrop (by rw [List.any_reverse]; exact h), List.reverse_reverse]

section Plain

variable {name : Text}

theorem IsPlain.any_eq_false (h : IsPlain name) {separates : Char → Bool}
    (hcut : ∀ c, separates c = true → isSeparator c = true) : name.any separates = false := by
  rw [List.any_eq_false]
  intro c hmem hc
  exact List.any_eq_false.1 h.whole c hmem (hcut c hc)

/-- A plain name is one clause, which looks for the name at the node and below. -/
theorem IsPlain.clauses_eq (h : IsPlain name) : clauses name = [.path ⟨name, none⟩ [] []] := by
  have hcomma : name.splitBy (· == ',') = [name] :=
    splitBy_of_any_eq_false (h.any_eq_false fun c hc => by simp [isSeparator, beq_iff_eq.1 hc])
  have hangle : name.splitBy (· == '>') = [name] :=
    splitBy_of_any_eq_false (h.any_eq_false fun c hc => by simp [isSeparator, beq_iff_eq.1 hc])
  have hspace : name.any Text.isSpace = false :=
    h.any_eq_false fun c hc => by simp [isSeparator, hc]
  have htrim : name.trim = name := trim_of_any_eq_false hspace
  have hpick : Pick.ofText name = ⟨name, none⟩ := by rw [Pick.ofText, h.noIndex]
  have hclause : Clause.ofText name = .path ⟨name, none⟩ [] [] := by
    rw [Clause.ofText, htrim]
    split
    · exact absurd rfl h.noPlace
    · exact absurd rfl h.noChildren
    · rw [hangle, List.map_singleton, htrim]
      change Clause.ofPath name [] = _
      rw [Clause.ofPath, if_neg (by simp [hspace]), hpick]
  rw [clauses, hcomma, List.map_singleton, hclause]

end Plain

end Selector

open Selector

/-- A plain name picks all nodes whose kinds have it, in document order. -/
theorem Cursor.select_of_isPlain (base : Cursor) {name : Text} (h : IsPlain name) :
    base.select name = base.descendants.filter (isNamed name) := by
  rw [select, h.clauses_eq]
  exact List.append_nil _

namespace Selector

/-! ## Names of kinds -/

theorem isPlain_name_token {kind : Token.Kind} (hcomma : kind ≠ .mark .comma)
    (hat : kind ≠ .mark .atSign) : IsPlain kind.name.toList := by
  cases kind with
  | stringOpen dialect | stringClose dialect =>
    obtain ⟨letter, quote, indented⟩ := dialect
    cases letter <;> cases quote <;> cases indented <;> decide +kernel
  | commandOpen indented | commandClose indented => cases indented <;> decide +kernel
  | keyword word => cases word <;> decide +kernel
  | mark sign =>
    cases sign with
    | comma => exact absurd rfl hcomma
    | atSign => exact absurd rfl hat
    | _ => decide +kernel
  | errorRecovery fault =>
    change IsPlain "error_recovery".toList
    decide +kernel
  | _ => decide +kernel

theorem isPlain_name_named {kind : Node.Kind} (h : kind.isNamed = true) :
    IsPlain kind.name.toList := by
  have hall : (Node.Kind.named.all fun kind => decide (IsPlain kind.name.toList)) = true := by
    decide +kernel
  exact of_decide_eq_true (List.all_eq_true.1 hall kind (Node.Kind.mem_named h))

/-- A mark that means something to a selector besides its own name: a comma, or an `@`. -/
def IsSelectorMark (kind : Node.Kind) : Prop :=
  kind = .token (.mark .comma) ∨ kind = .token (.mark .atSign)

instance : DecidablePred IsSelectorMark := fun kind =>
  inferInstanceAs (Decidable (kind = .token (.mark .comma) ∨ kind = .token (.mark .atSign)))

theorem isPlain_name_iff (kind : Node.Kind) : IsPlain kind.name.toList ↔ ¬IsSelectorMark kind := by
  constructor
  · rintro hplain (rfl | rfl) <;> revert hplain <;> decide +kernel
  · intro hmark
    by_cases hnamed : kind.isNamed = true
    · exact isPlain_name_named hnamed
    · cases kind with
      | token kind =>
        exact isPlain_name_token (fun h => hmark (.inl (congrArg _ h)))
          fun h => hmark (.inr (congrArg _ h))
      | _ => exact absurd rfl hnamed

/-- Every kind has a name. -/
theorem name_ne_nil (kind : Node.Kind) : kind.name.toList ≠ [] := by
  by_cases hmark : IsSelectorMark kind
  · rcases hmark with rfl | rfl <;> decide +kernel
  · exact ((isPlain_name_iff kind).2 hmark).nonempty

/-- By such a mark nothing is picked: a comma stands between two selectors for nodes without a name, and
an `@` asks for the child at no index. -/
theorem select_name_of_isSelectorMark (base : Cursor) {kind : Node.Kind} (h : IsSelectorMark kind) :
    base.select kind.name.toList = [] := by
  rcases h with rfl | rfl
  · have hclauses : clauses (Node.Kind.token (.mark .comma)).name.toList =
        [.path ⟨[], none⟩ [] [], .path ⟨[], none⟩ [] []] := by decide +kernel
    have hnone : base.descendants.filter (isNamed []) = [] :=
      List.filter_eq_nil_iff.2 fun d _ hd => absurd (beq_iff_eq.1 hd) (name_ne_nil d.kind)
    rw [Cursor.select, hclauses]
    change base.descendants.filter (isNamed []) ++ (base.descendants.filter (isNamed []) ++ []) = []
    rw [hnone]
    rfl
  · have hclauses : clauses (Node.Kind.token (.mark .atSign)).name.toList = [.position none] := by
      decide +kernel
    rw [Cursor.select, hclauses]
    rfl

/-- Taken as a selector, the name of the kind of a node picks exactly the nodes whose kinds have that name,
in document order and the node itself among them, if and only if the node is neither a comma nor an `@`.
By one of these two marks nothing at all is picked. -/
theorem mem_select_name_iff (limit : Nat) (source : Text) {c : Cursor}
    (hc : c ∈ (parse limit source).rootCursor.descendants) :
    ((parse limit source).rootCursor.select c.kind.name.toList =
          (parse limit source).rootCursor.descendants.filter (fun d => d.kind.name == c.kind.name) ∧
        InOrder ((parse limit source).rootCursor.select c.kind.name.toList) ∧
        c ∈ (parse limit source).rootCursor.select c.kind.name.toList ↔
      ¬IsSelectorMark c.kind) ∧
    (IsSelectorMark c.kind → (parse limit source).rootCursor.select c.kind.name.toList = []) := by
  refine ⟨⟨?_, fun hplain => ?_⟩, select_name_of_isSelectorMark _⟩
  · rintro ⟨-, -, hmem⟩ hmark
    rw [select_name_of_isSelectorMark _ hmark] at hmem
    cases hmem
  · have hnamed : isNamed c.kind.name.toList = fun d => d.kind.name == c.kind.name := by
      funext d
      exact Bool.eq_iff_iff.2 (by simp [isNamed, String.toList_inj])
    rw [Cursor.select_of_isPlain _ ((isPlain_name_iff c.kind).2 hplain), hnamed]
    exact ⟨rfl, (Cursor.pairwise_rank_descendants _).filter _, List.mem_filter.2 ⟨hc, beq_self_eq_true _⟩⟩

/-- A group of two attributes, in front of a quiet recipe: the brackets around the attributes are picked by
their names, the comma between them is not. -/
theorem mem_select_name_iff_attributes :
    (∃ bracket ∈ (parse defaultLimit "[a,b]\n@x:\n".toList).rootCursor.descendants,
      bracket.span = ⟨0, 1⟩ ∧
      bracket ∈ (parse defaultLimit "[a,b]\n@x:\n".toList).rootCursor.select "[".toList) ∧
    ∃ comma ∈ (parse defaultLimit "[a,b]\n@x:\n".toList).rootCursor.descendants,
      comma.span = ⟨2, 3⟩ ∧
      (parse defaultLimit "[a,b]\n@x:\n".toList).rootCursor.select ",".toList = [] := by
  constructor
  · have hbracket : ∃ bracket ∈ (parse defaultLimit "[a,b]\n@x:\n".toList).rootCursor.descendants,
        bracket.kind = .token (.mark .bracketL) ∧ bracket.span = ⟨0, 1⟩ := by decide +kernel
    obtain ⟨bracket, hmem, hkind, hspan⟩ := hbracket
    have hplain : ¬IsSelectorMark bracket.kind := by
      rw [hkind]
      decide
    obtain ⟨-, -, hpicked⟩ := (mem_select_name_iff defaultLimit "[a,b]\n@x:\n".toList hmem).1.2 hplain
    rw [hkind] at hpicked
    exact ⟨bracket, hmem, hspan, hpicked⟩
  · have hcomma : ∃ comma ∈ (parse defaultLimit "[a,b]\n@x:\n".toList).rootCursor.descendants,
        comma.kind = .token (.mark .comma) ∧ comma.span = ⟨2, 3⟩ := by decide +kernel
    obtain ⟨comma, hmem, hkind, hspan⟩ := hcomma
    have hmark : IsSelectorMark comma.kind := by
      rw [hkind]
      decide
    have hnone := (mem_select_name_iff defaultLimit "[a,b]\n@x:\n".toList hmem).2 hmark
    rw [hkind] at hnone
    exact ⟨comma, hmem, hspan, hnone⟩

/-- The tree of two attributes and a quiet recipe has a comma and an `@`, and neither is picked by its
name. -/
theorem marks_not_selected :
    ∃ comma ∈ (parse defaultLimit "[a,b]\n@x:\n".toList).rootCursor.descendants,
    ∃ sign ∈ (parse defaultLimit "[a,b]\n@x:\n".toList).rootCursor.descendants,
      comma.kind.name = "," ∧ sign.kind.name = "@" ∧
      (parse defaultLimit "[a,b]\n@x:\n".toList).rootCursor.select comma.kind.name.toList = [] ∧
      (parse defaultLimit "[a,b]\n@x:\n".toList).rootCursor.select sign.kind.name.toList = [] := by
  decide +kernel

end Selector

end Justfile
