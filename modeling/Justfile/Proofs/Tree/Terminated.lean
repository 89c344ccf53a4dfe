import Justfile.Proofs.Cursor
import Justfile.Proofs.Scanner.Delimiter
import Justfile.Proofs.Tree.Unclosed
import Justfile.View.Literal

/-!
# Terminated strings

The view of a string literal calls the literal terminated when no leaf in it holds characters that
form no token (`StringLiteral.contents_and_termination`). For a literal without interpolations this
says whether its closing delimiter is there. In an interpolation there can be such characters in a
closed literal, and then its contents are given with the closing delimiter; and a literal with another
one in an interpolation can run into the end of the input without a fault, and then it is terminated.

Every string of a tree is read by the one rule for literals (`Derives.strings`), so that its text
is the opening delimiter, the contents, and the closing delimiter where the literal is closed.
-/

set_option autoImplicit false

namespace Justfile

/-- What occurs in several trees occurs in one of them. -/
theorem Node.occurs_iff_exists {p : Node → Bool} {nodes : Forest} :
    occurs p nodes = true ↔ ∃ node ∈ nodes, occurs p [node] = true := by
  induction nodes with
  | nil => simp
  | cons first rest ih =>
    rw [← List.singleton_append, occurs_append, Bool.or_eq_true, ih]
    simp

namespace Grammar

/-! ## Every string is a literal -/

/-- The node is a string that is read from the source by the rule for literals. -/
inductive IsString (source : Text) : Node → Prop
  | intro {place : Place} {height : Nat} {s t u : State} {contents ending : Forest} {d : Dialect}
      (field : Option Field) :
      s.scanner.WellFormed → Sits source s.scanner → s.step.1.kind = .stringOpen d →
      Derives place height
        (s.taken.within (.stringContent d) s.stream.nesting s.stream.lineBound s.depth) contents t →
      (∀ node ∈ contents, IsPart node) → Ending (.string d) t ending u →
      IsString source
        ((Literal.string d).node field (.ofToken none s.step.1) contents ending u.stream.offset)

/-- Every node of the trees that is a string is read by the rule for literals. -/
def Strings (source : Text) (nodes : Forest) : Prop :=
  ∀ node ∈ Node.preorderList nodes, node.kind = .string → IsString source node

section Strings

variable {source : Text} {front back nodes : Forest}

theorem strings_nil : Strings source [] := fun _ hmem => by cases hmem

theorem Strings.append (hfront : Strings source front) (hback : Strings source back) :
    Strings source (front ++ back) := by
  intro node hmem
  rw [Node.preorderList_append] at hmem
  rcases List.mem_append.1 hmem with hmem | hmem
  · exact hfront node hmem
  · exact hback node hmem

/-- A node around others is a string itself, or the strings are among the others. -/
theorem Strings.branch (h : Strings source nodes) (field : Option Field) (kind : Node.Kind)
    (offset : Nat)
    (hself : kind = .string → IsString source (.branch field kind nodes offset)) :
    Strings source [.branch field kind nodes offset] := by
  intro node hmem
  rw [Node.preorderList_branch] at hmem
  rcases List.mem_cons.1 hmem with rfl | hmem
  · exact hself
  · exact h node hmem

theorem strings_leaf (field : Option Field) {kind : Node.Kind} (hkind : kind ≠ .string)
    (span : Span) : Strings source [.leaf field kind span] := by
  intro node hmem
  rw [Node.preorderList_leaf, List.mem_singleton] at hmem
  subst hmem
  exact fun h => absurd h hkind

theorem strings_ofToken (field : Option Field) (token : Token) :
    Strings source [.ofToken field token] := by
  refine strings_leaf field ?_ token.span
  cases token.kind <;> exact nofun

theorem Ending.strings {l : Literal} {s t : State} (ending : Ending l s nodes t) :
    Strings source nodes := by
  cases ending with
  | closed => exact strings_ofToken none _
  | reported => exact strings_ofToken none _
  | silent => exact strings_nil

/-- The strings at the node of a literal: itself, and those in its contents. -/
theorem Strings.literal {contents ending : Forest} {opened : Node}
    (hopened : Strings source [opened]) (hcontents : Strings source contents)
    (hending : Strings source ending) (l : Literal) (field : Option Field) (offset : Nat)
    (hself : l.kind = .string →
      IsString source (l.node field opened contents ending offset)) :
    Strings source [l.node field opened contents ending offset] := by
  have hparts : Strings source (opened :: contents ++ ending) :=
    (hopened.append hcontents).append hending
  refine Strings.branch ?_ field l.kind offset hself
  cases l with
  | string dialect =>
    rw [Literal.children.eq_def]
    dsimp only
    split
    · exact hparts.branch none .formatString offset nofun
    · exact hparts
  | command indented =>
    have hbody : Strings source
        (if contents.isEmpty then [] else [.branch none .commandBody contents offset]) := by
      split
      · exact strings_nil
      · exact hcontents.branch none .commandBody offset nofun
    exact (hopened.append hbody).append hending

end Strings

/-- The strings of a derivation are read by the rule for literals. -/
theorem Derives.strings {source : Text} {place : Place} {height : Nat} {s t : State}
    {nodes : Forest} (derives : Derives place height s nodes t) (wf : s.scanner.WellFormed)
    (sits : Sits source s.scanner) : Strings source nodes := by
  induction derives with
  | nil => exact strings_nil
  | append hfirst _ ih1 ih2 =>
    exact (ih1 wf sits).append (ih2 (hfirst.advances.wellFormed wf) (hfirst.spans sits).sits)
  | within => exact strings_nil
  | token field => exact strings_ofToken field _
  | keyword field => exact strings_ofToken field _
  | closingBraces =>
    refine strings_leaf none ?_ _
    exact nofun
  | missing field =>
    refine strings_leaf field ?_ _
    exact nofun
  | group field kind _ _ hkind ih =>
    refine (ih wf sits).branch field kind _ ?_
    rintro rfl
    cases hkind
  | body field _ _ _ ih => exact (ih wf sits).branch field .recipeBody _ nofun
  | number field => exact (strings_ofToken none _).branch field .value _ nofun
  | error field _ _ _ _ ih => exact (ih wf sits).branch field .error _ nofun
  | interpolation _ _ _ ih => exact (ih wf sits).branch none .interpolation _ nofun
  | @literal _ _ _ s t u _ _ l field hopens hbody hparts _ hending _ _ ih =>
    have hsits : Sits source s.step.2 :=
      (spans_taken sits none (.ofToken s.step.1.kind)).sits
    refine Strings.literal (strings_ofToken none _) (ih (wf.next s.stream.mode) hsits)
      hending.strings l field _ ?_
    intro hkind
    cases l with
    | string d => exact .intro field wf sits hopens hbody hparts hending
    | command indented => cases hkind

/-! ## What stands in a string -/

/-- What a node cuts out of the source is what is taken while it is read. -/
theorem Spans.text_append {source : Text} {a b : Scanner} {node : Node}
    (spans : Spans source a [node] b) (sits : Sits source a) :
    node.text source ++ b.rest = a.rest := by
  have hspan : node.span = ⟨a.offset, b.offset⟩ := by
    cases spans.row with
    | cons hstart hrest => rw [← hstart, ← hrest.eq_of_nil]
  obtain ⟨front, hsource, hstart⟩ := sits
  obtain ⟨front', hsource', hstop⟩ := spans.sits
  have htexts := spans.texts
  generalize leafTexts source [node] = taken at htexts
  rw [hsource, ← htexts, ← List.append_assoc] at hsource'
  have hfront : front ++ taken = front' := List.append_cancel_right hsource'
  have hcut : source.slice? a.offset b.offset = some taken := by
    rw [hstart, hstop, ← hfront, Text.byteSize_append, hsource, ← htexts]
    exact Text.slice?_append front taken b.rest
  rw [Node.text, hspan, Span.text]
  change (source.slice? a.offset b.offset).getD [] ++ b.rest = a.rest
  rw [hcut]
  exact htexts

/-- Whether the node holds characters that form no token. -/
def isFault (node : Node) : Bool := node.kind == .errorRecovery

theorem occurs_isFault_branch (field : Option Field) {kind : Node.Kind}
    (hkind : kind ≠ .errorRecovery) (children : Forest) (offset : Nat) :
    Node.occurs isFault [.branch field kind children offset] = Node.occurs isFault children := by
  have hself : isFault (.branch field kind children offset) = false := beq_eq_false_iff_ne.2 hkind
  rw [Node.occurs_cons, hself, Node.occurs_nil, Bool.false_or, Bool.or_false]
  rfl

theorem occurs_isFault_ofToken {token : Token} (h : token.kind.isErrorRecovery = false) :
    Node.occurs isFault [.ofToken none token] = false := by
  have hself : isFault (.ofToken none token) = false := by
    refine beq_eq_false_iff_ne.2 ?_
    change Node.Kind.ofToken token.kind ≠ .errorRecovery
    revert h
    cases token.kind <;> exact nofun
  rw [Node.occurs_cons, hself]
  rfl

/-- A leaf at the front or at the end of a string: a delimiter, or the mark that one is missing. -/
structure IsDelimiter (node : Node) : Prop where
  ne_interpolation : node.kind ≠ .interpolation
  ne_formatString : node.kind ≠ .formatString

theorem IsPart.ne_formatString {node : Node} (part : IsPart node) : node.kind ≠ .formatString := by
  rcases part with ⟨-, hkind | hkind | hkind⟩ | ⟨hkind, -⟩
  all_goals
    rw [hkind]
    exact nofun

theorem isDelimiter_ofToken (token : Token) : IsDelimiter (.ofToken none token) := by
  constructor
  · change Node.Kind.ofToken token.kind ≠ .interpolation
    cases token.kind <;> exact nofun
  · change Node.Kind.ofToken token.kind ≠ .formatString
    cases token.kind <;> exact nofun

/-- How the node of a string is made up. -/
structure Quotation (source : Text) (node : Node) (d : Dialect) (contents : Forest) : Prop where
  parts : ∀ part ∈ contents, IsPart part
  dialect : Dialect.detect? (node.text source) = some d
  text : ∃ inner, node.text source =
    d.opening ++ (inner ++ if node.isUnclosed then [] else d.closing)
  faults : node.isUnclosed = false →
    Node.occurs isFault [node] = Node.occurs isFault contents
  literals : Node.occurs Node.isLiteral node.children = Node.occurs Node.isLiteral contents
  children : ∃ opened ending offset, IsDelimiter opened ∧ (∀ last ∈ ending, IsDelimiter last) ∧
    node.children = (Literal.string d).children opened contents ending offset

/-- A literal is closed exactly where its ending is its closing token. -/
theorem Ending.isUnclosed_node {l : Literal} {s t : State} {ending : Forest}
    (hending : Ending l s ending t) (field : Option Field) {token : Token}
    (hopens : token.kind = l.opening) {contents : Forest} (hparts : ∀ node ∈ contents, IsPart node)
    (offset : Nat) :
    (l.node field (.ofToken none token) contents ending offset).isUnclosed =
      !decide (s.step.1.kind = l.closing) := by
  cases hending with
  | closed hkind =>
    have hlast := lastLeaf?_node l field (.ofToken none token) contents s.step.1 offset
    have hclosed : l.kind.isClosedBy (.ofToken s.step.1.kind) = true := hkind ▸ l.kind_isClosedBy
    rw [isUnclosed_of_lastLeaf? rfl hlast, decide_eq_true hkind]
    exact congrArg not hclosed
  | reported hkind =>
    have hlast := lastLeaf?_node l field (.ofToken none token) contents s.step.1 offset
    have hopen : l.kind.isClosedBy (.ofToken s.step.1.kind) = false := by
      rw [hkind]
      cases l <;> rfl
    have hne : s.step.1.kind ≠ l.closing := by
      rw [hkind]
      cases l <;> exact nofun
    rw [isUnclosed_of_lastLeaf? rfl hlast, decide_eq_false hne]
    exact congrArg not hopen
  | silent hkind =>
    obtain ⟨leaf, hlast, hinner⟩ := isInner_lastLeaf l field hopens hparts offset
    have hne : s.step.1.kind ≠ l.closing := by
      rw [hkind]
      cases l <;> exact nofun
    rw [isUnclosed_of_lastLeaf? rfl hlast, hinner.1, decide_eq_false hne]

/-- What ends a literal that is closed is no fault. -/
theorem Ending.occurs_isFault {l : Literal} {s t : State} {ending : Forest}
    (hending : Ending l s ending t) (hclosed : s.step.1.kind = l.closing) :
    Node.occurs isFault ending = false := by
  cases hending with
  | closed hkind => exact occurs_isFault_ofToken (by rw [hkind]; cases l <;> rfl)
  | reported hkind =>
    rw [hclosed] at hkind
    cases l <;> cases hkind
  | silent => rfl

/-- The faults of a string are those of its contents and of its ending. -/
theorem occurs_isFault_node {d : Dialect} {token : Token} (hopens : token.kind = .stringOpen d)
    (field : Option Field) (contents ending : Forest) (offset : Nat) :
    Node.occurs isFault
        [(Literal.string d).node field (.ofToken none token) contents ending offset] =
      (Node.occurs isFault contents || Node.occurs isFault ending) := by
  have hstring : Node.Kind.string ≠ .errorRecovery := nofun
  have hformat : Node.Kind.formatString ≠ .errorRecovery := nofun
  have hopened : Node.occurs isFault [.ofToken none token] = false :=
    occurs_isFault_ofToken (by rw [hopens]; rfl)
  have hall : Node.occurs isFault ([.ofToken none token] ++ contents ++ ending) =
      (Node.occurs isFault contents || Node.occurs isFault ending) := by
    rw [Node.occurs_append, Node.occurs_append, hopened, Bool.false_or]
  refine (occurs_isFault_branch field hstring _ _).trans ?_
  rw [Literal.children.eq_def]
  dsimp only
  split
  · exact (occurs_isFault_branch none hformat _ _).trans hall
  · exact hall

/-- The ending of a string that is closed is the closing delimiter. -/
theorem Ending.leafTexts_eq {source : Text} {d : Dialect} {s t : State} {ending : Forest}
    (hending : Ending (.string d) s ending t) (wf : s.scanner.WellFormed)
    (spans : Spans source s.scanner ending t.scanner)
    (hkind : s.step.1.kind = (Literal.string d).closing) : leafTexts source ending = d.closing := by
  cases hending with
  | closed =>
    have htakes := (Scanner.takes_next s.scanner s.stream.mode).text_append_rest
    have htoken : leafTexts source [.ofToken none s.step.1] = s.step.1.text :=
      List.append_cancel_right (spans.texts.trans htakes.symm)
    rw [htoken]
    exact wf.text_of_stringClose hkind
  | reported hreported => cases hkind.symm.trans hreported
  | silent hsilent => cases hkind.symm.trans hsilent

theorem IsString.quotation {source : Text} {node : Node} (h : IsString source node) :
    ∃ d contents, Quotation source node d contents := by
  obtain @⟨_, _, s, t, u, contents, ending, d, field, wf, sits, hopens, hbody, hparts, hending⟩ := h
  have hopened := spans_taken sits none (.ofToken s.step.1.kind)
  have hcontents := hbody.spans hopened.sits
  have hend := hending.spans hcontents.sits
  obtain ⟨node, hnode⟩ : ∃ node, node = (Literal.string d).node field (.ofToken none s.step.1)
    contents ending u.stream.offset := ⟨_, rfl⟩
  have hspans : Spans source s.scanner [node] u.scanner :=
    hnode ▸ spans_literal sits hopened hcontents hend (.string d) field
  obtain ⟨hopening, hdialect⟩ := wf.opensString_next s.stream.mode d hopens
  have hunclosed := hending.isUnclosed_node field hopens hparts u.stream.offset
  -- The text is taken in three parts.
  have hfront := hspans.text_append sits
  have htext : node.text source =
      d.opening ++ (leafTexts source contents ++ leafTexts source ending) := by
    have htakes := (Scanner.takes_next s.scanner s.stream.mode).text_append_rest
    have hrest : leafTexts source contents ++ (leafTexts source ending ++ u.scanner.rest) =
        (s.scanner.next s.stream.mode).2.rest := by
      rw [hend.texts]
      exact hcontents.texts
    rw [← htakes, hopening, ← hrest, ← List.append_assoc, ← List.append_assoc] at hfront
    rw [← List.append_assoc]
    exact List.append_cancel_right hfront
  rw [← hnode]
  refine ⟨d, contents, hparts, ?_, ?_, ?_, ?_, ?_⟩
  · rw [← hfront, htext, List.append_assoc] at hdialect
    rw [htext]
    exact Dialect.detect?_of_append hdialect
  · rw [htext, hnode, hunclosed]
    by_cases hkind : t.step.1.kind = (Literal.string d).closing
    · refine ⟨leafTexts source contents, ?_⟩
      have hwf := hbody.advances.wellFormed (wf.next s.stream.mode)
      rw [hending.leafTexts_eq hwf hend hkind, decide_eq_true hkind]
      rfl
    · refine ⟨leafTexts source contents ++ leafTexts source ending, ?_⟩
      rw [decide_eq_false hkind]
      exact congrArg (d.opening ++ ·) (List.append_nil _).symm
  · intro hclosed
    rw [hnode, hunclosed, Bool.not_eq_false', decide_eq_true_eq] at hclosed
    rw [hnode, occurs_isFault_node hopens, hending.occurs_isFault hclosed, Bool.or_false]
  · rw [hnode]
    exact hending.occurs_node (fun _ h => h) field s.step.1 contents u.stream.offset
  · refine ⟨_, ending, u.stream.offset, isDelimiter_ofToken s.step.1, ?_, congrArg _ hnode⟩
    intro last hlast
    cases hending with
    | silent => cases hlast
    | closed | reported =>
      rw [List.mem_singleton] at hlast
      exact hlast ▸ isDelimiter_ofToken t.step.1

/-- What is not true of the leaves in a string is true below its interpolations only. -/
theorem Quotation.occurs_contents {source : Text} {node : Node} {d : Dialect} {contents : Forest}
    (quotation : Quotation source node d contents) {p : Node → Bool}
    (h : ∀ leaf : Node, leaf.kind = .token .stringContent ∨ leaf.kind = .escapeSequence ∨
      leaf.kind = .token .commandContent → p leaf = false) :
    Node.occurs p contents = true ↔
      ∃ part ∈ contents, part.kind = .interpolation ∧ Node.occurs p [part] = true := by
  rw [Node.occurs_iff_exists]
  constructor
  · rintro ⟨part, hmem, hpart⟩
    rcases quotation.parts part hmem with ⟨hleaf, hkind⟩ | ⟨hkind, -⟩
    · rw [Node.occurs_cons, h part hkind, hleaf] at hpart
      cases hpart
    · exact ⟨part, hmem, hkind, hpart⟩
  · rintro ⟨part, hmem, -, hpart⟩
    exact ⟨part, hmem, hpart⟩

end Grammar

/-! ## Views of strings -/

namespace StringLiteral

open Grammar (Quotation isFault)

variable {s : StringLiteral} {d : Dialect} {contents : Forest}

theorem isTerminated_eq (s : StringLiteral) :
    s.isTerminated = !Node.occurs isFault [s.cursor.node] := by
  rw [Node.occurs, Node.preorderList_cons, Node.preorderList_nil, List.append_nil,
    ← Cursor.any_descendants]
  rfl

/-- The interpolations of a literal are those among its contents. -/
theorem exists_mem_interpolations
    (quotation : Quotation s.cursor.tree.source s.cursor.node d contents) {P : Node → Prop} :
    (∃ i ∈ s.interpolations, P i.cursor.node) ↔
      ∃ part ∈ contents, part.kind = .interpolation ∧ P part := by
  obtain ⟨opened, ending, offset, hopened, hending, hchildren⟩ := quotation.children
  -- The delimiters are no interpolations.
  have hparts : (∃ node ∈ opened :: contents ++ ending, node.kind = .interpolation ∧ P node) ↔
      ∃ part ∈ contents, part.kind = .interpolation ∧ P part := by
    constructor
    · rintro ⟨node, hmem, hkind, hnode⟩
      rcases List.mem_append.1 hmem with hmem | hmem
      · rcases List.mem_cons.1 hmem with rfl | hmem
        · exact absurd hkind hopened.ne_interpolation
        · exact ⟨node, hmem, hkind, hnode⟩
      · exact absurd hkind (hending node hmem).ne_interpolation
    · rintro ⟨part, hmem, hkind, hpart⟩
      exact ⟨part, List.mem_append_left _ (List.mem_cons_of_mem _ hmem), hkind, hpart⟩
  rw [← hparts, interpolations]
  rw [Grammar.Literal.children.eq_def] at hchildren
  dsimp only at hchildren
  split at hchildren
  · -- The parts of a format string stand below a node of their own.
    have hholder : s.cursor.childOfKind? .formatString = some ⟨s.cursor.tree, s.cursor.rank + 1,
        .branch none .formatString (opened :: contents ++ ending) offset⟩ := by
      rw [Cursor.childOfKind?, Cursor.children, hchildren]
      rfl
    rw [hholder]
    exact Cursor.exists_mem_views
  · have hholder : s.cursor.childOfKind? .formatString = none := by
      rw [Cursor.childOfKind?, List.find?_eq_none]
      intro child hchild
      have hnode : child.node ∈ opened :: contents ++ ending := by
        rw [← hchildren, ← Cursor.map_node_children]
        exact List.mem_map_of_mem hchild
      have hkind : child.node.kind ≠ .formatString := by
        rcases List.mem_append.1 hnode with hnode | hnode
        · rcases List.mem_cons.1 hnode with hnode | hnode
          · exact hnode ▸ hopened.ne_formatString
          · exact (quotation.parts _ hnode).ne_formatString
        · exact (hending _ hnode).ne_formatString
      simpa [Cursor.kind] using hkind
    rw [hholder, Option.getD_none, ← hchildren]
    exact Cursor.exists_mem_views

/-- The dialect is that of the opening delimiter. -/
theorem dialect?_eq (quotation : Quotation s.cursor.tree.source s.cursor.node d contents) :
    s.dialect? = some d := quotation.dialect

/-- Behind the opening delimiter of a closed literal stand its contents. They include the closing
delimiter unless the literal is terminated. -/
theorem text_eq_of_closed (quotation : Quotation s.cursor.tree.source s.cursor.node d contents)
    (hclosed : s.cursor.node.isUnclosed = false) :
    s.text = d.opening ++ s.contents ++ if s.isTerminated then d.closing else [] := by
  obtain ⟨inner, htext⟩ := quotation.text
  rw [hclosed] at htext
  have hdrop : s.text.drop d.opening.length = inner ++ d.closing := by
    change (s.cursor.node.text s.cursor.tree.source).drop _ = _
    rw [htext, List.drop_left]
    rfl
  have hcontents : s.contents = if s.isTerminated then inner else inner ++ d.closing := by
    rw [StringLiteral.contents, dialect?_eq quotation]
    dsimp only
    rw [hdrop]
    split
    · have hsuffix : d.closing.isSuffixOf (inner ++ d.closing) = true :=
        List.isSuffixOf_iff_suffix.2 (List.suffix_append ..)
      rw [Text.dropTail?, if_pos hsuffix, List.length_append, Nat.add_sub_cancel, List.take_left]
      rfl
    · rfl
  have hself : s.text = d.opening ++ (inner ++ d.closing) := htext
  rw [hself, hcontents]
  split
  · rw [List.append_assoc]
  · rw [List.append_nil]

/-- What is not true of the leaves in a string occurs in the contents where it does in one of the
interpolations. -/
theorem occurs_contents_iff
    (quotation : Quotation s.cursor.tree.source s.cursor.node d contents) {p : Node → Bool}
    (h : ∀ leaf : Node, leaf.kind = .token .stringContent ∨ leaf.kind = .escapeSequence ∨
      leaf.kind = .token .commandContent → p leaf = false) :
    Node.occurs p contents = true ↔
      ∃ i ∈ s.interpolations, ∃ c ∈ i.cursor.descendants, p c.node = true := by
  have hbelow : ∀ c : Cursor, (∃ below ∈ c.descendants, p below.node = true) ↔
      Node.occurs p [c.node] = true := by
    intro c
    rw [Cursor.exists_mem_descendants (P := (p · = true)), Node.occurs, Node.preorderList_cons,
      Node.preorderList_nil, List.append_nil, List.any_eq_true]
  simp only [hbelow]
  rw [quotation.occurs_contents h,
    exists_mem_interpolations quotation (P := (Node.occurs p [·] = true))]

/-- A closed literal is terminated unless an interpolation of it holds characters that form no
token. -/
theorem isTerminated_iff_of_closed
    (quotation : Quotation s.cursor.tree.source s.cursor.node d contents)
    (hclosed : s.cursor.node.isUnclosed = false) :
    s.isTerminated = true ↔ ¬∃ i ∈ s.interpolations, ∃ c ∈ i.cursor.descendants,
      c.kind = .errorRecovery := by
  have hleaf : ∀ leaf : Node, leaf.kind = .token .stringContent ∨ leaf.kind = .escapeSequence ∨
      leaf.kind = .token .commandContent → isFault leaf = false := by
    rintro leaf (hkind | hkind | hkind) <;> rw [isFault, hkind] <;> rfl
  have hfaults := occurs_contents_iff quotation hleaf
  rw [isTerminated_eq, quotation.faults hclosed, Bool.not_eq_true', ← Bool.not_eq_true, hfaults]
  simp only [isFault, beq_iff_eq, Cursor.kind]

/-- A literal that is terminated and not closed has another literal in an interpolation. -/
theorem nested_of_isTerminated {limit : Nat} {source : Text}
    (quotation : Quotation s.cursor.tree.source s.cursor.node d contents)
    (hmem : s.cursor.node ∈ (parse limit source).root.preorder)
    (hunclosed : s.cursor.node.isUnclosed = true) (hterminated : s.isTerminated = true) :
    ∃ i ∈ s.interpolations, ∃ c ∈ i.cursor.descendants, c.node.isLiteral = true := by
  have hleaf : ∀ leaf : Node, leaf.kind = .token .stringContent ∨ leaf.kind = .escapeSequence ∨
      leaf.kind = .token .commandContent → leaf.isLiteral = false := by
    rintro leaf (hkind | hkind | hkind) <;> rw [Node.isLiteral, hkind] <;> rfl
  rw [← occurs_contents_iff quotation hleaf, ← quotation.literals]
  cases hinside : Node.occurs Node.isUnclosed s.cursor.node.children with
  | true => exact Node.occurs_of_imp Node.isLiteral_of_isUnclosed hinside
  | false =>
    -- Nothing in the literal marks the fault, so it is silent.
    have hlast : s.cursor.node.lastLeaf?.any (·.kind == .errorRecovery) = false := by
      rw [isTerminated_eq, Bool.not_eq_true'] at hterminated
      rw [← Bool.not_eq_true, Option.any_eq_true]
      rintro ⟨leaf, hleaf, hkind⟩
      have hbelow : leaf ∈ Node.preorderList [s.cursor.node] := by
        rw [Node.preorderList_cons, Node.preorderList_nil, List.append_nil]
        exact (List.mem_filter.1 (List.mem_of_getLast? hleaf)).1
      exact List.any_eq_false.1 hterminated leaf hbelow hkind
    apply nested_of_isSilent limit source hmem
    rw [Node.isSilent, hunclosed, hinside, hlast]
    rfl

/-- Every string literal has a dialect. If the last leaf of the literal closes it, it is terminated
unless an interpolation of it holds characters that form no token, and its text is the opening
delimiter, the contents, and the closing delimiter, which the contents of a literal that is not
terminated include. If it is not closed, it is not terminated unless an interpolation of it has a
literal. -/
theorem contents_and_termination (limit : Nat) (source : Text) (s : StringLiteral)
    (hmem : s.cursor ∈ (parse limit source).rootCursor.descendants) :
    ∃ d, s.dialect? = some d ∧
      (s.cursor.node.isUnclosed = false →
        (s.isTerminated = true ↔ ¬∃ i ∈ s.interpolations, ∃ c ∈ i.cursor.descendants,
          c.kind = .errorRecovery) ∧
        s.text = d.opening ++ s.contents ++ if s.isTerminated then d.closing else []) ∧
      (s.cursor.node.isUnclosed = true → s.isTerminated = true →
        ∃ i ∈ s.interpolations, ∃ c ∈ i.cursor.descendants, c.node.isLiteral = true) := by
  obtain ⟨htree, hnode⟩ := Cursor.of_mem_descendants hmem
  have hkind : s.cursor.node.kind = .string := List.mem_singleton.1 s.kind_mem
  have hstring : Grammar.IsString source s.cursor.node := by
    have hstrings := (Grammar.derives_file limit source).1.strings
      (Scanner.wellFormed_ofText source) ⟨[], rfl, rfl⟩
    change s.cursor.node ∈ (parse limit source).root.preorder at hnode
    rw [root_parse] at hnode
    rcases List.mem_cons.1 hnode with hroot | hnode
    · rw [hroot] at hkind
      cases hkind
    · exact hstrings _ hnode hkind
  obtain ⟨d, contents, quotation⟩ := hstring.quotation
  have hsource : s.cursor.tree.source = source := by
    rw [htree]
    rfl
  rw [← hsource] at quotation
  refine ⟨d, dialect?_eq quotation, ?_, ?_⟩
  · intro hclosed
    exact ⟨isTerminated_iff_of_closed quotation hclosed, text_eq_of_closed quotation hclosed⟩
  · exact nested_of_isTerminated quotation hnode

/-- A closed format string with a character in an interpolation that forms no token: it is not
terminated, and its contents include the closing delimiter. -/
theorem closed_without_termination :
    ∃ c ∈ (parse defaultLimit "x := f\"\x7b\x7b~\x7d\x7d\"\n".toList).rootCursor.descendants,
      ∃ h : c.kind ∈ [Node.Kind.string], c.node.isUnclosed = false ∧
        isTerminated ⟨c, h⟩ = false ∧
        StringLiteral.contents ⟨c, h⟩ = "\x7b\x7b~\x7d\x7d\"".toList := by
  decide +kernel

/-- The literal is closed, so that its text is given by its contents. -/
theorem contents_and_termination_of_fault :
    ∃ s : StringLiteral, s.cursor ∈
        (parse defaultLimit "x := f\"\x7b\x7b~\x7d\x7d\"\n".toList).rootCursor.descendants ∧
      ∃ d, s.dialect? = some d ∧
        s.text = d.opening ++ s.contents ++ if s.isTerminated then d.closing else [] := by
  have hexists : ∃ c ∈ (parse defaultLimit
        "x := f\"\x7b\x7b~\x7d\x7d\"\n".toList).rootCursor.descendants,
      c.kind = .string ∧ c.node.isUnclosed = false := by
    decide +kernel
  obtain ⟨c, hmem, hkind, hclosed⟩ := hexists
  obtain ⟨d, hdialect, hends, -⟩ :=
    contents_and_termination defaultLimit _ ⟨c, List.mem_singleton.2 hkind⟩ hmem
  exact ⟨⟨c, List.mem_singleton.2 hkind⟩, hmem, d, hdialect, (hends hclosed).2⟩

end StringLiteral

end Justfile
