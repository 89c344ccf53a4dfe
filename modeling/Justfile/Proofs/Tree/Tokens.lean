import Justfile.Proofs.Scanner.Scan
import Justfile.Proofs.Tree.Shape

/-!
# Tokens and leaves

The tokens that reading a source consumes are the leaves of its tree, one by one and in order
(`tokenize_eq_leaves`). What else is a leaf marks a place where something is missing or wrong, or is
the root of the empty source.

Both lists are followed along a derivation: every token that is consumed makes a leaf of its kind and
span (`Derives.emits`), and lies right behind the one before it (`Derives.reaches`).
-/

set_option autoImplicit false

namespace Justfile

namespace Node

/-! ## Leaves that are tokens -/

/-- The kinds of leaves that hold a token. -/
def Kind.isToken : Kind → Bool
  | .identifier | .comment | .text | .recipeLinePrefix | .escapeSequence | .language
  | .numericError | .errorRecovery | .token _ => true
  | _ => false

theorem isToken_ofToken (kind : Token.Kind) : (Kind.ofToken kind).isToken = true := by
  cases kind <;> rfl

/-- A leaf as the token that it holds. -/
def mark (node : Node) : Kind × Span := (node.kind, node.span)

/-- The leaves of several trees that hold a token. -/
def tokenMarks (nodes : Forest) : List (Kind × Span) :=
  ((preorderList nodes).filter fun node => node.isLeaf && node.kind.isToken).map mark

@[simp] theorem tokenMarks_nil : tokenMarks [] = [] := rfl

@[simp] theorem tokenMarks_append (front back : Forest) :
    tokenMarks (front ++ back) = tokenMarks front ++ tokenMarks back := by
  simp [tokenMarks, preorderList_append]

theorem tokenMarks_ofToken (field : Option Field) (token : Token) :
    tokenMarks [ofToken field token] = [(.ofToken token.kind, token.span)] := by
  have htoken : (ofToken field token).kind.isToken = true := isToken_ofToken token.kind
  unfold tokenMarks
  rw [ofToken, preorderList_leaf, List.filter_cons_of_pos]
  · rfl
  · exact htoken

/-- A node of a kind that no token has holds the tokens of its children. -/
theorem tokenMarks_branch {kind : Kind} (hkind : kind.isToken = false) (field : Option Field)
    (children : Forest) (offset : Nat) :
    tokenMarks [branch field kind children offset] = tokenMarks children := by
  unfold tokenMarks
  rw [preorderList_branch, List.filter_cons_of_neg]
  simp [branch, hkind]

end Node

namespace Grammar

open Justfile.Node (tokenMarks)

/-! ## Along a derivation -/

/-- The leaf that a token makes. -/
def tokenMark (token : Token) : Node.Kind × Span := (.ofToken token.kind, token.span)

/-- The tokens consumed between two states are the leaves of the nodes made between them. -/
def Emits (s : State) (nodes : Forest) (t : State) : Prop :=
  ∃ tokens : List Token, t.consumed = tokens.reverse ++ s.consumed ∧
    tokens.map tokenMark = tokenMarks nodes

section Emits

variable {s t u : State} {nodes front back : Forest}

theorem Emits.nil (h : t.consumed = s.consumed) : Emits s [] t := ⟨[], h, rfl⟩

theorem Emits.append (first : Emits s front t) (second : Emits t back u) :
    Emits s (front ++ back) u := by
  obtain ⟨tokens, hfirst, hfront⟩ := first
  obtain ⟨more, hsecond, hback⟩ := second
  refine ⟨tokens ++ more, ?_, ?_⟩
  · rw [hsecond, hfirst, List.reverse_append, List.append_assoc]
  · rw [List.map_append, hfront, hback, Node.tokenMarks_append]

theorem emits_take (s : State) (field : Option Field) (token : Token) (scanner : Scanner) :
    Emits s [.ofToken field token] (s.take token scanner) :=
  ⟨[token], rfl, (Node.tokenMarks_ofToken field token).symm⟩

theorem Emits.branch (h : Emits s nodes t) {kind : Node.Kind} (hkind : kind.isToken = false)
    (field : Option Field) (offset : Nat) : Emits s [.branch field kind nodes offset] t := by
  obtain ⟨tokens, hconsumed, hmarks⟩ := h
  exact ⟨tokens, hconsumed, by rw [Node.tokenMarks_branch hkind, hmarks]⟩

theorem Ending.emits {l : Literal} (ending : Ending l s nodes t) : Emits s nodes t := by
  cases ending with
  | closed => exact emits_take s none _ _
  | reported => exact emits_take s none _ _
  | silent => exact .nil rfl

theorem emits_literal {opened : Node} {contents ending : Forest} (hopened : Emits s [opened] t)
    {v : State} (hcontents : Emits t contents u) (hending : Emits u ending v) (l : Literal)
    (field : Option Field) (offset : Nat) :
    Emits s [l.node field opened contents ending offset] v := by
  have hparts : Emits s (opened :: contents ++ ending) v := (hopened.append hcontents).append hending
  apply Emits.branch _ (by cases l <;> rfl)
  cases l with
  | string dialect =>
    simp only [Literal.children]
    split
    · exact hparts.branch rfl none offset
    · exact hparts
  | command indented =>
    cases contents with
    | nil => exact hparts
    | cons node rest => exact (hopened.append (hcontents.branch rfl none offset)).append hending

/-- Every token that is consumed makes a leaf, and there are no others that hold a token. -/
theorem Derives.emits {place : Place} {height : Nat} (derives : Derives place height s nodes t) :
    Emits s nodes t := by
  induction derives with
  | nil => exact .nil rfl
  | append _ _ ih1 ih2 => exact ih1.append ih2
  | within => exact .nil rfl
  | @token _ _ s field => exact emits_take s field _ _
  | @keyword _ _ s field => exact emits_take s field _ _
  | @closingBraces _ _ s first second _ after =>
    exact emits_take s none ⟨.interpolationClose, ⟨first.span.start, second.span.stop⟩,
      first.text ++ second.text, none⟩ after
  | missing field => exact ⟨[], rfl, rfl⟩
  | group field kind _ _ hkind ih =>
    exact ih.branch (by cases kind <;> first | rfl | cases hkind) field _
  | body field _ _ _ ih => exact ih.branch rfl field _
  | @number _ _ s field offset =>
    exact (emits_take s none s.step.1 s.step.2).branch rfl field offset
  | error field _ _ _ _ ih => exact ih.branch rfl field _
  | interpolation _ _ _ ih => exact ih.branch rfl none _
  | @literal _ _ _ s _ _ _ _ l field _ _ _ _ hending _ _ ih =>
    exact emits_literal (emits_take s none s.step.1 s.step.2) ih hending.emits l field _

end Emits

/-- The tokens that were consumed so far are the front of the source. -/
def Reaches (source : Text) (s : State) : Prop :=
  Scanner.Covers source s.consumed.reverse s.scanner

theorem Reaches.take {source : Text} {s : State} (h : Reaches source s) {token : Token}
    {scanner : Scanner} (htakes : s.scanner.Takes (token, scanner)) :
    Reaches source (s.take token scanner) := by
  unfold Reaches State.take
  rw [List.reverse_cons]
  exact Scanner.Covers.take h htakes

/-- The kind of a token has no part in what it takes. -/
theorem takes_withKind {s : Scanner} {token : Token} {after : Scanner}
    (htakes : s.Takes (token, after)) (kind : Token.Kind) :
    s.Takes ({ token with kind := kind }, after) :=
  ⟨htakes.text_append_rest, htakes.span_eq, htakes.offset_eq⟩

/-- Two tokens, one behind the other, take as much as one token over both. -/
theorem takes_glued {s middle after : Scanner} {first second : Token}
    (hfirst : s.Takes (first, middle)) (hsecond : middle.Takes (second, after))
    (kind : Token.Kind) :
    s.Takes (⟨kind, ⟨first.span.start, second.span.stop⟩, first.text ++ second.text, none⟩,
      after) := by
  constructor
  · rw [List.append_assoc, hsecond.text_append_rest]
    exact hfirst.text_append_rest
  · rw [show first.span = _ from hfirst.span_eq, show second.span = _ from hsecond.span_eq]
  · rw [Text.byteSize_append, ← Nat.add_assoc, ← show middle.offset = _ from hfirst.offset_eq]
    exact hsecond.offset_eq

theorem Ending.reaches {source : Text} {l : Literal} {s t : State} {nodes : Forest}
    (ending : Ending l s nodes t) (h : Reaches source s) : Reaches source t := by
  cases ending with
  | closed => exact h.take (Scanner.takes_next _ _)
  | reported => exact h.take (Scanner.takes_next _ _)
  | silent => exact h

/-- The tokens of a derivation lie one behind the other. -/
theorem Derives.reaches {source : Text} {place : Place} {height : Nat} {s t : State}
    {nodes : Forest} (derives : Derives place height s nodes t) (h : Reaches source s) :
    Reaches source t := by
  induction derives with
  | nil => exact h
  | append _ _ ih1 ih2 => exact ih2 (ih1 h)
  | within => exact h
  | token => exact h.take (Scanner.takes_next _ _)
  | keyword => exact h.take (takes_withKind (Scanner.takes_next _ _) _)
  | @closingBraces _ _ s first second middle after hfirst hsecond =>
    have htakes := Scanner.takes_next s.scanner s.stream.mode
    have hmore := Scanner.takes_next middle s.stream.mode
    rw [show s.scanner.next s.stream.mode = (first, middle) from hfirst] at htakes
    rw [hsecond] at hmore
    exact h.take (takes_glued htakes hmore _)
  | missing => exact h
  | group _ _ _ _ _ ih => exact ih h
  | body _ _ _ _ ih => exact ih h
  | number => exact h.take (Scanner.takes_next _ _)
  | error _ _ _ _ _ ih => exact ih h
  | interpolation _ _ _ ih => exact ih h
  | literal l field _ _ _ _ hending _ _ ih =>
    exact hending.reaches (ih (h.take (Scanner.takes_next _ _)))

theorem reaches_ofText (source : Text) : Reaches source (.ofText source) :=
  Scanner.covers_ofText source

end Grammar

/-! ## Whole trees -/

namespace Node

/-- What is a leaf of a tree but holds no token: a mark of something missing, an error node without
children, and the root, if it has no children either. -/
def isMark (leaf : Node) : Bool :=
  leaf.kind == .missing || leaf.kind == .error || leaf.kind == .sourceFile

/-- Among nodes that conform, the leaves that hold a token are those that mark nothing. -/
theorem Conforms.isToken_eq {node : Node} (h : node.Conforms) (hleaf : node.isLeaf = true) :
    node.kind.isToken = !node.isMark := by
  unfold isMark
  rcases h.leaf (List.isEmpty_iff.1 hleaf) with ⟨kind, hkind⟩ | ⟨hkind | hkind, -⟩
  · rw [hkind]
    cases kind <;> rfl
  · rw [hkind]
    rfl
  · rw [hkind]
    rfl

theorem tokenMarks_eq {nodes : Forest} (h : ∀ node ∈ preorderList nodes, node.Conforms)
    (offset : Nat) :
    tokenMarks nodes =
      (((branch none .sourceFile nodes offset).leaves).filter (!·.isMark)).map mark := by
  have hroot : (branch none .sourceFile nodes offset).leaves.filter (!·.isMark) =
      (preorderList nodes).filter fun node => !node.isMark && node.isLeaf := by
    unfold leaves
    rw [preorder_eq_cons, List.filter_filter, List.filter_cons_of_neg]
    · rfl
    · exact Bool.false_ne_true
  unfold tokenMarks
  rw [hroot]
  congr 1
  apply List.filter_congr
  intro node hmem
  cases hleaf : node.isLeaf with
  | true => rw [(h node hmem).isToken_eq hleaf, Bool.true_and, Bool.and_true]
  | false => rw [Bool.false_and, Bool.and_false]

end Node

/-- The tokens of a source are the leaves of its tree, in order, but for the marks of what is missing
or wrong. The root is a leaf of the empty source only. The tokens lie one behind the other, and spell
the source. -/
theorem tokenize_eq_leaves (source : Text) :
    (tokenize source).map (fun token => (Node.Kind.ofToken token.kind, token.span)) =
      ((parse defaultLimit source).root.leaves.filter (!·.isMark)).map
        (fun leaf => (leaf.kind, leaf.span)) ∧
    ((parse defaultLimit source).root.isLeaf = true ↔ source = []) ∧
    Scanner.Tiling source (tokenize source) ∧
    (tokenize source).flatMap Token.text = source := by
  obtain ⟨hderives, hrest⟩ := Grammar.derives_file defaultLimit source
  obtain ⟨hconforms, -⟩ := Grammar.run_conforms defaultLimit source
  obtain ⟨tokens, hconsumed, hmarks⟩ := hderives.emits
  have hreaches := hderives.reaches (Grammar.reaches_ofText source)
  have htokens : tokenize source = tokens := by
    unfold tokenize
    rw [hconsumed, List.reverse_append, List.reverse_reverse]
    rfl
  have hspell : (tokenize source).flatMap Token.text = source := by
    have hsource := hreaches.source_eq
    rwa [hrest, List.append_nil] at hsource
  refine ⟨?_, ?_, hreaches.tiling, hspell⟩
  · rw [htokens, root_parse]
    exact hmarks.trans (Node.tokenMarks_eq hconforms _)
  · constructor
    · intro hleaf
      -- No node means no token, and so no text.
      rw [root_parse, Node.isLeaf_branch, List.isEmpty_iff] at hleaf
      rw [hleaf, Node.tokenMarks_nil, List.map_eq_nil_iff] at hmarks
      rw [← hspell, htokens, hmarks]
      rfl
    · rintro rfl
      decide +kernel

/-- The tree of the empty source has a leaf, but there is no token. -/
theorem leaves_of_empty :
    (tokenize []).map (fun token => (Node.Kind.ofToken token.kind, token.span)) ≠
      ((parse defaultLimit []).root.leaves.filter fun leaf =>
        leaf.kind != .missing && leaf.kind != .error).map (fun leaf => (leaf.kind, leaf.span)) := by
  decide +kernel

end Justfile
