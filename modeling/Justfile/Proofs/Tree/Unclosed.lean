import Justfile.Proofs.Tree.Coverage
import Justfile.Proofs.Tree.Flaw

/-!
# Unclosed literals

A literal is unclosed when its last leaf does not close it. The scanner keeps one flag for all
literals, and a literal that is nested in another one leaves the flag set. So when the input ends
right after the nested literal, or after the interpolation around it, the outer literal is taken
for one that is already reported, and nothing is reported at all: the outer literal is silent.

This is the only way to miss an unclosed literal (`unterminated_iff`): an unclosed literal is
reported exactly when the tree has one and none is silent, and a silent literal always has another
literal below it.

The proof follows the flag along a derivation (`Derives.tracked`). What makes it go through is that
nothing can follow an unclosed literal, so that all unclosed literals of a tree lie on one path.
-/

set_option autoImplicit false

namespace Justfile

namespace Node

/-! ## Literals without an end -/

/-- Whether nodes of the kind stand for a literal. -/
def Kind.isLiteral : Kind → Bool
  | string | externalCommand => true
  | _ => false

/-- Whether a literal of the first kind is closed by a leaf of the second. -/
def Kind.isClosedBy : Kind → Kind → Bool
  | string, token (.stringClose _) => true
  | externalCommand, token (.commandClose _) => true
  | _, _ => false

/-- The last leaf at or below the node. -/
def lastLeaf? (node : Node) : Option Node := node.leaves.getLast?

/-- Whether the node is a literal. -/
def isLiteral (node : Node) : Bool := node.kind.isLiteral

/-- Whether the node is a literal that its last leaf does not close. -/
def isUnclosed (node : Node) : Bool :=
  node.isLiteral && !node.lastLeaf?.any (node.kind.isClosedBy ·.kind)

/-- Whether a node of several trees is such as asked for. -/
def occurs (p : Node → Bool) (nodes : Forest) : Bool := (preorderList nodes).any p

/-- Whether the node is an unclosed literal that nothing accounts for: there is no other unclosed
literal in it, and its last leaf marks no fault. -/
def isSilent (node : Node) : Bool :=
  node.isUnclosed && !occurs isUnclosed node.children &&
    !node.lastLeaf?.any (·.kind == .errorRecovery)

/-- Whether the node is silent with no other literal in it. There are no such nodes. -/
def isSilentAlone (node : Node) : Bool := node.isSilent && !occurs isLiteral node.children

theorem isLiteral_of_isUnclosed (node : Node) (h : node.isUnclosed = true) :
    node.isLiteral = true := by
  unfold isUnclosed at h
  rw [Bool.and_eq_true] at h
  exact h.1

theorem isUnclosed_of_isSilent (node : Node) (h : node.isSilent = true) :
    node.isUnclosed = true := by
  unfold isSilent at h
  rw [Bool.and_eq_true, Bool.and_eq_true] at h
  exact h.1.1

theorem isLiteral_of_isSilent (node : Node) (h : node.isSilent = true) : node.isLiteral = true :=
  node.isLiteral_of_isUnclosed (node.isUnclosed_of_isSilent h)

theorem isLiteral_of_isSilentAlone (node : Node) (h : node.isSilentAlone = true) :
    node.isLiteral = true := by
  unfold isSilentAlone at h
  rw [Bool.and_eq_true] at h
  exact node.isLiteral_of_isSilent h.1

@[simp] theorem occurs_nil (p : Node → Bool) : occurs p [] = false := rfl

@[simp] theorem occurs_append (p : Node → Bool) (front back : Forest) :
    occurs p (front ++ back) = (occurs p front || occurs p back) := by
  unfold occurs
  rw [preorderList_append, List.any_append]

theorem occurs_cons (p : Node → Bool) (node : Node) (rest : Forest) :
    occurs p (node :: rest) = (p node || occurs p node.children || occurs p rest) := by
  unfold occurs
  rw [preorderList_cons, List.any_append]
  cases node
  rfl

/-- What implies another property occurs only where that one does. -/
theorem occurs_of_imp {p q : Node → Bool} (h : ∀ node, p node = true → q node = true)
    {nodes : Forest} (hp : occurs p nodes = true) : occurs q nodes = true := by
  obtain ⟨node, hmem, hnode⟩ := List.any_eq_true.1 hp
  exact List.any_eq_true.2 ⟨node, hmem, h node hnode⟩

theorem not_occurs_of_imp {p q : Node → Bool} (h : ∀ node, p node = true → q node = true)
    {nodes : Forest} (hq : occurs q nodes = false) : occurs p nodes = false := by
  cases hp : occurs p nodes with
  | false => rfl
  | true => rw [occurs_of_imp h hp] at hq; cases hq

/-- What is true of literals only occurs around other nodes as it does in them. -/
theorem occurs_plain {p : Node → Bool} (h : ∀ node, p node = true → node.isLiteral = true)
    {node : Node} (hnode : node.isLiteral = false) : occurs p [node] = occurs p node.children := by
  have hp : p node = false := by
    cases hp : p node with
    | false => rfl
    | true => rw [h node hp] at hnode; cases hnode
  rw [occurs_cons, hp, occurs_nil, Bool.false_or, Bool.or_false]

theorem occurs_iff_mem {p : Node → Bool} (h : ∀ node, p node = true → node.isLiteral = true)
    (field : Option Field) (kind : Kind) (hkind : kind.isLiteral = false) (children : Forest)
    (offset : Nat) :
    (∃ node ∈ (branch field kind children offset).preorder, p node = true) ↔
      occurs p children = true := by
  have hplain : occurs p [branch field kind children offset] = occurs p children :=
    occurs_plain h hkind
  rw [← hplain, occurs, preorderList_cons, preorderList_nil, List.append_nil, List.any_eq_true]

/-! ## Leaves -/

/-- The leaves of several trees, in document order. -/
def leavesList (nodes : Forest) : List Node := (preorderList nodes).filter isLeaf

@[simp] theorem leavesList_append (front back : Forest) :
    leavesList (front ++ back) = leavesList front ++ leavesList back := by
  unfold leavesList
  rw [preorderList_append, List.filter_append]

theorem leaves_of_isLeaf {node : Node} (h : node.children = []) : node.leaves = [node] := by
  obtain ⟨field, kind, span, children⟩ := node
  change children = [] at h
  subst h
  rfl

theorem leaves_of_ne_nil {node : Node} (h : node.children ≠ []) :
    node.leaves = leavesList node.children := by
  obtain ⟨field, kind, span, children⟩ := node
  cases children with
  | nil => exact absurd rfl h
  | cons first rest => rfl

theorem leavesList_singleton (node : Node) : leavesList [node] = node.leaves := by
  unfold leavesList leaves
  rw [preorderList_cons, preorderList_nil, List.append_nil]

end Node

/-- Whether the cause is that the input ends inside a literal. -/
def Cause.isUnterminated : Cause → Bool
  | .lexical .unterminatedString | .lexical .unterminatedCommand => true
  | _ => false

/-- The two codes of unterminated literals are those of no other cause. -/
theorem Cause.isUnterminated_iff (cause : Cause) :
    cause.isUnterminated = true ↔
      cause.code = "unterminated_string" ∨ cause.code = "unterminated_command" := by
  cases cause with
  | lexical fault => cases fault <;> simp [isUnterminated, code, Fault.code]
  | _ => simp [isUnterminated, code]

namespace Grammar

/-! ## The end of a literal -/

/-- A leaf that neither closes a literal nor marks a fault. -/
def IsInner (leaf : Node) : Prop :=
  (∀ kind : Node.Kind, kind.isClosedBy leaf.kind = false) ∧ leaf.kind ≠ .errorRecovery

/-- The parts of a literal do not end like a literal. -/
theorem IsPart.last_leaf {node : Node} (part : IsPart node) :
    ∃ before leaf, node.leaves = before ++ [leaf] ∧ IsInner leaf := by
  rcases part with ⟨hleaf, hkind⟩ | ⟨-, before, last, hchildren, hlast, hkind⟩
  · refine ⟨[], node, Node.leaves_of_isLeaf hleaf, ?_⟩
    rcases hkind with hkind | hkind | hkind <;>
      exact ⟨fun kind => by rw [hkind]; cases kind <;> rfl, by rw [hkind]; exact nofun⟩
  · -- An interpolation ends with its closing braces, or with the mark that they are missing.
    have hne : node.children ≠ [] := by
      rw [hchildren]
      exact List.append_ne_nil_of_right_ne_nil _ nofun
    refine ⟨Node.leavesList before, last, ?_, ?_⟩
    · rw [Node.leaves_of_ne_nil hne, hchildren, Node.leavesList_append, Node.leavesList_singleton,
        Node.leaves_of_isLeaf hlast]
    · rcases hkind with hkind | hkind <;>
        exact ⟨fun kind => by rw [hkind]; cases kind <;> rfl, by rw [hkind]; exact nofun⟩

namespace Literal

variable (l : Literal) (field : Option Field) (opened : Node) (contents ending : Forest)
  (offset : Nat)

theorem kind_isLiteral : l.kind.isLiteral = true := by
  cases l <;> rfl

theorem kind_isClosedBy : l.kind.isClosedBy (.ofToken l.closing) = true := by
  cases l <;> rfl

theorem children_ne_nil : l.children opened contents ending offset ≠ [] := by
  cases l with
  | string dialect =>
    simp only [children]
    split <;> exact List.cons_ne_nil _ _
  | command indented => exact List.cons_ne_nil _ _

/-- The nodes around the contents of a literal are no leaves. -/
theorem leaves_node : (l.node field opened contents ending offset).leaves =
    Node.leavesList (opened :: contents ++ ending) := by
  have hnode : (l.node field opened contents ending offset).leaves =
      Node.leavesList (l.children opened contents ending offset) :=
    Node.leaves_of_ne_nil (l.children_ne_nil opened contents ending offset)
  rw [hnode]
  cases l with
  | string dialect =>
    simp only [children]
    split
    · rw [Node.leavesList_singleton]
      exact Node.leaves_of_ne_nil (List.cons_ne_nil _ _)
    · rfl
  | command indented =>
    cases contents with
    | nil => rfl
    | cons node rest =>
      have hbody : Node.leavesList [.branch none .commandBody (node :: rest) offset] =
          Node.leavesList (node :: rest) := by
        rw [Node.leavesList_singleton]
        exact Node.leaves_of_ne_nil (List.cons_ne_nil _ _)
      change Node.leavesList ([opened] ++ [.branch none .commandBody (node :: rest) offset] ++ ending) =
        Node.leavesList ([opened] ++ (node :: rest) ++ ending)
      simp only [Node.leavesList_append, hbody]

/-- Nor are they literals. -/
theorem occurs_children {p : Node → Bool} (h : ∀ node, p node = true → node.isLiteral = true) :
    Node.occurs p (l.node field opened contents ending offset).children =
      Node.occurs p (opened :: contents ++ ending) := by
  change Node.occurs p (l.children opened contents ending offset) = _
  cases l with
  | string dialect =>
    simp only [children]
    split
    · exact Node.occurs_plain h rfl
    · rfl
  | command indented =>
    cases contents with
    | nil => rfl
    | cons node rest =>
      have hbody : Node.occurs p [.branch none .commandBody (node :: rest) offset] =
          Node.occurs p (node :: rest) := Node.occurs_plain h rfl
      change Node.occurs p ([opened] ++ [.branch none .commandBody (node :: rest) offset] ++ ending) =
        Node.occurs p ([opened] ++ (node :: rest) ++ ending)
      simp only [Node.occurs_append, hbody]

end Literal

/-- A token is no literal. -/
theorem not_occurs_ofToken {p : Node → Bool} (h : ∀ node, p node = true → node.isLiteral = true)
    (field : Option Field) (token : Token) : Node.occurs p [.ofToken field token] = false := by
  have hplain : (Node.ofToken field token).isLiteral = false := by
    unfold Node.isLiteral Node.ofToken Node.leaf
    cases token.kind <;> rfl
  exact Node.occurs_plain h hplain

/-- In a literal, what is true of literals only occurs at its node or in its contents. -/
theorem Ending.occurs_node {p : Node → Bool} (h : ∀ node, p node = true → node.isLiteral = true)
    {l : Literal} {s t : State} {ending : Forest} (hending : Ending l s ending t)
    (field : Option Field) (token : Token) (contents : Forest) (offset : Nat) :
    Node.occurs p (l.node field (.ofToken none token) contents ending offset).children =
      Node.occurs p contents := by
  have hnone : Node.occurs p ending = false := by
    cases hending with
    | closed => exact not_occurs_ofToken h none _
    | reported => exact not_occurs_ofToken h none _
    | silent => rfl
  rw [l.occurs_children field _ contents ending offset h]
  change Node.occurs p ([.ofToken none token] ++ contents ++ ending) = _
  rw [Node.occurs_append, Node.occurs_append, not_occurs_ofToken h, hnone, Bool.false_or,
    Bool.or_false]

/-- Whether a literal is closed shows at its last leaf. -/
theorem isUnclosed_of_lastLeaf? {l : Literal} {node leaf : Node} (hkind : node.kind = l.kind)
    (hlast : node.lastLeaf? = some leaf) :
    node.isUnclosed = !l.kind.isClosedBy leaf.kind := by
  unfold Node.isUnclosed Node.isLiteral
  rw [hkind, hlast, l.kind_isLiteral, Bool.true_and]
  rfl

theorem isSilent_of_lastLeaf? {node leaf : Node} (hlast : node.lastLeaf? = some leaf) :
    node.isSilent = (node.isUnclosed && !Node.occurs Node.isUnclosed node.children &&
      !(leaf.kind == .errorRecovery)) := by
  unfold Node.isSilent
  rw [hlast]
  rfl

/-- A literal that ends with a token. -/
theorem lastLeaf?_node (l : Literal) (field : Option Field) (opened : Node) (contents : Forest)
    (token : Token) (offset : Nat) :
    (l.node field opened contents [.ofToken none token] offset).lastLeaf? =
      some (.ofToken none token) := by
  unfold Node.lastLeaf?
  rw [l.leaves_node, Node.leavesList_append, Node.leavesList_singleton, Node.leaves_of_isLeaf rfl]
  exact List.getLast?_concat

/-- A literal that just stops ends with its opening token or with a part of its contents. -/
theorem isInner_lastLeaf (l : Literal) (field : Option Field) {token : Token}
    (hopens : token.kind = l.opening) {contents : Forest} (hparts : ∀ node ∈ contents, IsPart node)
    (offset : Nat) :
    ∃ leaf, (l.node field (.ofToken none token) contents [] offset).lastLeaf? = some leaf ∧
      IsInner leaf := by
  unfold Node.lastLeaf?
  rw [l.leaves_node, List.append_nil]
  rcases List.eq_nil_or_concat contents with rfl | ⟨before, last, rfl⟩
  · refine ⟨.ofToken none token, rfl, ?_⟩
    have hkind : (Node.ofToken none token).kind = .token l.opening := by
      unfold Node.ofToken
      rw [hopens]
      cases l <;> rfl
    refine ⟨fun kind => ?_, by rw [hkind]; exact nofun⟩
    rw [hkind]
    cases l <;> cases kind <;> rfl
  · rw [List.concat_eq_append] at hparts ⊢
    obtain ⟨front, leaf, hleaves, hinner⟩ := (hparts last (by simp)).last_leaf
    refine ⟨leaf, ?_, hinner⟩
    change (Node.leavesList (.ofToken none token :: before ++ [last])).getLast? = some leaf
    rw [Node.leavesList_append, Node.leavesList_singleton, hleaves, ← List.append_assoc]
    exact List.getLast?_concat

/-! ## Along a derivation -/

/-- Whether an unterminated literal is reported. -/
def unterminated (reports : List Report) : Bool := reports.any (·.cause.isUnterminated)

/-- The flag, the end of the input and the reports between two states: a literal leaves the flag
set, nothing follows an unclosed one, and it is reported unless one is silent. -/
structure Tracked (s : State) (nodes : Forest) (t : State) : Prop where
  flag : t.scanner.literalClosed = (s.scanner.literalClosed || Node.occurs Node.isLiteral nodes)
  atEnd : s.scanner.rest = [] →
    t.scanner.rest = [] ∧ Node.occurs Node.isLiteral nodes = false
  unclosed : Node.occurs Node.isUnclosed nodes = true → t.scanner.rest = []
  reports : unterminated t.reports = (unterminated s.reports ||
    (Node.occurs Node.isUnclosed nodes && !Node.occurs Node.isSilent nodes))
  nested : Node.occurs Node.isSilentAlone nodes = false

section Tracked

variable {s t u : State} {nodes front back : Forest}

/-- Nodes without a literal. -/
theorem Tracked.plain (hnone : Node.occurs Node.isLiteral nodes = false)
    (hflag : t.scanner.literalClosed = s.scanner.literalClosed)
    (hrest : s.scanner.rest = [] → t.scanner.rest = [])
    (hreports : unterminated t.reports = unterminated s.reports) : Tracked s nodes t := by
  have hunclosed := Node.not_occurs_of_imp Node.isLiteral_of_isUnclosed hnone
  refine ⟨?_, fun h => ⟨hrest h, hnone⟩, ?_, ?_, ?_⟩
  · rw [hflag, hnone, Bool.or_false]
  · intro h
    rw [hunclosed] at h
    cases h
  · rw [hreports, hunclosed, Bool.false_and, Bool.or_false]
  · exact Node.not_occurs_of_imp Node.isLiteral_of_isSilentAlone hnone

theorem Tracked.append (first : Tracked s front t) (second : Tracked t back u) :
    Tracked s (front ++ back) u := by
  refine ⟨?_, ?_, ?_, ?_, ?_⟩
  · rw [second.flag, first.flag, Node.occurs_append, Bool.or_assoc]
  · intro hrest
    obtain ⟨hmiddle, hfront⟩ := first.atEnd hrest
    obtain ⟨hend, hback⟩ := second.atEnd hmiddle
    exact ⟨hend, by rw [Node.occurs_append, hfront, hback]; rfl⟩
  · intro h
    rw [Node.occurs_append, Bool.or_eq_true] at h
    rcases h with h | h
    · exact (second.atEnd (first.unclosed h)).1
    · exact second.unclosed h
  · rw [second.reports, first.reports, Node.occurs_append, Node.occurs_append]
    cases hfront : Node.occurs Node.isUnclosed front with
    | true =>
      -- Nothing is left for the second part.
      have hnone := (second.atEnd (first.unclosed hfront)).2
      rw [Node.not_occurs_of_imp Node.isLiteral_of_isUnclosed hnone,
        Node.not_occurs_of_imp Node.isLiteral_of_isSilent hnone]
      simp only [Bool.or_false, Bool.false_and]
    | false =>
      rw [Node.not_occurs_of_imp Node.isUnclosed_of_isSilent hfront]
      simp only [Bool.false_and, Bool.or_false, Bool.false_or]
  · rw [Node.occurs_append, first.nested, second.nested]
    rfl

/-- A node around others that is no literal. -/
theorem Tracked.around (h : Tracked s nodes t) {node : Node} (hchildren : node.children = nodes)
    (hnode : node.isLiteral = false) : Tracked s [node] t := by
  subst hchildren
  have hliteral := Node.occurs_plain (p := Node.isLiteral) (fun _ h => h) hnode
  have hunclosed := Node.occurs_plain Node.isLiteral_of_isUnclosed hnode
  have hsilent := Node.occurs_plain Node.isLiteral_of_isSilent hnode
  refine ⟨?_, ?_, ?_, ?_, ?_⟩
  · rw [hliteral, h.flag]
  · rw [hliteral]
    exact h.atEnd
  · rw [hunclosed]
    exact h.unclosed
  · rw [hunclosed, hsilent, h.reports]
  · rw [Node.occurs_plain Node.isLiteral_of_isSilentAlone hnode]
    exact h.nested

/-- A report about anything but an unterminated literal. -/
theorem Tracked.report (h : Tracked s nodes t) {cause : Cause}
    (hcause : cause.isUnterminated = false) (span : Span) :
    Tracked s nodes (t.withReport cause span) := by
  refine ⟨h.flag, h.atEnd, h.unclosed, ?_, h.nested⟩
  rw [← h.reports]
  change (cause.isUnterminated || unterminated t.reports) = _
  rw [hcause, Bool.false_or]

end Tracked

/-- Whether the token reports an unterminated literal. -/
def isUnterminated : Token.Kind → Bool
  | .errorRecovery fault => (Cause.lexical fault).isUnterminated
  | _ => false

theorem not_isUnterminated_of_flag? {kind : Token.Kind} (h : kind.flag? = none) :
    isUnterminated kind = false := by
  cases kind with
  | errorRecovery fault => cases fault <;> first | rfl | cases h
  | _ => rfl

theorem unterminated_take (s : State) (token : Token) (scanner : Scanner) :
    unterminated (s.take token scanner).reports =
      (isUnterminated token.kind || unterminated s.reports) := by
  unfold State.take
  cases token.kind <;> rfl

/-- A token that leaves the flag alone. -/
theorem tracked_take (s : State) (field : Option Field) {token : Token} {after : Scanner}
    (hafter : after.literalClosed = s.scanner.literalClosed)
    (hrest : after.rest.length ≤ s.scanner.rest.length) (hflag : token.kind.flag? = none) :
    Tracked s [.ofToken field token] (s.take token after) := by
  refine .plain (not_occurs_ofToken (fun _ h => h) field token) hafter ?_ ?_
  · intro hnil
    rw [hnil] at hrest
    exact List.length_eq_zero_iff.1 (Nat.le_zero.1 hrest)
  · rw [unterminated_take, not_isUnterminated_of_flag? hflag, Bool.false_or]

theorem literalClosed_step {s : State} (wf : s.scanner.WellFormed) :
    s.step.2.literalClosed = s.step.1.kind.flag?.getD s.scanner.literalClosed :=
  Scanner.literalClosed_next wf s.stream.mode

/-- The end of a literal, given its contents: the flag is set, nothing is left when the literal or
one in it is unclosed, and this is reported unless one of them is silent. -/
structure Settles (t : State) (node : Node) (contents : Forest) (u : State) : Prop where
  flag : u.scanner.literalClosed = true
  unclosed : (node.isUnclosed || Node.occurs Node.isUnclosed contents) = true → u.scanner.rest = []
  reports : ∀ before, unterminated t.reports = (before ||
      (Node.occurs Node.isUnclosed contents && !Node.occurs Node.isSilent contents)) →
    unterminated u.reports = (before ||
      ((node.isUnclosed || Node.occurs Node.isUnclosed contents) &&
        !(node.isSilent || Node.occurs Node.isSilent contents)))
  nested : node.isSilent = true → Node.occurs Node.isLiteral contents = true

section Settles

variable {t u : State} {l : Literal} {node leaf : Node} {contents : Forest}

/-- The closing token has characters, so that nothing in the literal can be unclosed. -/
theorem settles_closed (wf : t.scanner.WellFormed) (hkind : t.step.1.kind = l.closing)
    (hrest : Node.occurs Node.isUnclosed contents = true → t.scanner.rest = [])
    (hnode : node.kind = l.kind) (hlast : node.lastLeaf? = some (.ofToken none t.step.1)) :
    Settles t node contents t.taken := by
  have hlt : t.step.2.rest.length < t.scanner.rest.length :=
    (Scanner.step_next t.scanner t.stream.mode).rest_lt wf
      (show Scanner.canBeEmpty t.step.1.kind = false by rw [hkind]; cases l <;> rfl)
  have hcontents : Node.occurs Node.isUnclosed contents = false := by
    cases hcontents : Node.occurs Node.isUnclosed contents with
    | false => rfl
    | true =>
      rw [hrest hcontents] at hlt
      exact absurd hlt (Nat.not_lt_zero _)
  have hunclosed : node.isUnclosed = false := by
    rw [isUnclosed_of_lastLeaf? hnode hlast, Node.ofToken, hkind]
    exact congrArg not l.kind_isClosedBy
  have hflag : t.step.1.kind.flag? = some true := by
    rw [hkind]
    cases l <;> rfl
  refine ⟨?_, ?_, ?_, ?_⟩
  · exact (literalClosed_step wf).trans (by rw [hflag]; rfl)
  · rw [hunclosed, hcontents]
    intro hsilent
    cases hsilent
  · intro before hbefore
    have hquiet : isUnterminated t.step.1.kind = false := by
      rw [hkind]
      cases l <;> rfl
    rw [hcontents, Bool.false_and, Bool.or_false] at hbefore
    rw [State.taken, unterminated_take, hquiet, hbefore, hunclosed, hcontents]
    simp only [Bool.false_or, Bool.false_and, Bool.or_false]
  · intro hsilent
    rw [node.isUnclosed_of_isSilent hsilent] at hunclosed
    cases hunclosed

/-- A literal is reported only when no literal in it has set the flag. -/
theorem settles_reported (wf : t.scanner.WellFormed) (hkind : t.step.1.kind = .errorRecovery l.fault)
    (hflag : t.scanner.literalClosed = Node.occurs Node.isLiteral contents)
    (hrest : Node.occurs Node.isUnclosed contents = true → t.scanner.rest = [])
    (hnode : node.kind = l.kind) (hlast : node.lastLeaf? = some (.ofToken none t.step.1)) :
    Settles t node contents t.taken := by
  have hset : (Token.Kind.errorRecovery l.fault).flag? = some true := by
    cases l <;> rfl
  obtain ⟨hend, hclear⟩ :=
    (Scanner.step_next t.scanner t.stream.mode).unterminated_inv wf hkind hset
  have hcontents : Node.occurs Node.isUnclosed contents = false := by
    cases hcontents : Node.occurs Node.isUnclosed contents with
    | false => rfl
    | true =>
      have hliteral := Node.occurs_of_imp Node.isLiteral_of_isUnclosed hcontents
      rw [hclear (hrest hcontents), hliteral] at hflag
      cases hflag
  have hsilent : node.isSilent = false := by
    rw [isSilent_of_lastLeaf? hlast, Node.ofToken, hkind]
    exact Bool.and_false _
  have hunclosed : node.isUnclosed = true := by
    rw [isUnclosed_of_lastLeaf? hnode hlast, Node.ofToken, hkind]
    cases l <;> rfl
  refine ⟨?_, fun _ => hend, ?_, ?_⟩
  · exact (literalClosed_step wf).trans (by rw [hkind, hset]; rfl)
  · intro before _
    have hreport : isUnterminated t.step.1.kind = true := by
      rw [hkind]
      cases l <;> rfl
    rw [State.taken, unterminated_take, hreport, hunclosed, hsilent,
      Node.not_occurs_of_imp Node.isUnclosed_of_isSilent hcontents]
    simp only [Bool.true_or, Bool.false_or, Bool.not_false, Bool.and_true, Bool.or_true]
  · intro h
    rw [hsilent] at h
    cases h

/-- A literal just stops when a literal in it has set the flag. -/
theorem settles_silent (wf : t.scanner.WellFormed) (hkind : t.step.1.kind = .endOfInput)
    (hmode : t.stream.mode = l.mode)
    (hflag : t.scanner.literalClosed = Node.occurs Node.isLiteral contents)
    (hnode : node.kind = l.kind) (hlast : node.lastLeaf? = some leaf) (hinner : IsInner leaf)
    (hbelow : Node.occurs Node.isUnclosed node.children = Node.occurs Node.isUnclosed contents) :
    Settles t node contents t := by
  obtain ⟨hend, -, hset⟩ := (Scanner.step_next t.scanner t.stream.mode).endOfInput_inv wf hkind
  have hclosed : t.scanner.literalClosed = true := hset (by rw [hmode]; cases l <;> rfl)
  have hunclosed : node.isUnclosed = true := by
    rw [isUnclosed_of_lastLeaf? hnode hlast, hinner.1]
    rfl
  have hsilent : node.isSilent = !Node.occurs Node.isUnclosed contents := by
    have hleaf : (leaf.kind == .errorRecovery) = false := beq_eq_false_iff_ne.2 hinner.2
    rw [isSilent_of_lastLeaf? hlast, hunclosed, hbelow, hleaf]
    simp only [Bool.true_and, Bool.not_false, Bool.and_true]
  refine ⟨hclosed, fun _ => hend, ?_, fun _ => hflag ▸ hclosed⟩
  intro before hbefore
  rw [hbefore, hunclosed, hsilent]
  -- When there is no unclosed literal inside, this one is silent.
  cases Node.occurs Node.isUnclosed contents <;>
    simp only [Bool.true_or, Bool.true_and, Bool.false_and, Bool.not_true, Bool.not_false,
      Bool.false_or]

theorem Ending.settles {ending : Forest} (hending : Ending l t ending u)
    (wf : t.scanner.WellFormed) (hmode : t.stream.mode = l.mode)
    (hflag : t.scanner.literalClosed = Node.occurs Node.isLiteral contents)
    (hrest : Node.occurs Node.isUnclosed contents = true → t.scanner.rest = [])
    (hparts : ∀ node ∈ contents, IsPart node) (field : Option Field) {token : Token}
    (hopens : token.kind = l.opening) (offset : Nat) :
    Settles t (l.node field (.ofToken none token) contents ending offset) contents u := by
  have hbelow := hending.occurs_node Node.isLiteral_of_isUnclosed field token contents offset
  cases hending with
  | closed hkind => exact settles_closed wf hkind hrest rfl (lastLeaf?_node ..)
  | reported hkind => exact settles_reported wf hkind hflag hrest rfl (lastLeaf?_node ..)
  | silent hkind =>
    obtain ⟨leaf, hlast, hinner⟩ := isInner_lastLeaf l field hopens hparts offset
    exact settles_silent wf hkind hmode hflag rfl hlast hinner hbelow

end Settles

/-- A literal clears the flag where it opens; its end sets the flag again. -/
theorem Tracked.literal {s t u : State} {contents ending : Forest} {l : Literal}
    (wf : s.scanner.WellFormed) (hopens : s.step.1.kind = l.opening) (mode : Mode) (nesting : Nat)
    (lineBound : Bool) (depth : Nat)
    (hinner : Tracked (s.taken.within mode nesting lineBound depth) contents t)
    (hwf : t.scanner.WellFormed) (hparts : ∀ node ∈ contents, IsPart node)
    (hmode : t.stream.mode = l.mode) (hending : Ending l t ending u) (field : Option Field)
    (offset : Nat) :
    Tracked s [l.node field (.ofToken none s.step.1) contents ending offset] u := by
  have hlt : s.step.2.rest.length < s.scanner.rest.length :=
    (Scanner.step_next s.scanner s.stream.mode).rest_lt wf
      (show Scanner.canBeEmpty s.step.1.kind = false by rw [hopens]; cases l <;> rfl)
  have hclear : s.step.2.literalClosed = false :=
    (literalClosed_step wf).trans (by rw [hopens]; cases l <;> rfl)
  have hquiet : unterminated (s.taken.within mode nesting lineBound depth).reports =
      unterminated s.reports := by
    refine (unterminated_take s s.step.1 s.step.2).trans ?_
    rw [hopens]
    cases l <;> rfl
  have hflag : t.scanner.literalClosed = Node.occurs Node.isLiteral contents := by
    refine hinner.flag.trans ?_
    change (s.step.2.literalClosed || _) = _
    rw [hclear, Bool.false_or]
  -- The flag behind the contents tells whether another literal stands in them, and the end reads it.
  have hsettles := hending.settles hwf hmode hflag hinner.unclosed hparts field hopens offset
  have hliteral :
      (l.node field (.ofToken none s.step.1) contents ending offset).isLiteral = true :=
    l.kind_isLiteral
  have hoccurs : ∀ p : Node → Bool, (∀ node, p node = true → node.isLiteral = true) →
      Node.occurs p [l.node field (.ofToken none s.step.1) contents ending offset] =
        (p (l.node field (.ofToken none s.step.1) contents ending offset) ||
          Node.occurs p contents) := by
    intro p hp
    rw [Node.occurs_cons, hending.occurs_node hp, Node.occurs_nil, Bool.or_false]
  refine ⟨?_, ?_, ?_, ?_, ?_⟩
  · rw [hsettles.flag, hoccurs Node.isLiteral (fun _ h => h), hliteral, Bool.true_or, Bool.or_true]
  · intro hnil
    rw [hnil] at hlt
    exact absurd hlt (Nat.not_lt_zero _)
  · rw [hoccurs Node.isUnclosed Node.isLiteral_of_isUnclosed]
    exact hsettles.unclosed
  · rw [hoccurs Node.isUnclosed Node.isLiteral_of_isUnclosed,
      hoccurs Node.isSilent Node.isLiteral_of_isSilent]
    exact hsettles.reports _ (hquiet ▸ hinner.reports)
  · rw [hoccurs Node.isSilentAlone Node.isLiteral_of_isSilentAlone, hinner.nested, Bool.or_false]
    refine Bool.and_eq_false_imp.2 fun hsilent => ?_
    rw [hending.occurs_node (fun _ h => h), hsettles.nested hsilent]
    rfl

/-- Along a derivation an unclosed literal is reported unless one is silent. -/
theorem Derives.tracked {place : Place} {height : Nat} {s t : State} {nodes : Forest}
    (derives : Derives place height s nodes t) (wf : s.scanner.WellFormed) : Tracked s nodes t := by
  induction derives with
  | nil => exact .plain rfl rfl (fun h => h) rfl
  | append hfirst _ ih1 ih2 => exact (ih1 wf).append (ih2 (hfirst.advances.wellFormed wf))
  | within => exact .plain rfl rfl (fun h => h) rfl
  | @token _ _ s field _ hflag =>
    refine tracked_take s field ?_ (Scanner.rest_next_le ..) hflag
    rw [literalClosed_step wf, hflag]
    rfl
  | @keyword _ _ s field word hkind =>
    refine tracked_take s field ?_ (Scanner.rest_next_le ..) rfl
    rw [literalClosed_step wf, hkind]
    rfl
  -- Two tokens of the scanner, neither of which touches the flag, are one of the stream.
  | @closingBraces _ _ s first second middle after hfirst hsecond hkind1 hkind2 =>
    have hmiddle : middle = s.step.2 := (congrArg Prod.snd hfirst).symm
    have hwf : middle.WellFormed := hmiddle ▸ wf.next s.stream.mode
    have hflag1 := literalClosed_step wf
    have hflag2 := Scanner.literalClosed_next hwf s.stream.mode
    have hle1 : s.step.2.rest.length ≤ s.scanner.rest.length := Scanner.rest_next_le ..
    have hle2 := Scanner.rest_next_le middle s.stream.mode
    rw [hfirst, hkind1] at hflag1
    rw [hsecond, hkind2] at hflag2
    rw [hfirst] at hle1
    rw [hsecond] at hle2
    let braces : Token := ⟨.interpolationClose, ⟨first.span.start, second.span.stop⟩,
      first.text ++ second.text, none⟩
    have hnone : braces.kind.flag? = none := rfl
    exact tracked_take s none (hflag2.trans hflag1) (Nat.le_trans hle2 hle1) hnone
  | missing => exact Tracked.report (.plain rfl rfl (fun h => h) rfl) rfl _
  | group field kind _ _ hkind ih =>
    refine (ih wf).around rfl ?_
    change kind.isLiteral = false
    cases kind <;> first | rfl | cases hkind
  | body field _ _ _ ih => exact (ih wf).around rfl rfl
  | @number _ _ s field offset hkind =>
    refine (Tracked.around ?_ rfl rfl).report rfl _
    refine tracked_take s none ?_ (Scanner.rest_next_le ..) (by rw [hkind]; rfl)
    rw [literalClosed_step wf, hkind]
    rfl
  | error field cause _ _ hcause ih =>
    refine ((ih wf).around rfl rfl).report ?_ _
    cases cause <;> first | rfl | cases hcause
  | interpolation _ _ _ ih => exact (ih wf).around rfl rfl
  | @literal _ _ _ s t u _ _ l field hopens hbody hparts hmode hending _ _ ih =>
    have hwf := wf.next s.stream.mode
    exact Tracked.literal wf hopens l.mode s.stream.nesting s.stream.lineBound s.depth (ih hwf)
      (hbody.advances.wellFormed hwf) hparts hmode hending field _

end Grammar

/-! ## Whole trees -/

/-- What is reported about a source is what its diagnostics are about. -/
theorem exists_diagnostic_iff (limit : Nat) (source : Text) :
    (∃ d ∈ (parse limit source).diagnostics, d.cause.isUnterminated = true) ↔
      Grammar.unterminated (Grammar.run limit source).2.reports = true := by
  rw [diagnostics_parse, Grammar.unterminated, List.any_eq_true]
  have hperm := Report.perm_sort (Grammar.run limit source).2.reports.reverse
  constructor
  · rintro ⟨d, hmem, hcause⟩
    obtain ⟨report, hreport, rfl⟩ := List.mem_map.1 hmem
    exact ⟨report, List.mem_reverse.1 (hperm.mem_iff.1 hreport), hcause⟩
  · rintro ⟨report, hmem, hcause⟩
    exact ⟨report.located source,
      List.mem_map_of_mem (hperm.mem_iff.2 (List.mem_reverse.2 hmem)), hcause⟩

/-- The root is no literal. -/
theorem exists_in_root_iff (limit : Nat) (source : Text) {p : Node → Bool}
    (h : ∀ node, p node = true → node.isLiteral = true) :
    (∃ node ∈ (parse limit source).root.preorder, p node = true) ↔
      Node.occurs p (Grammar.run limit source).1 = true := by
  rw [root_parse]
  exact Node.occurs_iff_mem h none .sourceFile rfl (Grammar.run limit source).1
    (Grammar.run limit source).2.stream.offset

/-- A silent literal has another literal below it. -/
theorem nested_of_isSilent (limit : Nat) (source : Text) {node : Node}
    (hmem : node ∈ (parse limit source).root.preorder) (hsilent : node.isSilent = true) :
    Node.occurs Node.isLiteral node.children = true := by
  have htracked := (Grammar.derives_file limit source).1.tracked (Scanner.wellFormed_ofText source)
  cases hnested : Node.occurs Node.isLiteral node.children with
  | true => rfl
  | false =>
    have halone : node.isSilentAlone = true := by
      rw [Node.isSilentAlone, hsilent, hnested]
      rfl
    have hall := htracked.nested
    rw [(exists_in_root_iff limit source Node.isLiteral_of_isSilentAlone).1
      ⟨node, hmem, halone⟩] at hall
    cases hall

/-- An unclosed literal is reported exactly when there is one and none is silent. A silent literal
has another literal below it; so unclosed literals in which none is nested are always reported. -/
theorem unterminated_iff (limit : Nat) (source : Text) :
    ((∃ d ∈ (parse limit source).diagnostics,
        d.cause.code = "unterminated_string" ∨ d.cause.code = "unterminated_command") ↔
      (∃ node ∈ (parse limit source).root.preorder, node.isUnclosed = true) ∧
        ¬∃ node ∈ (parse limit source).root.preorder, node.isSilent = true) ∧
    ∀ node ∈ (parse limit source).root.preorder, node.isSilent = true →
      Node.occurs Node.isLiteral node.children = true := by
  have htracked := (Grammar.derives_file limit source).1.tracked (Scanner.wellFormed_ofText source)
  have hcodes : (∃ d ∈ (parse limit source).diagnostics,
      d.cause.code = "unterminated_string" ∨ d.cause.code = "unterminated_command") ↔
      ∃ d ∈ (parse limit source).diagnostics, d.cause.isUnterminated = true := by
    simp only [Cause.isUnterminated_iff]
  have hnone : Grammar.unterminated (Grammar.State.ofText source).reports = false := rfl
  constructor
  · rw [hcodes, exists_diagnostic_iff, htracked.reports, hnone,
      exists_in_root_iff limit source Node.isLiteral_of_isUnclosed,
      exists_in_root_iff limit source Node.isLiteral_of_isSilent, Bool.false_or, Bool.and_eq_true,
      Bool.not_eq_true', Bool.not_eq_true]
  · intro node hmem hsilent
    exact nested_of_isSilent limit source hmem hsilent

/-- A format string without its end, in which a string is nested: nothing is reported. -/
theorem unclosed_without_diagnostic :
    (∃ node ∈ (parse defaultLimit "x := f\"\x7b\x7b\"a\"\x7d\x7d".toList).root.preorder,
      node.isUnclosed = true) ∧
    (parse defaultLimit "x := f\"\x7b\x7b\"a\"\x7d\x7d".toList).diagnostics = [] := by
  decide +kernel

end Justfile
