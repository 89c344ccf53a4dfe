import Justfile.Proofs.Node
import Justfile.Proofs.Reading.File

/-!
# Flaws and diagnostics

What is wrong with a source shows twice: in the nodes that mark a flaw, and in the diagnostics. The
two agree one to one (`diagnostics_mark_flaws`): each flaw of a tree is reported once, as its kind
says and with its own span, and nothing else is reported.

Reports and nodes are made in separate places of the grammar. Along a derivation they are matched
node by node (`Derives.marked`).
-/

set_option autoImplicit false

namespace Justfile

/-! ## Flaws -/

namespace Node

/-- Whether a node of the kind marks a flaw. A number does so in the place of a value. -/
def Kind.isFlaw (inValue : Bool) : Kind → Bool
  | error | missing | errorRecovery => true
  | numericError => inValue
  | _ => false

mutual
/-- The nodes that mark a flaw, in preorder. The flag says whether the node is a child of a value. -/
def flaws (inValue : Bool) : Node → List Node
  | ⟨field, kind, span, children⟩ =>
    (if kind.isFlaw inValue then [⟨field, kind, span, children⟩] else []) ++
      flawsList (kind == .value) children
/-- The nodes of several trees that mark a flaw. -/
def flawsList (inValue : Bool) : Forest → List Node
  | [] => []
  | node :: rest => flaws inValue node ++ flawsList inValue rest
end

@[simp] theorem flawsList_nil (inValue : Bool) : flawsList inValue [] = [] := rfl

@[simp] theorem flawsList_cons (inValue : Bool) (node : Node) (rest : Forest) :
    flawsList inValue (node :: rest) = flaws inValue node ++ flawsList inValue rest := rfl

@[simp] theorem flawsList_append (inValue : Bool) (front back : Forest) :
    flawsList inValue (front ++ back) = flawsList inValue front ++ flawsList inValue back := by
  induction front with
  | nil => rfl
  | cons node front ih => simp only [List.cons_append, flawsList_cons, ih, List.append_assoc]

theorem flaws_branch (inValue : Bool) (field : Option Field) (kind : Kind) (children : Forest)
    (offset : Nat) :
    (branch field kind children offset).flaws inValue =
      (if kind.isFlaw inValue then [branch field kind children offset] else []) ++
        flawsList (kind == .value) children := rfl

/-- A node that is neither a flaw nor a value has the flaws of its children. -/
theorem flaws_branch_of_plain {kind : Kind} (hflaw : kind.isFlaw false = false)
    (hvalue : (kind == .value) = false) (field : Option Field) (children : Forest) (offset : Nat) :
    (branch field kind children offset).flaws false = flawsList false children := by
  rw [flaws_branch, hflaw, hvalue]
  rfl

theorem flaws_leaf (inValue : Bool) (field : Option Field) (kind : Kind) (span : Span) :
    (leaf field kind span).flaws inValue =
      if kind.isFlaw inValue then [leaf field kind span] else [] := List.append_nil _

/-- Only numbers depend on whether they stand in a value. -/
theorem flawsList_eq_of_ne {nodes : Forest} (h : ∀ node ∈ nodes, node.kind ≠ .numericError)
    (inValue : Bool) : flawsList inValue nodes = flawsList false nodes := by
  induction nodes with
  | nil => rfl
  | cons node rest ih =>
    have hnode : node.flaws inValue = node.flaws false := by
      obtain ⟨field, kind, span, children⟩ := node
      have hkind : kind ≠ .numericError := h _ List.mem_cons_self
      have hflaw : kind.isFlaw inValue = kind.isFlaw false := by
        cases kind <;> first | rfl | exact absurd rfl hkind
      simp only [flaws, hflaw]
    rw [flawsList_cons, flawsList_cons, hnode, ih fun later hmem => h later (.tail _ hmem)]

mutual
/-- Flaws are nodes of the tree. -/
theorem mem_preorder_of_mem_flaws :
    ∀ {node flaw : Node} {inValue : Bool}, flaw ∈ node.flaws inValue → flaw ∈ node.preorder
  | ⟨field, kind, span, children⟩, flaw, inValue, h => by
    unfold flaws at h
    rw [preorder_eq_cons]
    rcases List.mem_append.1 h with h | h
    · split at h
      · rw [List.mem_singleton.1 h]
        exact List.mem_cons_self
      · cases h
    · exact List.mem_cons_of_mem _ (mem_preorderList_of_mem_flawsList h)
theorem mem_preorderList_of_mem_flawsList :
    ∀ {nodes : Forest} {flaw : Node} {inValue : Bool}, flaw ∈ flawsList inValue nodes →
      flaw ∈ preorderList nodes
  | [], _, _, h => by cases h
  | node :: rest, flaw, inValue, h => by
    rw [preorderList_cons]
    rcases List.mem_append.1 h with h | h
    · exact List.mem_append_left _ (mem_preorder_of_mem_flaws h)
    · exact List.mem_append_right _ (mem_preorderList_of_mem_flawsList h)
end

end Node

/-- The cause is what a flaw of the node's kind is reported as. -/
def Cause.Marks (cause : Cause) (node : Node) : Prop :=
  match cause with
  | .lexical _ => node.kind = .errorRecovery ∧ node.children = []
  | .missing _ => node.kind = .missing ∧ node.children = []
  | .numberAsValue => node.kind = .numericError ∧ node.children = []
  | .unexpected .. | .misplacedVariadic | .nestingTooDeep _ => node.kind = .error

theorem Cause.marks_error {cause : Cause} (h : cause.marksError = true) {node : Node}
    (hkind : node.kind = .error) : cause.Marks node := by
  cases cause <;> first | exact hkind | cases h

/-- What is wrong with the characters of a token, and where. -/
def Token.fault? (token : Token) : Option (Fault × Span) :=
  match token.kind with
  | .errorRecovery fault => some (fault, token.span)
  | _ => none

/-- What is wrong with the characters of a node, by the cause it is reported with, and where. -/
def lexical? (mark : Node × Cause) : Option (Fault × Span) :=
  match mark.2 with
  | .lexical fault => some (fault, mark.1.span)
  | _ => none

namespace Grammar

/-! ## Along a derivation -/

theorem number_of_ofToken {kind : Token.Kind} (h : Node.Kind.ofToken kind = .numericError) :
    kind = .number := by
  cases kind <;> first | rfl | cases h

/-- Outside error nodes no number stands on its own. -/
theorem Derives.ne_numericError {place : Place} {height : Nat} {s t : State} {nodes : Forest}
    (derives : Derives place height s nodes t) (hplace : place ≠ .error) :
    ∀ node ∈ nodes, node.kind ≠ .numericError := by
  induction derives with
  | nil => exact nofun
  | append _ _ ih1 ih2 =>
    intro node hmem
    rcases List.mem_append.1 hmem with hmem | hmem
    · exact ih1 hplace node hmem
    · exact ih2 hplace node hmem
  | within => exact nofun
  | token field _ _ hnumber =>
    intro node hmem hkind
    rw [List.mem_singleton.1 hmem] at hkind
    exact hplace (hnumber (number_of_ofToken hkind))
  | group field kind _ _ hgroup =>
    intro node hmem hkind
    rw [List.mem_singleton.1 hmem] at hkind
    change kind = _ at hkind
    rw [hkind] at hgroup
    cases hgroup
  | body =>
    intro node hmem hkind
    rw [List.mem_singleton.1 hmem] at hkind
    cases hkind
  | literal l =>
    intro node hmem hkind
    rw [List.mem_singleton.1 hmem] at hkind
    cases l <;> cases hkind
  | _ =>
    intro node hmem hkind
    rw [List.mem_singleton.1 hmem] at hkind
    cases hkind

/-- The flaws of nodes, each with the cause it is reported with; nothing else is reported. -/
structure Marked (s : State) (nodes : Forest) (t : State) (marks : List (Node × Cause)) : Prop where
  flaws : marks.map Prod.fst = Node.flawsList false nodes
  causes : ∀ mark ∈ marks, mark.2.Marks mark.1
  reports : ∃ reports, t.reports = reports ++ s.reports ∧
    reports.Perm (marks.map fun mark => ⟨mark.2, mark.1.span⟩)
  faults : ∃ tokens, t.consumed = tokens ++ s.consumed ∧
    marks.filterMap lexical? = tokens.reverse.filterMap Token.fault?

section Marked

variable {s t u : State} {nodes front back : Forest} {marks first second : List (Node × Cause)}

theorem Marked.append (hfirst : Marked s front t first) (hsecond : Marked t back u second) :
    Marked s (front ++ back) u (first ++ second) := by
  obtain ⟨reports, hreports, hperm⟩ := hfirst.reports
  obtain ⟨reports', hreports', hperm'⟩ := hsecond.reports
  obtain ⟨tokens, htokens, hfaults⟩ := hfirst.faults
  obtain ⟨tokens', htokens', hfaults'⟩ := hsecond.faults
  refine ⟨?_, ?_, ⟨reports' ++ reports, ?_, ?_⟩, tokens' ++ tokens, ?_, ?_⟩
  · rw [List.map_append, hfirst.flaws, hsecond.flaws, Node.flawsList_append]
  · intro mark hmem
    rcases List.mem_append.1 hmem with hmem | hmem
    · exact hfirst.causes mark hmem
    · exact hsecond.causes mark hmem
  · rw [hreports', hreports, List.append_assoc]
  · rw [List.map_append]
    exact List.perm_append_comm.trans (hperm.append hperm')
  · rw [htokens', htokens, List.append_assoc]
  · rw [List.filterMap_append, hfaults, hfaults', List.reverse_append, List.filterMap_append]

/-- Nodes without a flaw, and nothing reported. -/
theorem Marked.none (hflaws : Node.flawsList false nodes = []) (hreports : t.reports = s.reports)
    (hfaults : ∃ tokens, t.consumed = tokens ++ s.consumed ∧
      tokens.reverse.filterMap Token.fault? = []) : Marked s nodes t [] := by
  obtain ⟨tokens, htokens, hnone⟩ := hfaults
  exact ⟨hflaws.symm, fun mark hmem => absurd hmem List.not_mem_nil, ⟨[], hreports, .refl _⟩,
    tokens, htokens, hnone.symm⟩

/-- A node that marks no flaw around others. -/
theorem Marked.around (h : Marked s nodes t marks) {node : Node}
    (hflaws : node.flaws false = Node.flawsList false nodes) : Marked s [node] t marks :=
  ⟨by rw [h.flaws, Node.flawsList_cons, hflaws, Node.flawsList_nil, List.append_nil], h.causes,
    h.reports, h.faults⟩

/-- A token that is taken. -/
theorem marked_take (s : State) (field : Option Field) (token : Token) (scanner : Scanner) :
    ∃ marks, Marked s [.ofToken field token] (s.take token scanner) marks := by
  cases hkind : token.kind with
  | errorRecovery fault =>
    refine ⟨[(.ofToken field token, .lexical fault)], ?_, ?_, ⟨[⟨.lexical fault, token.span⟩], ?_, ?_⟩,
      [token], rfl, ?_⟩
    · simp [Node.ofToken, Node.flaws_leaf, hkind, Node.Kind.ofToken, Node.Kind.isFlaw]
    · intro mark hmem
      rw [List.mem_singleton.1 hmem]
      exact ⟨by rw [Node.ofToken, hkind]; rfl, rfl⟩
    · unfold State.take
      rw [hkind]
      rfl
    · exact .refl _
    · simp [lexical?, Token.fault?, hkind, Node.ofToken, Node.leaf]
  | _ =>
    refine ⟨[], .none ?_ ?_ ⟨[token], rfl, ?_⟩⟩
    · simp [Node.ofToken, Node.flaws_leaf, hkind, Node.Kind.ofToken, Node.Kind.isFlaw]
    · unfold State.take
      rw [hkind]
    · simp [Token.fault?, hkind]

/-- A report about a node that stands for it. -/
theorem Marked.report (h : Marked s nodes t marks) {node : Node} {cause : Cause}
    (hflaws : node.flaws false = node :: Node.flawsList false nodes) (hcause : cause.Marks node)
    (hlexical : lexical? (node, cause) = Option.none) :
    Marked s [node] (t.withReport cause node.span) ((node, cause) :: marks) := by
  obtain ⟨reports, hreports, hperm⟩ := h.reports
  obtain ⟨tokens, htokens, hfaults⟩ := h.faults
  refine ⟨?_, ?_, ⟨⟨cause, node.span⟩ :: reports, ?_, hperm.cons _⟩, tokens, htokens, ?_⟩
  · rw [List.map_cons, h.flaws, Node.flawsList_cons, hflaws, Node.flawsList_nil, List.append_nil]
  · intro mark hmem
    rcases List.mem_cons.1 hmem with rfl | hmem
    · exact hcause
    · exact h.causes mark hmem
  · exact congrArg _ hreports
  · rw [List.filterMap_cons, hlexical]
    exact hfaults

theorem Marked.context (h : Marked s nodes t marks) (mode : Mode) (nesting depth : Nat)
    (lineBound : Bool) : Marked s nodes (t.within mode nesting lineBound depth) marks :=
  ⟨h.flaws, h.causes, h.reports, h.faults⟩

/-- The node of a literal marks no flaw itself. -/
theorem flaws_literal (l : Literal) (field : Option Field) (opened : Node) (contents ending : Forest)
    (offset : Nat) :
    (l.node field opened contents ending offset).flaws false =
      Node.flawsList false (opened :: contents ++ ending) := by
  unfold Literal.node
  cases l with
  | string dialect =>
    rw [Node.flaws_branch_of_plain rfl rfl]
    simp only [Literal.children]
    split
    · rw [Node.flawsList_cons, Node.flaws_branch_of_plain rfl rfl, Node.flawsList_nil,
        List.append_nil]
    · rfl
  | command indented =>
    rw [Node.flaws_branch_of_plain rfl rfl]
    cases contents with
    | nil => rfl
    | cons node rest =>
      simp only [Literal.children, List.isEmpty_cons, Bool.false_eq_true, if_false,
        Node.flawsList_append, Node.flawsList_cons, Node.flawsList_nil, List.append_nil]
      rw [Node.flaws_branch_of_plain rfl rfl]
      rfl

end Marked

theorem Ending.marked {l : Literal} {s t : State} {nodes : Forest} (ending : Ending l s nodes t) :
    ∃ marks, Marked s nodes t marks := by
  cases ending with
  | closed => exact marked_take s none s.step.1 s.step.2
  | reported => exact marked_take s none s.step.1 s.step.2
  | silent => exact ⟨[], .none rfl rfl ⟨[], rfl, rfl⟩⟩

/-- Along a derivation every flaw is reported once. -/
theorem Derives.marked {place : Place} {height : Nat} {s t : State} {nodes : Forest}
    (derives : Derives place height s nodes t) : ∃ marks, Marked s nodes t marks := by
  induction derives with
  | nil => exact ⟨[], .none rfl rfl ⟨[], rfl, rfl⟩⟩
  | append _ _ ih1 ih2 =>
    obtain ⟨first, hfirst⟩ := ih1
    obtain ⟨second, hsecond⟩ := ih2
    exact ⟨first ++ second, hfirst.append hsecond⟩
  | within => exact ⟨[], .none rfl rfl ⟨[], rfl, rfl⟩⟩
  | @token _ _ s field => exact marked_take s field s.step.1 s.step.2
  | @keyword _ _ s field word => exact marked_take s field { s.step.1 with kind := .keyword word } _
  | @closingBraces _ _ s first second _ after =>
    exact marked_take s none ⟨.interpolationClose, ⟨first.span.start, second.span.stop⟩,
      first.text ++ second.text, none⟩ after
  | @missing _ _ s field expected =>
    have hnothing : Marked s [] s [] := .none rfl rfl ⟨[], rfl, rfl⟩
    have hleaf : Cause.Marks (.missing expected) (.leaf field .missing (.empty s.stream.offset)) :=
      ⟨rfl, rfl⟩
    exact ⟨_, hnothing.report rfl hleaf rfl⟩
  | @group place _ _ _ _ children field kind hbody _ hkind ih =>
    -- A node that only groups is no flaw, and no `numericError` stands directly below it: whether
    -- it is a value makes no difference to its children.
    obtain ⟨marks, hmarks⟩ := ih
    refine ⟨marks, hmarks.around ?_⟩
    have hflaw : kind.isFlaw false = false := by
      cases kind <;> first | rfl | cases hkind
    have hsame := Node.flawsList_eq_of_ne (hbody.ne_numericError place.below_ne_error)
      (kind == .value)
    rw [Node.flaws_branch, hflaw, hsame]
    rfl
  | body _ _ _ _ ih =>
    obtain ⟨marks, hmarks⟩ := ih
    exact ⟨marks, hmarks.around (Node.flaws_branch ..)⟩
  | @number _ _ s field offset hkind =>
    have hleaf : (Node.ofToken none s.step.1).kind = .numericError := by
      rw [Node.ofToken, hkind]
      rfl
    refine ⟨[(.ofToken none s.step.1, .numberAsValue)], ?_, ?_,
      ⟨[⟨.numberAsValue, s.step.1.span⟩], ?_, .refl _⟩, [s.step.1], rfl, ?_⟩
    · simp [Node.flaws_branch, Node.Kind.isFlaw, Node.ofToken, Node.flaws_leaf, hkind,
        Node.Kind.ofToken]
    · intro mark hmem
      rw [List.mem_singleton.1 hmem]
      exact ⟨hleaf, rfl⟩
    · unfold State.withReport State.taken State.take
      rw [hkind]
      rfl
    · simp [lexical?, Token.fault?, hkind]
  | @error _ _ _ s t children field cause _ _ hcause ih =>
    obtain ⟨marks, hmarks⟩ := ih
    refine ⟨_, hmarks.report rfl (Cause.marks_error hcause rfl) ?_⟩
    cases cause <;> first | rfl | cases hcause
  | interpolation _ _ _ ih =>
    obtain ⟨marks, hmarks⟩ := ih
    exact ⟨marks, hmarks.around rfl⟩
  | @literal _ _ _ s t u _ _ l field _ _ _ _ hending _ _ ih =>
    obtain ⟨opening, hopening⟩ := marked_take s none s.step.1 s.step.2
    obtain ⟨inner, hinner⟩ := ih
    obtain ⟨closing, hclosing⟩ := hending.marked
    have hopened := hopening.context l.mode s.stream.nesting s.depth s.stream.lineBound
    have hall := (hopened.append hinner).append hclosing
    exact ⟨_, hall.around (flaws_literal ..)⟩

end Grammar

/-- The root marks no flaw itself. -/
theorem flaws_root_parse (limit : Nat) (source : Text) :
    (parse limit source).root.flaws false =
      Node.flawsList false (Grammar.run limit source).1 :=
  Node.flaws_branch_of_plain rfl rfl none (Grammar.run limit source).1
    (Grammar.run limit source).2.stream.offset

/-- The flaws of a tree and its diagnostics correspond: with each flaw comes a cause that its kind
allows, and these causes and spans are those of the diagnostics, each as often; what is wrong with
the characters of a node is what is wrong with its token. The diagnostics are in the order of
their starts, and each has the position of its start. -/
theorem diagnostics_mark_flaws (limit : Nat) (source : Text) :
    ∃ marks : List (Node × Cause),
      marks.map Prod.fst = (parse limit source).root.flaws false ∧
      (∀ mark ∈ marks, mark.2.Marks mark.1) ∧
      marks.filterMap lexical? =
        (Grammar.run limit source).2.consumed.reverse.filterMap Token.fault? ∧
      ((parse limit source).diagnostics.map fun d => (d.cause, d.span)).Perm
        (marks.map fun mark => (mark.2, mark.1.span)) ∧
      (parse limit source).diagnostics.Pairwise
        (fun first second => first.span.start ≤ second.span.start) ∧
      ∀ d ∈ (parse limit source).diagnostics,
        d.position = (parse limit source).position d.span.start := by
  obtain ⟨marks, hmarks⟩ := (Grammar.derives_file limit source).1.marked
  obtain ⟨reports, hreports, hperm⟩ := hmarks.reports
  obtain ⟨tokens, htokens, hfaults⟩ := hmarks.faults
  have hnone : (Grammar.State.ofText source).reports = [] := rfl
  have hfirst : (Grammar.State.ofText source).consumed = [] := rfl
  rw [hnone, List.append_nil] at hreports
  rw [hfirst, List.append_nil] at htokens
  rw [diagnostics_parse, flaws_root_parse, hreports, htokens]
  refine ⟨marks, hmarks.flaws, hmarks.causes, hfaults, ?_, ?_, ?_⟩
  · have hsorted := (Report.perm_sort reports.reverse).trans
      ((List.reverse_perm reports).trans hperm)
    have hpairs := hsorted.map fun report => (report.cause, report.span)
    rw [List.map_map] at hpairs ⊢
    exact hpairs
  · exact List.pairwise_map.2 (Report.sorted_sort reports.reverse)
  · intro d hmem
    obtain ⟨report, -, rfl⟩ := List.mem_map.1 hmem
    unfold Tree.position
    rw [source_parse]
    rfl

end Justfile
