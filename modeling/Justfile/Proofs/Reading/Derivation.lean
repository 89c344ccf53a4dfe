import Justfile.Grammar.File
import Justfile.Proofs.Stream

/-!
# Derivations

What reading can do, said once. `Derives` relates a state, the nodes that are made from it on, and
the state after them; its rules are the few ways in which productions consume tokens, make nodes
and report faults. That every production follows the rules is proved beside them, one module of the
grammar after the other; what holds of all trees is then proved by induction on derivations.

Two indices say where the nodes stand and how tall they are. The number bounds their height. The
place says whether they stand inside an error node (`Place`): there an interpolation is not counted,
because the limit on nested expressions does not reach it. No rule exhausts a budget, so that a
derivation is also a proof that all loops came to their end.

Rules for literals say how they end (`Ending`): closed, reported as unterminated, or silently at the
end of the input.
-/

set_option autoImplicit false

namespace Justfile

/-- The kinds of nodes that group others without a rule of their own. -/
def Node.Kind.isGroup : Node.Kind → Bool
  | .shebang | .aliasItem | .assignment | .exportItem | .unexportItem | .importItem | .moduleItem
  | .modulePath | .setting | .boolean | .array | .recipe | .recipeHeader | .parameters
  | .parameter | .variadicParameter | .dependencies | .dependency | .dependencyExpression
  | .recipeLine | .attributeGroup | .attributeFlag | .attributeCall
  | .attributeKeyValue | .attributeNamedParam | .expression | .ifExpression | .elseIfClause
  | .elseClause | .condition | .regexLiteral | .value | .functionCall | .sequence => true
  | _ => false

/-- The causes that are reported with an error node. -/
def Cause.marksError : Cause → Bool
  | .unexpected .. | .misplacedVariadic | .nestingTooDeep _ => true
  | _ => false

namespace Grammar

/-! ## States -/

namespace State

/-- The scanner before the first token that is not consumed. -/
abbrev scanner (s : State) : Scanner := s.stream.scanner

/-- The step of the scanner that gives the next token. -/
abbrev step (s : State) : Token × Scanner := s.stream.step

/-- The kind of the next significant token. -/
def front (s : State) : Token.Kind := (s.stream.nth 0).kind

/-- The state after a report. -/
def withReport (s : State) (cause : Cause) (span : Span) : State :=
  { s with reports := ⟨cause, span⟩ :: s.reports }

/-- The state after a token is consumed. Characters that form no token are reported. -/
def take (s : State) (token : Token) (scanner : Scanner) : State :=
  { s with
    stream := { s.stream with scanner := scanner }
    reports := match token.kind with
      | .errorRecovery fault => ⟨.lexical fault, token.span⟩ :: s.reports
      | _ => s.reports
    consumed := token :: s.consumed }

/-- The state after the next token is consumed. -/
def taken (s : State) : State := s.take s.step.1 s.step.2

/-- The state in another context: only what tokens are read and how deep expressions are nested
depends on it. -/
def within (s : State) (mode : Mode) (nesting : Nat) (lineBound : Bool) (depth : Nat) : State :=
  { s with stream := ⟨s.scanner, mode, nesting, lineBound⟩, depth := depth }

end State

/-! ## Literals -/

/-- The two sorts of literals. -/
inductive Literal where
  | string (dialect : Dialect)
  | command (indented : Bool)

namespace Literal

/-- The token that opens the literal. -/
def opening : Literal → Token.Kind
  | string dialect => .stringOpen dialect
  | command indented => .commandOpen indented

/-- The token that closes the literal. -/
def closing : Literal → Token.Kind
  | string dialect => .stringClose dialect
  | command indented => .commandClose indented

/-- The mode in which the contents of the literal are read. -/
def mode : Literal → Mode
  | string dialect => .stringContent dialect
  | command indented => .commandContent indented

/-- What is wrong with the literal when the input ends inside it. -/
def fault : Literal → Fault
  | string _ => .unterminatedString
  | command _ => .unterminatedCommand

/-- The kind of the node of the literal. -/
def kind : Literal → Node.Kind
  | string _ => .string
  | command _ => .externalCommand

/-- What the node of the literal has below it: format strings and the contents of commands have a
node of their own. -/
def children (l : Literal) (opened : Node) (contents ending : Forest) (offset : Nat) : Forest :=
  match l with
  | string dialect =>
    if dialect.isFormat then [.branch none .formatString (opened :: contents ++ ending) offset]
    else opened :: contents ++ ending
  | command _ =>
    opened :: (if contents.isEmpty then [] else [.branch none .commandBody contents offset]) ++ ending

/-- The node of the literal. -/
def node (l : Literal) (field : Option Field) (opened : Node) (contents ending : Forest)
    (offset : Nat) : Node :=
  .branch field l.kind (l.children opened contents ending offset) offset

end Literal

/-- How a literal ends. -/
inductive Ending (l : Literal) (s : State) : Forest → State → Prop
  | closed : s.step.1.kind = l.closing → Ending l s [.ofToken none s.step.1] s.taken
  | reported : s.step.1.kind = .errorRecovery l.fault → Ending l s [.ofToken none s.step.1] s.taken
  | silent : s.step.1.kind = .endOfInput → Ending l s [] s

/-- The last node of an interpolation: its closing braces, or the mark that they are missing. -/
def ClosesInterpolation (children : Forest) : Prop :=
  ∃ front last, children = front ++ [last] ∧ last.children = [] ∧
    (last.kind = .token .interpolationClose ∨ last.kind = .missing)

/-- What stands between the delimiters of a literal. -/
def IsPart (node : Node) : Prop :=
  (node.children = [] ∧ (node.kind = .token .stringContent ∨ node.kind = .escapeSequence ∨
    node.kind = .token .commandContent)) ∨
  (node.kind = .interpolation ∧ ClosesInterpolation node.children)

/-! ## Rules -/

/-- Where nodes stand: outside all error nodes, directly in one, or below other nodes in one. -/
inductive Place where
  | outside | error | inside
  deriving DecidableEq

namespace Place

/-- The place of the children of a node that is no error node. -/
def below : Place → Place
  | outside => outside
  | error | inside => inside

/-- How much an interpolation in this place is allowed beyond its height: inside an error node it
counts for nothing, and pays for the three nodes around it up to the next error node. -/
def credit : Place → Nat
  | outside => 0
  | error | inside => 4

@[simp] theorem below_below (place : Place) : place.below.below = place.below := by
  cases place <;> rfl

@[simp] theorem credit_below (place : Place) : place.below.credit = place.credit := by
  cases place <;> rfl

theorem below_ne_error (place : Place) : place.below ≠ .error := by
  cases place <;> exact nofun

end Place

/-- Reading from a state makes nodes and ends in a state. The nodes stand in the place, and the
number bounds their height. -/
inductive Derives : Place → Nat → State → Forest → State → Prop
  | nil {place : Place} {height : Nat} {s : State} : Derives place height s [] s
  | append {place : Place} {height : Nat} {s t u : State} {front back : Forest} :
      Derives place height s front t → Derives place height t back u →
      Derives place height s (front ++ back) u
  /-- A change of context. -/
  | within {place : Place} {height : Nat} {s : State} (mode : Mode) (nesting : Nat)
      (lineBound : Bool) (depth : Nat) :
      Derives place height s [] (s.within mode nesting lineBound depth)
  /-- A token that neither opens nor ends a literal. Numbers stand on their own in error nodes
  only. -/
  | token {place : Place} {height : Nat} {s : State} (field : Option Field) :
      s.step.1.kind ≠ .endOfInput → s.step.1.kind.flag? = none →
      (s.step.1.kind = .number → place = .error) → 0 < height →
      Derives place height s [.ofToken field s.step.1] s.taken
  | keyword {place : Place} {height : Nat} {s : State} (field : Option Field) (word : Keyword) :
      s.step.1.kind = .identifier → 0 < height →
      Derives place height s [.ofToken field { s.step.1 with kind := .keyword word }]
        (s.take { s.step.1 with kind := .keyword word } s.step.2)
  /-- Two closing braces that stand together are one token. -/
  | closingBraces {place : Place} {height : Nat} {s : State} {first second : Token}
      {middle after : Scanner} :
      s.step = (first, middle) → middle.next s.stream.mode = (second, after) →
      first.kind = .mark .braceR → second.kind = .mark .braceR → 0 < height →
      Derives place height s
        [.leaf none (.token .interpolationClose) ⟨first.span.start, second.span.stop⟩]
        (s.take ⟨.interpolationClose, ⟨first.span.start, second.span.stop⟩,
          first.text ++ second.text, none⟩ after)
  | missing {place : Place} {height : Nat} {s : State} (field : Option Field)
      (expected : Expected) : 0 < height →
      Derives place height s [.leaf field .missing (.empty s.stream.offset)]
        (s.withReport (.missing expected) (.empty s.stream.offset))
  | group {place : Place} {height outer : Nat} {s t : State} {children : Forest}
      (field : Option Field) (kind : Node.Kind) :
      Derives place.below height s children t → height < outer → kind.isGroup = true →
      Derives place outer s [.branch field kind children t.stream.offset] t
  /-- The body of a recipe starts with the token that opens it. -/
  | body {place : Place} {height outer : Nat} {s t : State} {opened : Node} {rest : Forest}
      (field : Option Field) :
      Derives place.below height s (opened :: rest) t → height < outer →
      opened.kind = .token .indent →
      Derives place outer s [.branch field .recipeBody (opened :: rest) t.stream.offset] t
  /-- A bare number in the place of a value. -/
  | number {place : Place} {height : Nat} {s : State} (field : Option Field) (offset : Nat) :
      s.step.1.kind = .number → 1 < height →
      Derives place height s [.branch field .value [.ofToken none s.step.1] offset]
        (s.taken.withReport .numberAsValue s.step.1.span)
  | error {place : Place} {height outer : Nat} {s t : State} {children : Forest}
      (field : Option Field) (cause : Cause) :
      Derives .error height s children t → height < outer → cause.marksError = true →
      Derives place outer s [.branch field .error children t.stream.offset]
        (t.withReport cause (Node.branch field .error children t.stream.offset).span)
  | interpolation {place : Place} {height outer : Nat} {s t : State} {children : Forest} :
      Derives place.below height s children t → height < outer + place.credit →
      ClosesInterpolation children →
      Derives place outer s [.branch none .interpolation children t.stream.offset] t
  | literal {place : Place} {height outer : Nat} {s t u : State} {contents ending : Forest}
      (l : Literal) (field : Option Field) :
      s.step.1.kind = l.opening →
      Derives place.below height
        (s.taken.within l.mode s.stream.nesting s.stream.lineBound s.depth) contents t →
      (∀ node ∈ contents, IsPart node) → t.stream.mode = l.mode → Ending l t ending u →
      0 < height → height + 2 ≤ outer →
      Derives place outer s
        [l.node field (.ofToken none s.step.1) contents ending u.stream.offset] u

/-- A higher bound is a bound. -/
theorem Derives.mono {place : Place} {low high : Nat} {s t : State} {nodes : Forest}
    (derives : Derives place low s nodes t) (h : low ≤ high) : Derives place high s nodes t := by
  induction derives generalizing high with
  | nil => exact .nil
  | append _ _ ih1 ih2 => exact .append (ih1 h) (ih2 h)
  | within mode nesting lineBound depth => exact .within mode nesting lineBound depth
  | token field hend hflag hnumber hpos => exact .token field hend hflag hnumber (by omega)
  | keyword field word hkind hpos => exact .keyword field word hkind (by omega)
  | closingBraces hfirst hsecond hkind1 hkind2 hpos =>
    exact .closingBraces hfirst hsecond hkind1 hkind2 (by omega)
  | missing field expected hpos => exact .missing field expected (by omega)
  | group field kind hbody hlt hkind => exact .group field kind hbody (by omega) hkind
  | body field hbody hlt hopened => exact .body field hbody (by omega) hopened
  | number field offset hkind hlt => exact .number field offset hkind (by omega)
  | error field cause hbody hlt hcause => exact .error field cause hbody (by omega) hcause
  | interpolation hbody hlt hcloses => exact .interpolation hbody (by omega) hcloses
  | literal l field hopens hbody hparts hmode hending hpos hle =>
    exact .literal l field hopens hbody hparts hmode hending hpos (by omega)

/-! ## The scanner along a derivation -/

/-- From one state to a later one: the scanner stays well-formed, its work does not grow, and no
budget runs out. -/
structure Advances (s t : State) : Prop where
  wellFormed : s.scanner.WellFormed → t.scanner.WellFormed
  work_le : s.scanner.WellFormed → t.scanner.work ≤ s.scanner.work
  exhausted_eq : t.exhausted = s.exhausted

theorem Advances.of_eq {s t : State} (scanner : t.scanner = s.scanner)
    (exhausted : t.exhausted = s.exhausted) : Advances s t :=
  ⟨fun wf => scanner ▸ wf, fun _ => Nat.le_of_eq (congrArg Scanner.work scanner), exhausted⟩

theorem Advances.trans {s t u : State} (first : Advances s t) (second : Advances t u) :
    Advances s u :=
  ⟨fun wf => second.wellFormed (first.wellFormed wf),
    fun wf => Nat.le_trans (second.work_le (first.wellFormed wf)) (first.work_le wf),
    second.exhausted_eq.trans first.exhausted_eq⟩

theorem advances_take (s : State) (token : Token) : Advances s (s.take token s.step.2) :=
  ⟨fun wf => wf.next s.stream.mode, fun wf => Scanner.work_next_le wf s.stream.mode, rfl⟩

theorem Ending.advances {l : Literal} {s t : State} {nodes : Forest} (ending : Ending l s nodes t) :
    Advances s t := by
  cases ending with
  | closed => exact advances_take s _
  | reported => exact advances_take s _
  | silent => exact .of_eq rfl rfl

theorem Derives.advances {place : Place} {height : Nat} {s t : State} {nodes : Forest}
    (derives : Derives place height s nodes t) : Advances s t := by
  induction derives with
  | nil => exact .of_eq rfl rfl
  | append _ _ ih1 ih2 => exact ih1.trans ih2
  | within => exact .of_eq rfl rfl
  | @token _ _ s => exact advances_take s _
  | @keyword _ _ s => exact advances_take s _
  | @closingBraces _ _ s first second middle after hfirst hsecond =>
    have hmiddle : middle = (s.scanner.next s.stream.mode).2 := (congrArg Prod.snd hfirst).symm
    have hafter : after = (middle.next s.stream.mode).2 := (congrArg Prod.snd hsecond).symm
    subst hmiddle hafter
    refine ⟨fun wf => (wf.next s.stream.mode).next s.stream.mode, fun wf => ?_, rfl⟩
    exact Nat.le_trans (Scanner.work_next_le (wf.next s.stream.mode) s.stream.mode)
      (Scanner.work_next_le wf s.stream.mode)
  | missing => exact .of_eq rfl rfl
  | group _ _ _ _ _ ih => exact ih
  | body _ _ _ _ ih => exact ih
  | @number _ _ s => exact (advances_take s s.step.1).trans (.of_eq rfl rfl)
  | error _ _ _ _ _ ih => exact ih.trans (.of_eq rfl rfl)
  | interpolation _ _ _ ih => exact ih
  | @literal _ _ _ s t u _ _ l field _ _ _ _ ending _ _ ih =>
    have hopened : Advances s
        (s.taken.within l.mode s.stream.nesting s.stream.lineBound s.depth) :=
      (advances_take s s.step.1).trans (.of_eq rfl rfl)
    exact (hopened.trans ih).trans ending.advances

end Grammar

end Justfile
