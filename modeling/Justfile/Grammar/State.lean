import Justfile.Token.Stream
import Justfile.Tree

/-!
# Productions

A production reads tokens from a stream and returns the sibling nodes it made, in document order.
What it consumed and what it found wrong is kept in the state. Nodes are joined by appending
lists, so a production never sees the nodes around its own.

Three habits hold throughout. Trivia in front of a node stays outside it: `branch` returns it as
siblings before the node. Nothing is ever consumed at the end of the input. And loops run on a
budget that is computed from the length of the source; a loop that ran out of it says so in the
state, so that the end of a loop and the end of a budget cannot be confused.
-/

set_option autoImplicit false

namespace Justfile.Grammar

/-- What productions pass on to one another. -/
structure State where
  stream : Stream
  /-- The number of expressions around the current place. -/
  depth : Nat := 0
  /-- What is wrong, the latest first. -/
  reports : List Report := []
  /-- The tokens consumed, the latest first. -/
  consumed : List Token := []
  /-- Whether a loop ran out of its budget. -/
  exhausted : Bool := false

/-- A step of reading. -/
abbrev Parse := StateM State

/-- What all productions share: the limit on nested expressions, the budget of each loop, and the
production for an expression inside another construct. -/
structure Rules where
  limit : Nat
  budget : Nat
  expression : Option Field → Parse Forest

/-! ## Looking -/

/-- The significant token with `n` others before it. -/
def peekToken (n : Nat) : Parse Token := return (← get).stream.nth n

/-- The kind of the significant token with `n` others before it. -/
def peekAt (n : Nat) : Parse Token.Kind := return (← peekToken n).kind

/-- The kind of the next significant token. -/
def peek : Parse Token.Kind := peekAt 0

/-- Whether the next significant token is of the kind. -/
def isAt (kind : Token.Kind) : Parse Bool := return (← peek) == kind

/-- Whether the next significant token is the mark. -/
def isAtMark (sign : Mark) : Parse Bool := isAt (.mark sign)

/-- Whether the significant token with `n` others before it is the keyword. -/
def isKeywordAt (n : Nat) (word : Keyword) : Parse Bool := do
  let token ← peekToken n
  return token.kind == .identifier && token.text == word.spelling

/-- Whether a kind ends the line for the grammar. -/
def endsLine : Token.Kind → Bool
  | .newline | .endOfInput | .dedent => true
  | _ => false

/-- Whether the line ends here. -/
def isAtLineEnd : Parse Bool := return endsLine (← peek)

/-- Where the last consumed token ends. -/
def offset : Parse Nat := return (← get).stream.offset

/-! ## Consuming -/

/-- Records what is wrong with a stretch of source. -/
def report (cause : Cause) (span : Span) : Parse Unit :=
  modify fun s => { s with reports := ⟨cause, span⟩ :: s.reports }

/-- Records that a loop ran out of its budget. -/
def exhaust : Parse Unit := modify fun s => { s with exhausted := true }

/-- Records a token as consumed and makes its leaf. Characters that form no token are reported. -/
def accept (field : Option Field) (token : Token) : Parse Forest := do
  match token.kind with
  | .errorRecovery fault => report (.lexical fault) token.span
  | _ => pure ()
  modify fun s => { s with consumed := token :: s.consumed }
  return [.ofToken field token]

/-- Records trivia as consumed and makes its leaves. -/
def acceptTrivia (tokens : List Token) : Parse Forest := do
  modify fun s => { s with consumed := tokens.reverse ++ s.consumed }
  return tokens.map (.ofToken none)

/-- Consumes the trivia in front of the next significant token. -/
def trivia : Parse Forest := do
  let s ← get
  let (tokens, stream) := s.stream.takeTrivia
  set { s with stream := stream }
  acceptTrivia tokens

/-- Consumes the next significant token, as a token of another kind if one is given. At the end of
the input nothing is consumed. -/
def bumpAs (field : Option Field) (kind : Option Token.Kind) : Parse Forest := do
  let s ← get
  let (tokens, token, stream) := s.stream.bump
  -- The trivia in front of the end is not consumed either, so no open node ends with it.
  if token.kind = .endOfInput then return []
  set { s with stream := stream }
  let before ← acceptTrivia tokens
  let leaf ← accept field { token with kind := kind.getD token.kind }
  return before ++ leaf

/-- Consumes the next significant token. -/
def bump (field : Option Field := none) : Parse Forest := bumpAs field none

/-- Consumes the next significant token as a keyword. -/
def bumpKeyword (word : Keyword) : Parse Forest := bumpAs none (some (.keyword word))

/-- Consumes two tokens that stand together as one. -/
def bumpGlued (kind : Token.Kind) : Parse Forest := do
  let s ← get
  let (tokens, token, stream) := s.stream.bumpGlued kind
  set { s with stream := stream }
  let before ← acceptTrivia tokens
  let leaf ← accept none token
  return before ++ leaf

/-- Consumes the next significant token if it is of the kind. -/
def bumpIf (kind : Token.Kind) : Parse Forest := do
  if ← isAt kind then bump else return []

/-- Marks a part that is not there, right after the last consumed token. -/
def missing (field : Option Field) (expected : Expected) : Parse Forest := do
  let span := Span.empty (← offset)
  report (.missing expected) span
  return [.leaf field .missing span]

/-- Consumes a mark, or marks it as missing. -/
def expectMark (sign : Mark) : Parse Forest := do
  if ← isAtMark sign then bump else missing none (.token (.mark sign))

/-- Consumes an identifier, or marks it as missing. -/
def expectIdentifier (field : Field) (expected : Expected) : Parse Forest := do
  if ← isAt .identifier then bump (some field) else missing (some field) expected

/-! ## Context of the stream -/

/-- Changes the stream without consuming. -/
def onStream (change : Stream → Stream) : Parse Unit :=
  modify fun s => { s with stream := change s.stream }

/-- Reads on in another mode. -/
def setMode (mode : Mode) : Parse Unit := onStream (·.setMode mode)

/-- Consumes an opening bracket; line breaks are trivia from here on. -/
def openBracket : Parse Forest := do
  let nodes ← bump
  onStream (·.openDelimiter)
  return nodes

/-- Consumes a closing bracket, or marks it as missing; either way the bracket is closed. -/
def closeBracket (sign : Mark) : Parse Forest := do
  let nodes ← expectMark sign
  onStream (·.closeDelimiter)
  return nodes

/-! ## Nodes -/

/-- A node around what a production returns, behind the trivia in front of it. -/
def branch (field : Option Field) (kind : Node.Kind) (body : Parse Forest) : Parse Forest := do
  let before ← trivia
  let children ← body
  return before ++ [.branch field kind children (← offset)]

/-- A node around what a production returns and nodes that were made before it. -/
def enclose (kind : Node.Kind) (adopted : Forest) (body : Parse Forest) : Parse Forest := do
  let children ← body
  return [.branch none kind (adopted ++ children) (← offset)]

/-- An error node around what a production returns, reported with its span. -/
def errorBranch (field : Option Field) (cause : Cause) (body : Parse Forest) : Parse Forest := do
  let before ← trivia
  let children ← body
  let node := Node.branch field .error children (← offset)
  report cause node.span
  return before ++ [node]

/-! ## Loops -/

/-- Repeats a step, which returns nodes and, if it is to be repeated, what to remember. -/
def loop {σ : Type} (step : σ → Parse (Forest × Option σ)) : Nat → σ → Parse Forest
  | 0, _ => do
    exhaust
    return []
  | fuel + 1, memory => do
    let (nodes, next) ← step memory
    match next with
    | none => return nodes
    | some memory =>
      let more ← loop step fuel memory
      return nodes ++ more

/-- What a step of a loop returns to be repeated. -/
def again (nodes : Forest) : Parse (Forest × Option Unit) := return (nodes, some ())

/-- What a step of a loop returns to end it. -/
def done {σ : Type} (nodes : Forest) : Parse (Forest × Option σ) := return (nodes, none)

end Justfile.Grammar
