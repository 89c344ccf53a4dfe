import Justfile.Assembler
import Justfile.Grammar.State

/-!
# Actions

A parser reads a source once and puts its tree together on the way. An action returns no nodes: it
opens a node in the builder, adds leaves, and closes the node again; a part that the next node plays
is set in front of it. Which nodes are open between two actions, and whether such a part still waits,
is up to the actions alone.

Looking ahead, reporting and changing the context leave the builder as it is. Here they are the steps
of the grammar.
-/

set_option autoImplicit false

namespace Justfile

/-- What actions pass on to one another: the state of reading, and the tree so far. -/
structure Parser extends Grammar.State where
  builder : Assembler := .ofRoot .sourceFile

namespace Parser

/-- A step of reading that puts the tree together. -/
abbrev Action := StateM Parser

/-- A step of the grammar that makes no nodes. -/
def lift {α : Type} (step : Grammar.Parse α) : Action α := fun q =>
  let (a, s) := step q.toState
  (a, { q with toState := s })

instance : MonadLift Grammar.Parse Action := ⟨lift⟩

/-- What all actions share: the limit on nested expressions, the budget of each loop, and the action
for an expression inside another construct. -/
structure Rules where
  limit : Nat
  budget : Nat
  expression : Action Unit

open Grammar (peek peekAt peekToken isAt isAtMark isKeywordAt isAtLineEnd report exhaust onStream setMode)

/-! ## Building -/

/-- Changes the tree so far. -/
def build (change : Assembler → Assembler) : Action Unit :=
  modify fun q => { q with builder := change q.builder }

/-- Hands trivia to the builder, where it waits for the next leaf or node. -/
def passTrivia (tokens : List Token) : Action Unit :=
  modify fun q => { q with
    consumed := tokens.reverse ++ q.consumed
    builder := q.builder.trivia (tokens.map fun token => (token.kind, token.span)) }

/-- Consumes the trivia in front of the next significant token, so that it stays outside of a node
that is about to be opened. -/
def flushTrivia : Action Unit := do
  let (tokens, stream) := (← get).stream.takeTrivia
  modify fun q => { q with stream := stream }
  passTrivia tokens

/-- Opens a node. -/
def startNode (kind : Node.Kind) : Action Unit := do
  flushTrivia
  build (·.start kind)

/-- Closes the innermost node and returns its span. -/
def finishNode : Action Span := do
  let (span, builder) := (← get).builder.finish
  modify fun q => { q with builder := builder }
  return span

/-- The place behind the children that the innermost node has so far. -/
def checkpoint : Action Nat := do
  flushTrivia
  let (count, builder) := (← get).builder.checkpoint
  modify fun q => { q with builder := builder }
  return count

/-- Opens a node that takes over the children behind a checkpoint. -/
def startNodeAt (checkpoint : Nat) (kind : Node.Kind) (field : Option Field) : Action Unit :=
  build (·.startAt checkpoint kind field)

/-- Sets the part that the next node or token plays. -/
def setField (field : Field) : Action Unit := build (·.setField field)

/-! ## Consuming -/

/-- Records a token as consumed, with the trivia in front of it, and adds its leaf. Characters that
form no token are reported. -/
def pushToken (trivia : List Token) (token : Token) : Action Unit := do
  passTrivia trivia
  match token.kind with
  | .errorRecovery fault => report (.lexical fault) token.span
  | _ => pure ()
  modify fun q => { q with
    consumed := token :: q.consumed
    builder := q.builder.token (.ofToken token.kind) token.span }

/-- Consumes the next significant token, as a token of another kind if one is given. At the end of
the input nothing is consumed. -/
def bumpAs (kind : Option Token.Kind) : Action Unit := do
  if ← isAt .endOfInput then return
  let (trivia, token, stream) := (← get).stream.bump
  modify fun q => { q with stream := stream }
  pushToken trivia { token with kind := kind.getD token.kind }

/-- Consumes the next significant token. -/
def bump : Action Unit := bumpAs none

/-- Consumes the next significant token as a keyword. -/
def bumpKeyword (word : Keyword) : Action Unit := bumpAs (some (.keyword word))

/-- Consumes the next significant token, which plays the part. -/
def bumpField (field : Field) : Action Unit := do
  setField field
  bump

/-- Consumes two tokens that stand together as one. -/
def bumpGlued (kind : Token.Kind) : Action Unit := do
  let (trivia, token, stream) := (← get).stream.bumpGlued kind
  modify fun q => { q with stream := stream }
  pushToken trivia token

/-- Consumes the next significant token if it is of the kind. -/
def bumpIf (kind : Token.Kind) : Action Unit := do
  if ← isAt kind then bump

/-- Marks a part that is not there, right after the last leaf. -/
def missing (expected : Expected) : Action Unit := do
  let (span, builder) := (← get).builder.empty .missing
  modify fun q => { q with builder := builder }
  report (.missing expected) span

/-- Consumes a mark, or marks it as missing; says which of the two. -/
def expectMark (sign : Mark) : Action Bool := do
  if ← isAtMark sign then
    bump
    return true
  else
    missing (.token (.mark sign))
    return false

/-- Consumes an identifier, or marks it as missing. -/
def expectIdentifier (field : Field) (expected : Expected) : Action Unit := do
  setField field
  if ← isAt .identifier then bump else missing expected

/-- Consumes an opening bracket; line breaks are trivia from here on. -/
def openBracket : Action Unit := do
  bump
  onStream (·.openDelimiter)

/-- Consumes a closing bracket, or marks it as missing; either way the bracket is closed. -/
def closeBracket (sign : Mark) : Action Unit := do
  let _ ← expectMark sign
  onStream (·.closeDelimiter)

/-! ## Loops -/

/-- Repeats a step as long as it returns what to remember, and returns what was remembered last. -/
def loop {σ : Type} (step : σ → Action (Option σ)) : Nat → σ → Action σ
  | 0, memory => do
    exhaust
    return memory
  | fuel + 1, memory => do
    match ← step memory with
    | none => return memory
    | some next => loop step fuel next

/-- What a step of a loop returns to be repeated. -/
def again : Action (Option Unit) := return some ()

/-- What a step of a loop returns to end it. -/
def done {σ : Type} : Action (Option σ) := return none

end Parser

end Justfile
