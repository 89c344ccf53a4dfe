import Justfile.Parser.Literal

/-!
# Building error nodes

Tokens that fit nowhere are wrapped in error nodes: one token, the rest of a line, or the rest of
a construct that is nested too deep. Literals are taken whole, so that their contents are read in
their own mode.
-/

set_option autoImplicit false

namespace Justfile.Parser

open Grammar (peek peekToken isAtLineEnd report)

variable (rules : Rules)

/-- Consumes one token, or a whole literal. -/
def bumpAny : Action Unit := do
  match ← peek with
  | .stringOpen dialect => string rules dialect
  | .commandOpen indented => command rules indented
  | _ => bump

/-- Wraps the next token. Characters that form no token are wrapped already. -/
def errorToken (expected : Expected) : Action Unit := do
  let token ← peekToken 0
  if token.kind.isErrorRecovery then bump
  else
    startNode .error
    bumpAny rules
    let span ← finishNode
    report (.unexpected expected (.ofToken token)) span

/-- Goes on to the end of the line. -/
def recoverStep (_ : Unit) : Action (Option Unit) := do
  if ← isAtLineEnd then done
  else
    bumpAny rules
    again

/-- Wraps the rest of the line. If nothing is left of it, the expected part is missing. -/
def recoverLine (expected : Expected) : Action Unit := do
  if ← isAtLineEnd then missing expected
  else
    let token ← peekToken 0
    startNode .error
    loop (recoverStep rules) rules.budget ()
    let span ← finishNode
    report (.unexpected expected (.ofToken token)) span

/-- The end of an item's line; anything in front of it is wrapped. -/
def lineEnd : Action Unit := do
  match ← peek with
  | .newline => bump
  | .endOfInput | .dedent => return
  | _ =>
    recoverLine rules .endOfLine
    bumpIf .newline

/-- Goes on through a construct that is nested too deep, with the number of brackets opened inside
it. It ends with the line or at a bracket that was opened outside. -/
def tooDeepStep (balance : Nat) : Action (Option Nat) := do
  match ← peek with
  | .endOfInput | .newline | .dedent => done
  | .mark .parenL | .mark .bracketL | .mark .braceL =>
    bump
    return some (balance + 1)
  | .mark .parenR | .mark .bracketR | .mark .braceR =>
    match balance with
    | 0 => done
    | balance + 1 =>
      bump
      return some balance
  | _ =>
    bumpAny rules
    return some balance

/-- Wraps a construct that is nested too deep. -/
def tooDeep : Action Unit := do
  startNode .error
  let _ ← loop (tooDeepStep rules) rules.budget 0
  let span ← finishNode
  report (.nestingTooDeep rules.limit) span

end Justfile.Parser
