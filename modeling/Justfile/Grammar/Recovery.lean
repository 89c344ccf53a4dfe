import Justfile.Grammar.Literal

/-!
# Recovery

Tokens that fit nowhere are wrapped in error nodes: one token, the rest of a line, or the rest of
a construct that is nested too deep. Literals are taken whole, so that their contents are read in
their own mode.
-/

set_option autoImplicit false

namespace Justfile.Grammar

variable (rules : Rules)

/-- Consumes one token, or a whole literal. -/
def bumpAny : Parse Forest := do
  match ← peek with
  | .stringOpen dialect => string rules none dialect
  | .commandOpen indented => command rules none indented
  | _ => bump

/-- Wraps the next token. Characters that form no token are wrapped already. -/
def errorToken (field : Option Field) (expected : Expected) : Parse Forest := do
  let token ← peekToken 0
  if token.kind.isErrorRecovery then bump field
  else errorBranch field (.unexpected expected (.ofToken token)) (bumpAny rules)

/-- Goes on to the end of the line. -/
def recoverStep (_ : Unit) : Parse (Forest × Option Unit) := do
  if ← isAtLineEnd then done [] else again (← bumpAny rules)

/-- Wraps the rest of the line. If nothing is left of it, the expected part is missing. -/
def recoverLine (expected : Expected) : Parse Forest := do
  if ← isAtLineEnd then missing none expected
  else
    let token ← peekToken 0
    errorBranch none (.unexpected expected (.ofToken token))
      (loop (recoverStep rules) rules.budget ())

/-- The end of an item's line; anything in front of it is wrapped. -/
def lineEnd : Parse Forest := do
  match ← peek with
  | .newline => bump
  | .endOfInput | .dedent => return []
  | _ =>
    let wrapped ← recoverLine rules .endOfLine
    let newline ← bumpIf .newline
    return wrapped ++ newline

/-- Goes on through a construct that is nested too deep, with the number of brackets opened inside
it. It ends with the line or at a bracket that was opened outside. -/
def tooDeepStep (balance : Nat) : Parse (Forest × Option Nat) := do
  match ← peek with
  | .endOfInput | .newline | .dedent => done []
  | .mark .parenL | .mark .bracketL | .mark .braceL =>
    let nodes ← bump
    return (nodes, some (balance + 1))
  | .mark .parenR | .mark .bracketR | .mark .braceR =>
    match balance with
    | 0 => done []
    | balance + 1 =>
      let nodes ← bump
      return (nodes, some balance)
  | _ =>
    let nodes ← bumpAny rules
    return (nodes, some balance)

/-- Wraps a construct that is nested too deep. -/
def tooDeep (field : Option Field) : Parse Forest :=
  errorBranch field (.nestingTooDeep rules.limit) (loop (tooDeepStep rules) rules.budget 0)

end Justfile.Grammar
