import Justfile.Parser.State

/-!
# Building literals

Strings, backtick commands, and the interpolations inside them and inside recipe lines. Each
switches the mode of the stream for its contents and back after them.
-/

set_option autoImplicit false

namespace Justfile.Parser

open Grammar (peek onStream setMode)

variable (rules : Rules)

/-- The closing braces of an interpolation. -/
def closeBraces : Action Unit := do
  if (← get).stream.atGlued (.mark .braceR) (.mark .braceR) then bumpGlued .interpolationClose
  else missing (.token .interpolationClose)

/-- An expression between double braces. It is confined to its line, whatever brackets are open
around it. -/
def interpolation : Action Unit := do
  let previous := (← get).stream.mode
  startNode .interpolation
  bump
  setMode .normal
  let outer := (← get).stream
  onStream (·.enterLine)
  rules.expression
  closeBraces
  onStream (·.leaveLine outer)
  setMode previous
  let _ ← finishNode

/-- One piece of the contents of a string, or its end. -/
def stringStep (_ : Unit) : Action (Option Unit) := do
  match ← peek with
  | .stringContent | .escapeSequence =>
    bump
    again
  | .interpolationOpen =>
    interpolation rules
    again
  | .stringClose _ | .errorRecovery _ =>
    bump
    done
  | _ => done

/-- A string literal; the next token opens it. -/
def string (dialect : Dialect) : Action Unit := do
  let previous := (← get).stream.mode
  startNode .string
  if dialect.isFormat then startNode .formatString
  bump
  setMode (.stringContent dialect)
  loop (stringStep rules) rules.budget ()
  setMode previous
  if dialect.isFormat then
    let _ ← finishNode
  let _ ← finishNode

/-- A string literal, or a mark that something is missing. -/
def stringOr (expected : Expected) : Action Unit := do
  match ← peek with
  | .stringOpen dialect => string rules dialect
  | _ => missing expected

/-- One piece of the contents of a command. -/
def commandStep (_ : Unit) : Action (Option Unit) := do
  match ← peek with
  | .commandContent =>
    bump
    again
  | .interpolationOpen =>
    interpolation rules
    again
  | _ => done

/-- The contents of a command, if it has any. -/
def commandBody : Action Unit := do
  match ← peek with
  | .commandContent | .interpolationOpen =>
    startNode .commandBody
    loop (commandStep rules) rules.budget ()
    let _ ← finishNode
  | _ => return

/-- The end of a command, or of the input inside it. -/
def commandEnd : Action Unit := do
  match ← peek with
  | .commandClose _ | .errorRecovery _ => bump
  | _ => return

/-- A backtick command; the next token opens it. -/
def command (indented : Bool) : Action Unit := do
  let previous := (← get).stream.mode
  startNode .externalCommand
  bump
  setMode (.commandContent indented)
  commandBody rules
  commandEnd
  setMode previous
  let _ ← finishNode

end Justfile.Parser
