import Justfile.Grammar.State

/-!
# Literals

Strings, backtick commands, and the interpolations inside them and inside recipe lines. Each
switches the mode of the stream for its contents and back after them.
-/

set_option autoImplicit false

namespace Justfile.Grammar

variable (rules : Rules)

/-- An expression between double braces. It is confined to its line, whatever brackets are open
around it. -/
def interpolation : Parse Forest := do
  let outer := (← get).stream
  branch none .interpolation do
    let opened ← bump
    setMode .normal
    onStream (·.enterLine)
    let inner ← rules.expression none
    let closed ←
      if (← get).stream.atGlued (.mark .braceR) (.mark .braceR) then bumpGlued .interpolationClose
      else missing none (.token .interpolationClose)
    -- Closed or not, what follows is read in the context from before the braces.
    onStream (·.leaveLine outer)
    setMode outer.mode
    return opened ++ inner ++ closed

/-- One piece of the contents of a string, or its end. -/
def stringStep (_ : Unit) : Parse (Forest × Option Unit) := do
  match ← peek with
  | .stringContent | .escapeSequence => again (← bump)
  | .interpolationOpen => again (← interpolation rules)
  | .stringClose _ | .errorRecovery _ => done (← bump)
  | _ => done []

/-- The delimiters of a string and what stands between them. -/
def stringParts (dialect : Dialect) : Parse Forest := do
  let outer := (← get).stream
  let opened ← bump
  setMode (.stringContent dialect)
  let contents ← loop (stringStep rules) rules.budget ()
  setMode outer.mode
  return opened ++ contents

/-- A string literal; the next token opens it. -/
def string (field : Option Field) (dialect : Dialect) : Parse Forest :=
  branch field .string
    (if dialect.isFormat then branch none .formatString (stringParts rules dialect)
    else stringParts rules dialect)

/-- A string literal, or a mark that something is missing. -/
def stringOr (field : Option Field) (expected : Expected) : Parse Forest := do
  match ← peek with
  | .stringOpen dialect => string rules field dialect
  | _ => missing field expected

/-- One piece of the contents of a command. -/
def commandStep (_ : Unit) : Parse (Forest × Option Unit) := do
  match ← peek with
  | .commandContent => again (← bump)
  | .interpolationOpen => again (← interpolation rules)
  | _ => done []

/-- The contents of a command, if it has any. -/
def commandBody : Parse Forest := do
  match ← peek with
  | .commandContent | .interpolationOpen =>
    branch none .commandBody (loop (commandStep rules) rules.budget ())
  | _ => return []

/-- The end of a command, or of the input inside it. -/
def commandEnd : Parse Forest := do
  match ← peek with
  | .commandClose _ | .errorRecovery _ => bump
  | _ => return []

/-- A backtick command; the next token opens it. -/
def command (field : Option Field) (indented : Bool) : Parse Forest := do
  let outer := (← get).stream
  branch field .externalCommand do
    let opened ← bump
    setMode (.commandContent indented)
    let contents ← commandBody rules
    let closed ← commandEnd
    setMode outer.mode
    return opened ++ contents ++ closed

end Justfile.Grammar
