import Justfile.Grammar.Expression

/-!
# Recipes

A recipe has a header (name, parameters, dependencies) and, on deeper lines below it, a body. The
body opens with an indentation and closes with a dedent; in between it is read line by line.
-/

set_option autoImplicit false

namespace Justfile.Grammar

variable (rules : Rules)

/-- A further piece of a shebang line. -/
def shebangStep (_ : Unit) : Parse (Forest × Option Unit) := do
  match ← peek with
  | .shebangPath | .shebangFlag | .language | .shebangRest | .keyword .envWord => again (← bump)
  | _ => done []

/-- A shebang line; the next token starts it. -/
def shebang (field : Option Field) : Parse Forest :=
  branch field .shebang do
    let start ← bump
    let pieces ← loop shebangStep rules.budget ()
    return start ++ pieces

/-- A further component of a module path. -/
def pathStep (_ : Unit) : Parse (Forest × Option Unit) := do
  if ← isAtMark .doubleColon then
    let sign ← bump
    if ← isAt .identifier then
      let name ← bump
      again (sign ++ name)
    else
      let name ← missing none .moduleName
      done (sign ++ name)
  else done []

/-- A name, or names joined by `::`. -/
def namePath (field : Field) : Parse Forest := do
  if (← peekAt 1) == .mark .doubleColon then
    branch (some field) .modulePath do
      let first ← bump
      let more ← loop pathStep rules.budget ()
      return first ++ more
  else bump (some field)

/-! ## Parameters -/

/-- A parameter with an optional default. -/
def parameter : Parse Forest :=
  branch none .parameter do
    let sign ← bumpIf (.mark .dollar)
    let name ← expectIdentifier .name .parameterName
    if ← isAtMark .equals then
      let equals ← bump
      let default ← value rules (some .defaultValue)
      return sign ++ name ++ equals ++ default
    else return sign ++ name

/-- A parameter that takes any number of values. -/
def variadicParameter : Parse Forest :=
  branch none .variadicParameter do
    let sign ← bump (some .kleene)
    let inner ← parameter rules
    return sign ++ inner

/-- Whether a parameter starts with the token, and whether it is variadic. -/
def startsParameter : Token.Kind → Option Bool
  | .identifier | .mark .dollar => some false
  | .mark .star | .mark .plus => some true
  | _ => none

/-- A further parameter. One that follows a variadic parameter is wrapped. -/
def parameterStep (afterVariadic : Bool) : Parse (Forest × Option Bool) := do
  match startsParameter (← peek) with
  | none => done []
  | some isVariadic =>
    let inner := if isVariadic then variadicParameter rules else parameter rules
    let nodes ← if afterVariadic then errorBranch none .misplacedVariadic inner else inner
    return (nodes, some (afterVariadic || isVariadic))

/-- The parameters of a recipe. -/
def parameters : Parse Forest :=
  branch none .parameters (loop (parameterStep rules) rules.budget false)

/-! ## Dependencies -/

/-- A further argument of a dependency. -/
def dependencyArgumentStep (_ : Unit) : Parse (Forest × Option Unit) := do
  if startsExpression (← peek) then again (← rules.expression none) else done []

/-- A dependency with arguments, in parentheses. -/
def dependencyExpression : Parse Forest :=
  branch none .dependencyExpression do
    let opened ← openBracket
    let name ←
      if ← isAt .identifier then namePath rules .name else missing (some .name) .dependencyName
    let arguments ← loop (dependencyArgumentStep rules) rules.budget ()
    let closed ← closeBracket .parenR
    return opened ++ name ++ arguments ++ closed

/-- A dependency. -/
def dependency : Parse Forest :=
  branch none .dependency do
    if ← isAtMark .parenL then dependencyExpression rules else namePath rules .name

/-- A further dependency, with an optional `&&` in front of it. -/
def dependencyStep (_ : Unit) : Parse (Forest × Option Unit) := do
  let afterAnd ← isAtMark .ampAmp
  let sign ← if afterAnd then bump else pure []
  match ← peek with
  | .identifier | .mark .parenL =>
    let nodes ← dependency rules
    again (sign ++ nodes)
  | _ =>
    if afterAnd then
      let nodes ← missing none .dependency
      done (sign ++ nodes)
    else done sign

/-- The dependencies of a recipe. -/
def dependencies : Parse Forest :=
  branch none .dependencies (loop (dependencyStep rules) rules.budget ())

/-! ## Header -/

/-- The parameters, if there are any. -/
def parametersOpt : Parse Forest := do
  match startsParameter (← peek) with
  | some _ => parameters rules
  | none => return []

/-- The dependencies, if there are any. -/
def dependenciesOpt : Parse Forest := do
  match ← peek with
  | .identifier | .mark .parenL | .mark .ampAmp => dependencies rules
  | _ => return []

/-- The colon of a header and the dependencies after it; without the colon none are read. -/
def headerTail : Parse Forest := do
  if ← isAtMark .colon then
    let colon ← bump
    let nodes ← dependenciesOpt rules
    return colon ++ nodes
  else missing none (.token (.mark .colon))

/-- Name, parameters and dependencies. -/
def recipeHeader : Parse Forest :=
  branch none .recipeHeader do
    let sign ← bumpIf (.mark .atSign)
    let name ← expectIdentifier .name .recipeName
    let inputs ← parametersOpt rules
    let tail ← headerTail rules
    return sign ++ name ++ inputs ++ tail

/-! ## Body -/

/-- A further piece of a body line. -/
def recipeLineStep (_ : Unit) : Parse (Forest × Option Unit) := do
  match ← peek with
  | .text => again (← bump)
  | .interpolationOpen => again (← interpolation rules)
  | .newline | .dedent | .endOfInput => done []
  | _ => again (← errorToken rules none .recipeLine)

/-- A line of a body. -/
def recipeLine : Parse Forest :=
  branch none .recipeLine do
    let sign ← bumpIf .linePrefix
    let pieces ← loop (recipeLineStep rules) rules.budget ()
    return sign ++ pieces

/-- A further line of a body, or its end. -/
def recipeBodyStep (_ : Unit) : Parse (Forest × Option Unit) := do
  match ← peek with
  | .dedent => done (← bump)
  | .endOfInput => done []
  | .newline => again (← bump)
  | _ =>
    let line ← recipeLine rules
    let newline ← bumpIf .newline
    again (line ++ newline)

/-- The shebang line of a body, if it has one. -/
def bodyShebang : Parse Forest := do
  if ← isAt .shebangStart then
    let line ← shebang rules (some .shebang)
    let newline ← bumpIf .newline
    return line ++ newline
  else return []

/-- The body of a recipe; the next token opens it. -/
def recipeBody : Parse Forest :=
  branch (some .body) .recipeBody do
    let opened ← bump
    setMode .body
    let first ← bodyShebang rules
    let lines ← loop (recipeBodyStep rules) rules.budget ()
    return opened ++ first ++ lines

/-- A recipe around the attributes in front of it. -/
def recipe (adopted : Forest) : Parse Forest :=
  enclose .recipe adopted do
    let header ← recipeHeader rules
    let ending ← lineEnd rules
    -- The mode decides how the next token is scanned, so it is set before the look for a body.
    setMode .bodyStart
    let body ← if ← isAt .indent then recipeBody rules else pure []
    setMode .normal
    return header ++ ending ++ body

end Justfile.Grammar
