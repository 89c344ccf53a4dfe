import Justfile.Grammar.Recipe
import Justfile.Parser.Expression

/-!
# Building recipes

A recipe has a header (name, parameters, dependencies) and, on deeper lines below it, a body. The
node of the recipe is opened at a checkpoint in front of the attributes, and takes them over.
-/

set_option autoImplicit false

namespace Justfile.Parser

open Grammar (peek peekAt isAt isAtMark report setMode startsExpression startsParameter)

variable (rules : Rules)

/-- A further piece of a shebang line. -/
def shebangStep (_ : Unit) : Action (Option Unit) := do
  match ← peek with
  | .shebangPath | .shebangFlag | .language | .shebangRest | .keyword .envWord =>
    bump
    again
  | _ => done

/-- A shebang line; the next token starts it. -/
def shebang : Action Unit := do
  startNode .shebang
  bump
  loop shebangStep rules.budget ()
  let _ ← finishNode

/-- A further component of a module path. -/
def pathStep (_ : Unit) : Action (Option Unit) := do
  if ← isAtMark .doubleColon then
    bump
    if ← isAt .identifier then
      bump
      again
    else
      missing .moduleName
      done
  else done

/-- A name, or names joined by `::`. -/
def namePath : Action Unit := do
  if (← peekAt 1) == .mark .doubleColon then
    startNode .modulePath
    bump
    loop pathStep rules.budget ()
    let _ ← finishNode
  else bump

/-- A name, or names joined by `::`, or a mark that the name is missing. -/
def namePathOr (field : Field) (expected : Expected) : Action Unit := do
  setField field
  if ← isAt .identifier then namePath rules else missing expected

/-! ## Parameters -/

/-- The default of a parameter, if it has one. -/
def parameterDefault : Action Unit := do
  if ← isAtMark .equals then
    bump
    setField .defaultValue
    value rules

/-- A parameter with an optional default. -/
def parameter : Action Unit := do
  startNode .parameter
  bumpIf (.mark .dollar)
  expectIdentifier .name .parameterName
  parameterDefault rules
  let _ ← finishNode

/-- A parameter that takes one value or any number of values. -/
def parameterOrVariadic (isVariadic : Bool) : Action Unit := do
  if isVariadic then
    startNode .variadicParameter
    bumpField .kleene
    parameter rules
    let _ ← finishNode
  else parameter rules

/-- A parameter that follows a variadic one is wrapped. -/
def misplacedParameter (isVariadic : Bool) : Action Unit := do
  let checkpoint ← checkpoint
  parameterOrVariadic rules isVariadic
  startNodeAt checkpoint .error none
  let span ← finishNode
  report .misplacedVariadic span

/-- A further parameter. -/
def parameterStep (afterVariadic : Bool) : Action (Option Bool) := do
  match startsParameter (← peek) with
  | none => done
  | some isVariadic =>
    if afterVariadic then
      misplacedParameter rules isVariadic
      return some true
    else
      parameterOrVariadic rules isVariadic
      return some isVariadic

/-- The parameters of a recipe. -/
def parameters : Action Unit := do
  startNode .parameters
  let _ ← loop (parameterStep rules) rules.budget false
  let _ ← finishNode

/-! ## Dependencies -/

/-- A further argument of a dependency. -/
def dependencyArgumentStep (_ : Unit) : Action (Option Unit) := do
  if startsExpression (← peek) then
    rules.expression
    again
  else done

/-- A dependency with arguments, in parentheses. -/
def dependencyExpression : Action Unit := do
  startNode .dependencyExpression
  openBracket
  namePathOr rules .name .dependencyName
  loop (dependencyArgumentStep rules) rules.budget ()
  closeBracket .parenR
  let _ ← finishNode

/-- A dependency. -/
def dependency : Action Unit := do
  startNode .dependency
  if ← isAtMark .parenL then dependencyExpression rules
  else
    setField .name
    namePath rules
  let _ ← finishNode

/-- A further dependency, with an optional `&&` in front of it. -/
def dependencyStep (_ : Unit) : Action (Option Unit) := do
  let afterAnd ← isAtMark .ampAmp
  if afterAnd then bump
  match ← peek with
  | .identifier | .mark .parenL =>
    dependency rules
    again
  | _ =>
    if afterAnd then missing .dependency
    done

/-- The dependencies of a recipe. -/
def dependencies : Action Unit := do
  startNode .dependencies
  loop (dependencyStep rules) rules.budget ()
  let _ ← finishNode

/-! ## Header -/

/-- The parameters, if there are any. -/
def parametersOpt : Action Unit := do
  match startsParameter (← peek) with
  | some _ => parameters rules
  | none => return

/-- The dependencies, if there are any. -/
def dependenciesOpt : Action Unit := do
  match ← peek with
  | .identifier | .mark .parenL | .mark .ampAmp => dependencies rules
  | _ => return

/-- The colon of a header and the dependencies after it; without the colon none are read. -/
def headerTail : Action Unit := do
  if ← expectMark .colon then dependenciesOpt rules

/-- Name, parameters and dependencies. -/
def recipeHeader : Action Unit := do
  startNode .recipeHeader
  bumpIf (.mark .atSign)
  expectIdentifier .name .recipeName
  parametersOpt rules
  headerTail rules
  let _ ← finishNode

/-! ## Body -/

/-- A further piece of a body line. -/
def recipeLineStep (_ : Unit) : Action (Option Unit) := do
  match ← peek with
  | .text =>
    bump
    again
  | .interpolationOpen =>
    interpolation rules
    again
  | .newline | .dedent | .endOfInput => done
  | _ =>
    errorToken rules .recipeLine
    again

/-- A line of a body. -/
def recipeLine : Action Unit := do
  startNode .recipeLine
  bumpIf .linePrefix
  loop (recipeLineStep rules) rules.budget ()
  let _ ← finishNode

/-- A further line of a body, or its end. -/
def recipeBodyStep (_ : Unit) : Action (Option Unit) := do
  match ← peek with
  | .dedent =>
    bump
    done
  | .endOfInput => done
  | .newline =>
    bump
    again
  | _ =>
    recipeLine rules
    bumpIf .newline
    again

/-- The shebang line of a body, if it has one. -/
def bodyShebang : Action Unit := do
  if ← isAt .shebangStart then
    setField .shebang
    shebang rules
    bumpIf .newline

/-- The body of a recipe; the next token opens it. -/
def recipeBody : Action Unit := do
  startNode .recipeBody
  bump
  setMode .body
  bodyShebang rules
  loop (recipeBodyStep rules) rules.budget ()
  let _ ← finishNode

/-- The body of a recipe, if there is one. -/
def recipeBodyOpt : Action Unit := do
  if ← isAt .indent then
    setField .body
    recipeBody rules

/-- A recipe around the attributes behind the checkpoint. -/
def recipe (checkpoint : Nat) : Action Unit := do
  startNodeAt checkpoint .recipe none
  recipeHeader rules
  lineEnd rules
  setMode .bodyStart
  recipeBodyOpt rules
  setMode .normal
  let _ ← finishNode

end Justfile.Parser
