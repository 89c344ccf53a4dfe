import Justfile.Grammar.Expression
import Justfile.Parser.Recovery

/-!
# Building expressions

An expression is a chain of operands. When a sign follows, what stands before it is already among
the children of the open node; the sign takes it over from a checkpoint and makes it one expression.

The depth is counted up at each expression and each sign, and down again behind them.
-/

set_option autoImplicit false

namespace Justfile.Parser

open Grammar (peek peekAt peekToken isAt isAtMark isKeywordAt report exhaust startsExpression deepen
  surface)

variable (rules : Rules)

/-! ## Calls -/

/-- A further argument, with the comma in front of it. -/
def argumentStep (_ : Unit) : Action (Option Unit) := do
  if ← isAtMark .comma then
    bump
    if ← isAtMark .parenR then done
    else
      rules.expression
      again
  else done

/-- The arguments of a call. -/
def arguments : Action Unit := do
  startNode .sequence
  rules.expression
  loop (argumentStep rules) rules.budget ()
  let _ ← finishNode

/-- The arguments of a call, if there are any. -/
def argumentsOpt : Action Unit := do
  if startsExpression (← peek) then
    setField .arguments
    arguments rules

/-- A name with arguments in parentheses. -/
def functionCall : Action Unit := do
  startNode .functionCall
  bumpField .name
  openBracket
  argumentsOpt rules
  closeBracket .parenR
  let _ ← finishNode

/-! ## Values -/

/-- A value: a name, a call, a literal, or an expression in parentheses. -/
def value : Action Unit := do
  match ← peek with
  | .identifier =>
    if (← peekAt 1) == .mark .parenL then
      startNode .value
      functionCall rules
      let _ ← finishNode
    else
      startNode .value
      bump
      let _ ← finishNode
  | .stringOpen dialect =>
    startNode .value
    string rules dialect
    let _ ← finishNode
  | .commandOpen indented =>
    startNode .value
    command rules indented
    let _ ← finishNode
  | .number =>
    startNode .value
    let token ← peekToken 0
    bump
    report .numberAsValue token.span
    let _ ← finishNode
  | .mark .parenL =>
    startNode .value
    openBracket
    rules.expression
    closeBracket .parenR
    let _ ← finishNode
  | .errorRecovery _ => bump
  | kind => if kind.endsValue then missing .expression else errorToken rules .expression

/-! ## Conditionals -/

/-- An expression in braces. When the opening brace is missing, no closing one is expected. -/
def braced (field : Field) : Action Unit := do
  if ← isAtMark .braceL then
    openBracket
    setField field
    rules.expression
    closeBracket .braceR
  else
    missing (.token (.mark .braceL))
    setField field
    rules.expression

/-- The right side of a pattern match: a string is a pattern. -/
def pattern : Action Unit := do
  setField .right
  match ← peek with
  | .stringOpen dialect =>
    startNode .regexLiteral
    string rules dialect
    let _ ← finishNode
  | _ => rules.expression

/-- The comparison of a condition, if there is one. -/
def comparison : Action Unit := do
  match ← peek with
  | .mark .equalsEquals | .mark .bangEquals =>
    bump
    setField .right
    rules.expression
  | .mark .equalsTilde =>
    bump
    pattern rules
  | _ => return

/-- A condition: an expression, alone or compared with another. -/
def condition : Action Unit := do
  startNode .condition
  setField .left
  rules.expression
  comparison rules
  let _ ← finishNode

/-- A further branch of a conditional: one with a condition can be followed by another. -/
def elseStep (_ : Unit) : Action (Option Unit) := do
  if ← isKeywordAt 0 .elseWord then
    setField .alternative
    if ← isKeywordAt 1 .ifWord then
      startNode .elseIfClause
      bumpKeyword .elseWord
      bumpKeyword .ifWord
      condition rules
      braced rules .body
      let _ ← finishNode
      again
    else
      startNode .elseClause
      bumpKeyword .elseWord
      braced rules .body
      let _ ← finishNode
      done
  else done

/-- A conditional. -/
def ifExpression : Action Unit := do
  startNode .ifExpression
  bumpKeyword .ifWord
  condition rules
  braced rules .consequence
  loop (elseStep rules) rules.budget ()
  let _ ← finishNode

/-! ## Chains -/

/-- A conditional or a value. -/
def operand : Action Unit := do
  if ← isKeywordAt 0 .ifWord then ifExpression rules else value rules

/-- A further sign of a chain, with the number of those before it. The children behind the checkpoint
become one expression. -/
def chainStep (right? : Token.Kind → Option (Action Unit)) (checkpoint : Nat) (wraps : Nat) :
    Action (Option Nat) := do
  match right? (← peek) with
  | none => done
  | some operand =>
    if rules.limit ≤ (← get).depth then
      tooDeep rules
      done
    else
      startNodeAt checkpoint .expression (some .left)
      let _ ← finishNode
      deepen
      bump
      setField .right
      startNode .expression
      operand
      let _ ← finishNode
      return some (wraps + 1)

/-- A chain of operands that are joined by the signs with a right side. -/
def chain (right? : Token.Kind → Option (Action Unit)) : Action Unit := do
  let checkpoint ← checkpoint
  operand rules
  let wraps ← loop (chainStep rules right? checkpoint) rules.budget 0
  surface wraps

/-- What stands on the right of `/`: a single operand. -/
def factor : Action Unit := chain rules fun _ => none

/-- What stands on the right of `+`: operands joined by `/`. -/
def term : Action Unit :=
  chain rules fun
    | .mark .slash => some (factor rules)
    | _ => none

/-- Operands joined by `+` and `/`. -/
def sum : Action Unit :=
  chain rules fun
    | .mark .plus => some (term rules)
    | .mark .slash => some (factor rules)
    | _ => none

/-- An expression, with an optional `/` in front of it. Beyond the limit the rest of the construct
is wrapped instead. -/
def expression : Action Unit := do
  if rules.limit ≤ (← get).depth then tooDeep rules
  else
    deepen
    startNode .expression
    bumpIf (.mark .slash)
    sum rules
    let _ ← finishNode
    surface 1

/-- An expression in which as many others can be nested as the fuel allows. -/
def expressionAt (limit budget : Nat) : Nat → Action Unit
  | 0 => exhaust
  | fuel + 1 => expression ⟨limit, budget, expressionAt limit budget fuel⟩

/-- The rules for a limit on nested expressions and a budget. -/
def Rules.tie (limit budget : Nat) : Rules := ⟨limit, budget, expressionAt limit budget budget⟩

end Justfile.Parser
