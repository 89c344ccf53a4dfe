import Justfile.Grammar.Recovery

/-!
# Expressions

An expression is a chain of operands. The sign `/` binds tighter than `+`, and both associate to
the left: each sign makes one expression of what stands before it. Conditionals and values are
operands.

Expressions nest through calls, parentheses, conditionals and interpolations. The nesting is
limited; so is the length of a chain, since each sign nests the operands before it. The productions
refer to a nested expression through `Rules.expression`, and `expressionAt` ties the knot on a
budget.
-/

set_option autoImplicit false

namespace Justfile.Grammar

/-- Whether an expression can start with the token. -/
def startsExpression (kind : Token.Kind) : Bool := kind.startsValue || kind == .mark .slash

/-- One expression more is around the current place. -/
def deepen : Parse Unit := modify fun s => { s with depth := s.depth + 1 }

/-- So many expressions are no longer around the current place. -/
def surface (count : Nat) : Parse Unit := modify fun s => { s with depth := s.depth - count }

variable (rules : Rules)

/-! ## Calls -/

/-- A further argument, with the comma in front of it. -/
def argumentStep (_ : Unit) : Parse (Forest × Option Unit) := do
  if ← isAtMark .comma then
    let comma ← bump
    if ← isAtMark .parenR then done comma
    else
      let argument ← rules.expression none
      again (comma ++ argument)
  else done []

/-- The arguments of a call. -/
def arguments : Parse Forest :=
  branch (some .arguments) .sequence do
    let first ← rules.expression none
    let more ← loop (argumentStep rules) rules.budget ()
    return first ++ more

/-- A name with arguments in parentheses. -/
def functionCall : Parse Forest :=
  branch none .functionCall do
    let name ← bump (some .name)
    let opened ← openBracket
    let inner ← if startsExpression (← peek) then arguments rules else pure []
    let closed ← closeBracket .parenR
    return name ++ opened ++ inner ++ closed

/-! ## Values -/

/-- An expression in parentheses. -/
def parenthesized : Parse Forest := do
  let opened ← openBracket
  let inner ← rules.expression none
  let closed ← closeBracket .parenR
  return opened ++ inner ++ closed

/-- A bare number, which is no value. -/
def bareNumber : Parse Forest := do
  let token ← peekToken 0
  let nodes ← bump
  report .numberAsValue token.span
  return nodes

/-- A value: a name, a call, a literal, or an expression in parentheses. -/
def value (field : Option Field) : Parse Forest := do
  match ← peek with
  | .identifier =>
    if (← peekAt 1) == .mark .parenL then branch field .value (functionCall rules)
    else branch field .value bump
  | .stringOpen dialect => branch field .value (string rules none dialect)
  | .commandOpen indented => branch field .value (command rules none indented)
  | .number => branch field .value bareNumber
  | .mark .parenL => branch field .value (parenthesized rules)
  | .errorRecovery _ => bump field
  | kind => if kind.endsValue then missing field .expression else errorToken rules field .expression

/-! ## Conditionals -/

/-- An expression in braces. When the opening brace is missing, no closing one is expected. -/
def braced (field : Field) : Parse Forest := do
  if ← isAtMark .braceL then
    let opened ← openBracket
    let inner ← rules.expression (some field)
    let closed ← closeBracket .braceR
    return opened ++ inner ++ closed
  else
    let opened ← missing none (.token (.mark .braceL))
    let inner ← rules.expression (some field)
    return opened ++ inner

/-- The right side of a pattern match: a string is a pattern. -/
def pattern : Parse Forest := do
  match ← peek with
  | .stringOpen dialect => branch (some .right) .regexLiteral (string rules none dialect)
  | _ => rules.expression (some .right)

/-- The comparison of a condition, if there is one. -/
def comparison : Parse Forest := do
  match ← peek with
  | .mark .equalsEquals | .mark .bangEquals =>
    let sign ← bump
    let right ← rules.expression (some .right)
    return sign ++ right
  | .mark .equalsTilde =>
    let sign ← bump
    let right ← pattern rules
    return sign ++ right
  | _ => return []

/-- A condition: an expression, alone or compared with another. -/
def condition : Parse Forest :=
  branch none .condition do
    let left ← rules.expression (some .left)
    let right ← comparison rules
    return left ++ right

/-- A further branch of a conditional: one with a condition can be followed by another. -/
def elseStep (_ : Unit) : Parse (Forest × Option Unit) := do
  if ← isKeywordAt 0 .elseWord then
    if ← isKeywordAt 1 .ifWord then
      again (← branch (some .alternative) .elseIfClause do
        let first ← bumpKeyword .elseWord
        let second ← bumpKeyword .ifWord
        let test ← condition rules
        let body ← braced rules .body
        return first ++ second ++ test ++ body)
    else
      done (← branch (some .alternative) .elseClause do
        let word ← bumpKeyword .elseWord
        let body ← braced rules .body
        return word ++ body)
  else done []

/-- A conditional. -/
def ifExpression : Parse Forest :=
  branch none .ifExpression do
    let word ← bumpKeyword .ifWord
    let test ← condition rules
    let body ← braced rules .consequence
    let more ← loop (elseStep rules) rules.budget ()
    return word ++ test ++ body ++ more

/-! ## Chains -/

/-- A conditional or a value. -/
def operand : Parse Forest := do
  if ← isKeywordAt 0 .ifWord then ifExpression rules else value rules none

/-- Goes on with a chain. What stands before a sign becomes one expression, which counts as nested in
the next one; what may stand after it depends on the sign. At its end the chain takes back what its
signs counted. -/
def chainFrom (right? : Token.Kind → Option (Parse Forest)) : Nat → Nat → Forest → Parse Forest
  | 0, wraps, nodes => do
    exhaust
    surface wraps
    return nodes
  | fuel + 1, wraps, nodes => do
    match right? (← peek) with
    | none =>
      surface wraps
      return nodes
    | some operand =>
      if rules.limit ≤ (← get).depth then
        let wrapped ← tooDeep rules none
        surface wraps
        return nodes ++ wrapped
      else
        let left := Node.branch (some .left) .expression nodes (← offset)
        deepen
        let sign ← bump
        let right ← branch (some .right) .expression operand
        chainFrom right? fuel (wraps + 1) (left :: sign ++ right)

/-- A chain of operands that are joined by the signs with a right side. -/
def chain (right? : Token.Kind → Option (Parse Forest)) : Parse Forest := do
  let before ← trivia
  let first ← operand rules
  let nodes ← chainFrom rules right? rules.budget 0 first
  return before ++ nodes

/-- What stands on the right of `/`: a single operand. -/
def factor : Parse Forest := chain rules fun _ => none

/-- What may stand behind the signs of a term. -/
def termRight? : Token.Kind → Option (Parse Forest)
  | .mark .slash => some (factor rules)
  | _ => none

theorem termRight?_eq_some {rules : Rules} {kind : Token.Kind} {right : Parse Forest}
    (h : termRight? rules kind = some right) : kind = .mark .slash ∧ right = factor rules := by
  unfold termRight? at h
  split at h
  · exact ⟨rfl, (Option.some.inj h).symm⟩
  · cases h

/-- What stands on the right of `+`: operands joined by `/`. -/
def term : Parse Forest := chain rules (termRight? rules)

/-- What may stand behind the signs of a sum. -/
def sumRight? : Token.Kind → Option (Parse Forest)
  | .mark .plus => some (term rules)
  | .mark .slash => some (factor rules)
  | _ => none

theorem sumRight?_eq_some {rules : Rules} {kind : Token.Kind} {right : Parse Forest}
    (h : sumRight? rules kind = some right) :
    (kind = .mark .plus ∧ right = term rules) ∨ (kind = .mark .slash ∧ right = factor rules) := by
  unfold sumRight? at h
  split at h
  · exact .inl ⟨rfl, (Option.some.inj h).symm⟩
  · exact .inr ⟨rfl, (Option.some.inj h).symm⟩
  · cases h

/-- Operands joined by `+` and `/`. -/
def sum : Parse Forest := chain rules (sumRight? rules)

/-- An expression, with an optional `/` in front of it. Beyond the limit the rest of the construct
is wrapped instead. -/
def expression (field : Option Field) : Parse Forest := do
  if rules.limit ≤ (← get).depth then tooDeep rules field
  else
    deepen
    let nodes ← branch field .expression do
      let root ← bumpIf (.mark .slash)
      let nodes ← sum rules
      return root ++ nodes
    surface 1
    return nodes

/-- An expression in which as many others can be nested as the fuel allows. -/
def expressionAt (limit budget : Nat) : Nat → Option Field → Parse Forest
  | 0, _ => do
    exhaust
    return []
  | fuel + 1, field => expression ⟨limit, budget, expressionAt limit budget fuel⟩ field

/-- The rules for a limit on nested expressions and a budget. -/
def Rules.tie (limit budget : Nat) : Rules := ⟨limit, budget, expressionAt limit budget budget⟩

end Justfile.Grammar
