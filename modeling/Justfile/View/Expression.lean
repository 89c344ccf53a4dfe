import Justfile.View

/-!
# Views of expressions

One level of an expression at a time: its shape shows the parts, and those are views again.
-/

set_option autoImplicit false

namespace Justfile

/-! ## Expressions -/

/-- The sign between two operands. -/
inductive Operator where
  /-- The sign `+`. -/
  | concatenate
  /-- The sign `/`. -/
  | join
  deriving DecidableEq, Repr

/-- What an expression is. -/
inductive Expression.Shape where
  | binary (left : Expression) (operator : Operator) (right : Option Expression)
  | conditional (inner : Conditional)
  | value (inner : Value)
  /-- A fault took the place of the expression. -/
  | invalid

namespace Expression

/-- The operand that an expression consists of. -/
def operandOf (c : Cursor) : Option Shape :=
  ((View.of? [.value] c).map .value).or ((View.of? [.ifExpression] c).map .conditional)

/-- What the expression is: two operands if it has a left side, otherwise its only one. -/
def shape (e : Expression) : Shape :=
  match e.cursor.viewByField? .left [.expression] with
  | some left =>
    let operator := if e.cursor.hasToken (.mark .plus) then .concatenate else .join
    .binary left operator (e.cursor.viewByField? .right [.expression])
  | none => (e.cursor.namedChildren.findSome? operandOf).getD .invalid

/-- Whether a `/` stands in front, which makes the path absolute. -/
def isRooted (e : Expression) : Bool :=
  match e.cursor.children.find? (!·.kind.isTrivia) with
  | some first => first.kind == .token (.mark .slash)
  | none => false

end Expression

/-! ## Values -/

/-- What a value is. -/
inductive Value.Shape where
  | reference (name : Text)
  | string (literal : StringLiteral)
  | command (literal : CommandLiteral)
  | call (inner : FunctionCall)
  | parenthesized (inner : Expression)
  /-- A bare number, or another fault. -/
  | invalid

namespace Value

/-- The part that decides what a value is. -/
def partOf (c : Cursor) : Option Shape :=
  if c.kind = .identifier then some (.reference c.text)
  else
    ((View.of? [.string] c).map .string).or
      (((View.of? [.externalCommand] c).map .command).or
        (((View.of? [.functionCall] c).map .call).or
          ((View.of? [.expression] c).map .parenthesized)))

/-- What the value is. -/
def shape (v : Value) : Shape := (v.cursor.namedChildren.findSome? partOf).getD .invalid

end Value

namespace FunctionCall

/-- The name of the function. -/
def name? (f : FunctionCall) : Option Text := f.cursor.nameByField? .name

/-- The arguments. -/
def arguments (f : FunctionCall) : List Expression :=
  match f.cursor.childByField? .arguments with
  | some sequence => sequence.views [.expression]
  | none => []

end FunctionCall

/-! ## Conditionals -/

namespace Conditional

/-- The condition. -/
def condition? (i : Conditional) : Option Condition := i.cursor.view? [.condition]

/-- The value if the condition holds. -/
def consequence? (i : Conditional) : Option Expression :=
  i.cursor.viewByField? .consequence [.expression]

/-- The further conditions with their values. -/
def elseIfs (i : Conditional) : List (Option Condition × Option Expression) :=
  (i.cursor.childrenOfKind .elseIfClause).map fun clause =>
    (clause.view? [.condition], clause.viewByField? .body [.expression])

/-- The value if no condition holds. -/
def otherwise? (i : Conditional) : Option Expression :=
  (i.cursor.childOfKind? .elseClause).bind (·.viewByField? .body [.expression])

end Conditional

/-- How the two sides of a condition are compared. -/
inductive Comparison where
  | equals | notEquals | matchesPattern
  deriving DecidableEq, Repr

namespace Comparison

/-- The comparison that a node stands for. -/
def ofKind? : Node.Kind → Option Comparison
  | .token (.mark .equalsEquals) => some .equals
  | .token (.mark .bangEquals) => some .notEquals
  | .token (.mark .equalsTilde) => some .matchesPattern
  | _ => none

end Comparison

namespace Condition

/-- The left side. -/
def left? (c : Condition) : Option Expression := c.cursor.viewByField? .left [.expression]

/-- How the sides are compared; an expression alone is compared with nothing. -/
def comparison? (c : Condition) : Option Comparison :=
  c.cursor.children.findSome? (Comparison.ofKind? ·.kind)

/-- The right side, if it is an expression. -/
def right? (c : Condition) : Option Expression := c.cursor.viewByField? .right [.expression]

/-- The right side, if it is a pattern. -/
def pattern? (c : Condition) : Option StringLiteral :=
  (c.cursor.viewByField? .right [.regexLiteral]).bind (·.cursor.view? [.string])

end Condition

end Justfile
