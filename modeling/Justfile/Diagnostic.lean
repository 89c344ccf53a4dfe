import Justfile.LineIndex
import Justfile.Token

/-!
# Diagnostics

A diagnostic says what is wrong, where, and on which line and column. Causes are data; their
wording is in `Cause.message` alone.
-/

set_option autoImplicit false

namespace Justfile

/-- What the grammar would have accepted at a place. -/
inductive Expected where
  /-- One particular token, shown by its spelling. -/
  | token (kind : Token.Kind)
  | variableName | aliasName | aliasTarget | importPath | moduleName | recipeName | parameterName
  | attributeName | attributeArgument | dependency | dependencyName
  | string | array | settingValue | expression
  | item | attributedItem | recipeLine | endOfLine
  deriving DecidableEq, Repr

namespace Expected

/-- The expectation in words. -/
def description : Expected → String
  | token kind => "'" ++ kind.name ++ "'"
  | variableName => "variable name"
  | aliasName => "alias name"
  | aliasTarget => "alias target"
  | importPath => "import path"
  | moduleName => "module name"
  | recipeName => "recipe name"
  | parameterName => "parameter name"
  | attributeName => "attribute name"
  | attributeArgument => "attribute argument"
  | dependency => "dependency"
  | dependencyName => "dependency name"
  | string => "string"
  | array => "array"
  | settingValue => "boolean, string or array"
  | expression => "expression"
  | item => "item"
  | attributedItem => "item after attributes"
  | recipeLine => "recipe line"
  | endOfLine => "end of line"

end Expected

/-- What stands at a place instead. -/
inductive Found where
  /-- An identifier, shown with its name. -/
  | name (text : Text)
  /-- A token of another kind. -/
  | token (kind : Token.Kind)
  deriving DecidableEq, Repr

namespace Found

/-- The description of a token that was found. -/
def ofToken (token : Token) : Found :=
  if token.kind = .identifier then name token.text else .token token.kind

/-- The finding in words. -/
def description : Found → String
  | name text => "identifier `" ++ text.toString ++ "`"
  | token kind => kind.description

end Found

/-- What is wrong. -/
inductive Cause where
  /-- The characters themselves. -/
  | lexical (fault : Fault)
  /-- A token that cannot go on here. -/
  | unexpected (expected : Expected) (found : Found)
  /-- A part that is not there. -/
  | missing (expected : Expected)
  /-- A bare number in the place of a value. -/
  | numberAsValue
  /-- A parameter after a variadic one. -/
  | misplacedVariadic
  /-- Expressions nested beyond the limit. -/
  | nestingTooDeep (limit : Nat)
  deriving DecidableEq, Repr

namespace Cause

/-- A stable code for the kind of cause. -/
def code : Cause → String
  | lexical fault => fault.code
  | unexpected .. => "unexpected_token"
  | missing _ => "missing_token"
  | numberAsValue => "numeric_literal_as_value"
  | misplacedVariadic => "misplaced_variadic"
  | nestingTooDeep _ => "nesting_too_deep"

/-- The cause in words. -/
def message : Cause → String
  | lexical fault => fault.message
  | unexpected expected found => "expected " ++ expected.description ++ ", found " ++ found.description
  | missing expected => "missing " ++ expected.description
  | numberAsValue => "numbers are not values, quote it as a string"
  | misplacedVariadic => "variadic parameter must be the last parameter"
  | nestingTooDeep limit => s!"expression nesting exceeds the limit of {limit}"

/-- Whether the characters themselves are at fault. -/
def isLexical : Cause → Bool
  | lexical _ => true
  | _ => false

end Cause

/-- A cause and the stretch of source it concerns. -/
structure Report where
  cause : Cause
  span : Span
  deriving DecidableEq, Repr

/-- A report with the position of its start. -/
structure Diagnostic where
  cause : Cause
  span : Span
  position : Position
  deriving DecidableEq, Repr

namespace Diagnostic

/-- The message with its place. -/
def render (d : Diagnostic) : String :=
  d.cause.message ++ s!" at line {d.position.line}, column {d.position.column}"

end Diagnostic

namespace Report

/-- Puts a report in front of the first one that does not start before it. -/
def insert (report : Report) : List Report → List Report
  | [] => [report]
  | other :: rest =>
    if report.span.start ≤ other.span.start then report :: other :: rest
    else other :: insert report rest

/-- The reports by the start of their spans; those with one start keep their order. -/
def sort : List Report → List Report
  | [] => []
  | report :: rest => insert report (sort rest)

/-- The diagnostics of reports: sorted, and each with the position of its start. -/
def diagnose (source : Text) (reports : List Report) : List Diagnostic :=
  let sorted := sort reports
  let positions := LineIndex.Reader.readAll (.ofText source) source {} (sorted.map (·.span.start))
  (sorted.zip positions).map fun (report, position) => ⟨report.cause, report.span, position⟩

end Report

end Justfile
