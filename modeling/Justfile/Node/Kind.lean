import Justfile.Token

/-!
# Node kinds

A named kind carries a meaning of the grammar. The other kinds are those of tokens that have no
name of their own, and are called by their spelling.
-/

set_option autoImplicit false

namespace Justfile.Node

/-- What a node is. -/
inductive Kind where
  | sourceFile | shebang | language
  | aliasItem | assignment | exportItem | unexportItem | importItem | moduleItem | modulePath
  | setting | boolean | array
  | recipe | recipeHeader | parameters | parameter | variadicParameter
  | dependencies | dependency | dependencyExpression
  | recipeBody | recipeLine | recipeLinePrefix | text
  | attributeGroup | attributeFlag | attributeCall | attributeKeyValue | attributeNamedParam
  | expression | ifExpression | elseIfClause | elseClause | condition | regexLiteral
  | value | functionCall | sequence | externalCommand | commandBody
  | string | formatString | escapeSequence | interpolation
  | identifier | comment | numericError | errorRecovery
  /-- Tokens that fit nowhere, wrapped. -/
  | error
  /-- A part that should be here and is not. -/
  | missing
  /-- A token without a named kind. -/
  | token (kind : Token.Kind)
  deriving DecidableEq, Repr

namespace Kind

/-- A stable name. -/
def name : Kind → String
  | sourceFile => "source_file"
  | shebang => "shebang"
  | language => "language"
  | aliasItem => "alias"
  | assignment => "assignment"
  | exportItem => "export"
  | unexportItem => "unexport"
  | importItem => "import"
  | moduleItem => "module"
  | modulePath => "module_path"
  | setting => "setting"
  | boolean => "boolean"
  | array => "array"
  | recipe => "recipe"
  | recipeHeader => "recipe_header"
  | parameters => "parameters"
  | parameter => "parameter"
  | variadicParameter => "variadic_parameter"
  | dependencies => "dependencies"
  | dependency => "dependency"
  | dependencyExpression => "dependency_expression"
  | recipeBody => "recipe_body"
  | recipeLine => "recipe_line"
  | recipeLinePrefix => "recipe_line_prefix"
  | text => "text"
  | attributeGroup => "attribute"
  | attributeFlag => "attribute_flag"
  | attributeCall => "attribute_call"
  | attributeKeyValue => "attribute_key_value"
  | attributeNamedParam => "attribute_named_param"
  | expression => "expression"
  | ifExpression => "if_expression"
  | elseIfClause => "else_if_clause"
  | elseClause => "else_clause"
  | condition => "condition"
  | regexLiteral => "regex_literal"
  | value => "value"
  | functionCall => "function_call"
  | sequence => "sequence"
  | externalCommand => "external_command"
  | commandBody => "command_body"
  | string => "string"
  | formatString => "format_string"
  | escapeSequence => "escape_sequence"
  | interpolation => "interpolation"
  | identifier => "identifier"
  | comment => "comment"
  | numericError => "numeric_error"
  | errorRecovery => "error_recovery"
  | error => "ERROR"
  | missing => "MISSING"
  | token kind => kind.name

/-- The kind of the leaf that holds a token. -/
def ofToken : Token.Kind → Kind
  | .identifier => identifier
  | .comment => comment
  | .text => text
  | .linePrefix => recipeLinePrefix
  | .escapeSequence => escapeSequence
  | .language => language
  | .number => numericError
  | .errorRecovery _ => errorRecovery
  | kind => token kind

/-- Whether the kind carries a meaning of the grammar. -/
def isNamed : Kind → Bool
  | token _ => false
  | _ => true

/-- Whether the kind marks a fault. -/
def isError : Kind → Bool
  | error | missing | errorRecovery => true
  | _ => false

/-- Whether the kind means nothing to the grammar. -/
def isTrivia : Kind → Bool
  | comment => true
  | token kind => kind.isTrivia
  | _ => false

/-- Every named kind. -/
def named : List Kind :=
  [sourceFile, shebang, language, aliasItem, assignment, exportItem, unexportItem, importItem,
    moduleItem, modulePath, setting, boolean, array, recipe, recipeHeader, parameters, parameter,
    variadicParameter, dependencies, dependency, dependencyExpression, recipeBody, recipeLine,
    recipeLinePrefix, text, attributeGroup, attributeFlag, attributeCall, attributeKeyValue,
    attributeNamedParam, expression, ifExpression, elseIfClause, elseClause, condition,
    regexLiteral, value, functionCall, sequence, externalCommand, commandBody, string,
    formatString, escapeSequence, interpolation, identifier, comment, numericError, errorRecovery,
    error, missing]

/-- The kind with a name: a named one if there is one, otherwise that of a token. -/
def ofName? (text : String) : Option Kind :=
  (named.find? (·.name == text)).or ((Token.Kind.ofName? text).map token)

end Kind

end Justfile.Node
