import Justfile.Dialect
import Justfile.Span
import Justfile.Token.Fault
import Justfile.Token.Keyword
import Justfile.Token.Mark

/-!
# Tokens

A token is a stretch of the source with a kind. Some kinds have no characters: the two ends of a
recipe body, the end of the input, and an unterminated literal at the very end.
-/

set_option autoImplicit false

namespace Justfile

namespace Token

/-- What a token is. -/
inductive Kind where
  /-- Spaces and tabs; also blank lines in front of a recipe body. -/
  | whitespace
  /-- From `#` to the end of the line. -/
  | comment
  /-- A backslash, blanks, and a line break. -/
  | lineContinuation
  | newline
  /-- A recipe body opens. -/
  | indent
  /-- A recipe body closes. -/
  | dedent
  | endOfInput
  /-- Recipe body text, as written. -/
  | text
  /-- `@`, `-` or both at the start of a body line. -/
  | linePrefix
  | stringOpen (dialect : Dialect)
  | stringContent
  | escapeSequence
  | stringClose (dialect : Dialect)
  | commandOpen (indented : Bool)
  | commandContent
  | commandClose (indented : Bool)
  | interpolationOpen
  | interpolationClose
  | identifier
  /-- A bare number, which is never a value. -/
  | number
  | keyword (word : Keyword)
  | mark (sign : Mark)
  /-- The `#!` of a shebang line. -/
  | shebangStart
  /-- The directory of the interpreter, up to its last `/`. -/
  | shebangPath
  /-- A flag given to `env`. -/
  | shebangFlag
  /-- The interpreter named by a shebang line. -/
  | language
  /-- The rest of a shebang line. -/
  | shebangRest
  /-- Characters that form no token. -/
  | errorRecovery (fault : Fault)
  deriving DecidableEq, Repr

namespace Kind

/-- A stable name: the spelling for delimiters, marks and keywords, a word otherwise. -/
def name : Kind → String
  | whitespace => "whitespace"
  | comment => "comment"
  | lineContinuation => "line_continuation"
  | newline => "newline"
  | indent => "indent"
  | dedent => "dedent"
  | endOfInput => "eof"
  | text => "text"
  | linePrefix => "recipe_line_prefix"
  | stringOpen dialect => Text.toString dialect.opening
  | stringContent => "string_content"
  | escapeSequence => "escape_sequence"
  | stringClose dialect => Text.toString dialect.closing
  | commandOpen indented | commandClose indented => if indented then "```" else "`"
  | commandContent => "command_content"
  | interpolationOpen => "\x7b\x7b"
  | interpolationClose => "\x7d\x7d"
  | identifier => "identifier"
  | number => "numeric_error"
  | keyword word => word.name
  | mark sign => sign.name
  | shebangStart => "#!"
  | shebangPath => "shebang_path"
  | shebangFlag => "shebang_flag"
  | language => "language"
  | shebangRest => "shebang_rest"
  | errorRecovery _ => "error_recovery"

/-- The kind in words, as messages show it. -/
def description : Kind → String
  | whitespace => "whitespace"
  | comment => "comment"
  | lineContinuation => "line continuation"
  | newline => "end of line"
  | indent => "indentation"
  | dedent => "end of recipe body"
  | endOfInput => "end of input"
  | text => "text"
  | linePrefix => "line prefix"
  | stringContent => "string content"
  | escapeSequence => "escape sequence"
  | commandContent => "command content"
  | identifier => "identifier"
  | number => "number"
  | shebangPath => "shebang path"
  | shebangFlag => "shebang flag"
  | language => "language"
  | shebangRest => "shebang rest"
  | errorRecovery fault => fault.message
  | kind => "'" ++ kind.name ++ "'"

/-- The kinds that are neither keywords nor faults; of two with one name the opening one is
first. -/
def ordinary : List Kind :=
  [whitespace, comment, lineContinuation, newline, indent, dedent, endOfInput, text, linePrefix] ++
  Dialect.all.map stringOpen ++ [stringContent, escapeSequence] ++ Dialect.all.map stringClose ++
  [commandOpen false, commandOpen true, commandContent, commandClose false, commandClose true,
    interpolationOpen, interpolationClose, identifier, number] ++
  Mark.all.map mark ++ [shebangStart, shebangPath, shebangFlag, language, shebangRest]

/-- The first ordinary kind with a name. -/
def ofName? (text : String) : Option Kind := ordinary.find? (·.name == text)

/-- Tokens that mean nothing to the grammar. -/
def isTrivia : Kind → Bool
  | whitespace | comment | lineContinuation => true
  | _ => false

/-- Whether a value can start with the token. -/
def startsValue : Kind → Bool
  | identifier | number | stringOpen _ | commandOpen _ | mark .parenL => true
  | _ => false

/-- Whether a value that should stand before the token is reported as missing, rather than the
token as misplaced. -/
def endsValue : Kind → Bool
  | newline | endOfInput | dedent | interpolationClose => true
  | mark sign =>
    match sign with
    | .parenR | .bracketR | .braceR | .braceL | .comma | .colon
    | .equalsEquals | .bangEquals | .equalsTilde => true
    | _ => false
  | _ => false

/-- Whether the token opens a string literal. -/
def isStringOpen : Kind → Bool
  | stringOpen _ => true
  | _ => false

/-- Whether the token holds characters that form no token. -/
def isErrorRecovery : Kind → Bool
  | errorRecovery _ => true
  | _ => false

end Kind

end Token

/-- A stretch of the source with its kind. -/
structure Token where
  kind : Token.Kind
  span : Span
  /-- The characters themselves. -/
  text : Text
  /-- The width that an `indent` opened, or that holds again after a `dedent`. -/
  indent : Option Nat := none
  deriving DecidableEq, Repr

end Justfile
