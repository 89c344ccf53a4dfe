import Justfile.Text.Space
import Justfile.View

/-!
# Views of literals

Shebang lines, strings and backtick commands.
-/

set_option autoImplicit false

namespace Justfile

namespace ShebangLine

/-- The interpreter that the line names. -/
def language? (s : ShebangLine) : Option Text := (s.cursor.childOfKind? .language).map (·.text)

/-- What follows `#!`, without white space at its ends. -/
def command (s : ShebangLine) : Text :=
  match s.text with
  | '#' :: '!' :: rest => Text.trim rest
  | text => Text.trim text

end ShebangLine

namespace Interpolation

/-- The expression between the braces. -/
def expression? (i : Interpolation) : Option Expression := i.cursor.view? [.expression]

end Interpolation

namespace StringLiteral

/-- The dialect, by the opening delimiter. -/
def dialect? (s : StringLiteral) : Option Dialect := Dialect.detect? s.text

/-- Whether nothing inside the literal ran into the end of the input. -/
def isTerminated (s : StringLiteral) : Bool :=
  !s.cursor.descendants.any (·.kind == .errorRecovery)

/-- What stands between the delimiters, as written. -/
def contents (s : StringLiteral) : Text :=
  match s.dialect? with
  | none => s.text
  | some dialect =>
    let inner : Text := s.text.drop dialect.opening.length
    if s.isTerminated then (inner.dropTail? dialect.closing).getD inner else inner

/-- The interpolations among the contents. -/
def interpolations (s : StringLiteral) : List Interpolation :=
  ((s.cursor.childOfKind? .formatString).getD s.cursor).views [.interpolation]

end StringLiteral

namespace CommandLiteral

/-- Whether three backticks are written at each end. -/
def isIndented (c : CommandLiteral) : Bool := List.isPrefixOf ['\x60', '\x60', '\x60'] c.text

/-- What stands between the delimiters, as written. -/
def contents (c : CommandLiteral) : Text :=
  match c.cursor.childOfKind? .commandBody with
  | some body => body.text
  | none => []

/-- The interpolations among the contents. -/
def interpolations (c : CommandLiteral) : List Interpolation :=
  match c.cursor.childOfKind? .commandBody with
  | some body => body.views [.interpolation]
  | none => []

end CommandLiteral

end Justfile
