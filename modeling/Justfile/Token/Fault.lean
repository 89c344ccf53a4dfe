import Justfile.Text.Quoted

/-!
# Lexical faults

What can be wrong with the characters themselves, before any grammar is applied.
-/

set_option autoImplicit false

namespace Justfile

/-- What is wrong with a stretch of characters. -/
inductive Fault where
  /-- A string literal runs into the end of the input. -/
  | unterminatedString
  /-- A backtick command runs into the end of the input. -/
  | unterminatedCommand
  /-- A body line falls back to a width that no enclosing level has: the width of the body that
  is left, of the level it fell back to, and of the line. -/
  | dedentMismatch (body enclosing found : Nat)
  /-- A character that starts no token. -/
  | unexpectedCharacter (c : Char)
  deriving DecidableEq, Repr

namespace Fault

/-- A stable code for the kind of fault. -/
def code : Fault → String
  | unterminatedString => "unterminated_string"
  | unterminatedCommand => "unterminated_command"
  | dedentMismatch .. => "dedent_mismatch"
  | unexpectedCharacter _ => "unexpected_character"

/-- The fault in words. -/
def message : Fault → String
  | unterminatedString => "unterminated string literal"
  | unterminatedCommand => "unterminated backtick command"
  | dedentMismatch body enclosing found =>
    s!"inconsistent indentation: found width {found}, expected {body} or {enclosing}"
  | unexpectedCharacter c => "unexpected character: " ++ Text.Quoted.char c

end Fault

end Justfile
