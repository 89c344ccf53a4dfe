import Justfile.Text.Extending
import Justfile.Text.Printable

/-!
# Quoted text

Characters and texts are quoted for messages and listings. A backslash, the quote in use, and
the four common control characters get a two-character escape; a character that is unprintable
or joins its neighbour is written by its code point in hexadecimal; all others stand for
themselves.
-/

set_option autoImplicit false

namespace Justfile.Text.Quoted

/-- The code point escape, in lower-case hexadecimal without leading zeros. -/
def codePoint (c : Char) : Text :=
  ['\\', 'u', '\x7b'] ++ Nat.toDigits 16 c.toNat ++ ['\x7d']

/-- One character inside the given quote. -/
def escape (quote c : Char) : Text :=
  if c = '\x00' then ['\\', '0']
  else if c = '\t' then ['\\', 't']
  else if c = '\r' then ['\\', 'r']
  else if c = '\n' then ['\\', 'n']
  else if c = '\\' || c = quote then ['\\', c]
  else if isExtending c || !isPrintable c then codePoint c
  else [c]

/-- A character between single quotes. -/
def char (c : Char) : String := toString ('\'' :: escape '\'' c ++ ['\''])

/-- A text between double quotes. -/
def text (t : Text) : String := toString ('"' :: t.flatMap (escape '"') ++ ['"'])

end Justfile.Text.Quoted
