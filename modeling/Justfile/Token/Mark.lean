import Justfile.Text

/-!
# Punctuation marks

The signs of the language, and the longest one that a text starts with.
-/

set_option autoImplicit false

namespace Justfile

/-- A punctuation mark. -/
inductive Mark where
  | colonEquals | doubleColon | colon
  | equalsEquals | bangEquals | equalsTilde | equals
  | ampAmp
  | parenL | parenR | bracketL | bracketR | braceL | braceR
  | comma | plus | slash | star | atSign | dollar | question
  deriving DecidableEq, Repr

namespace Mark

/-- How the mark is written. -/
def name : Mark → String
  | colonEquals => ":="
  | doubleColon => "::"
  | colon => ":"
  | equalsEquals => "=="
  | bangEquals => "!="
  | equalsTilde => "=~"
  | equals => "="
  | ampAmp => "&&"
  | parenL => "("
  | parenR => ")"
  | bracketL => "["
  | bracketR => "]"
  | braceL => "\x7b"
  | braceR => "\x7d"
  | comma => ","
  | plus => "+"
  | slash => "/"
  | star => "*"
  | atSign => "@"
  | dollar => "$"
  | question => "?"

/-- Every mark. -/
def all : List Mark :=
  [colonEquals, doubleColon, colon, equalsEquals, bangEquals, equalsTilde, equals, ampAmp, parenL,
    parenR, bracketL, bracketR, braceL, braceR, comma, plus, slash, star, atSign, dollar, question]

/-- The number of characters of the mark. -/
def length : Mark → Nat
  | colonEquals | doubleColon | equalsEquals | bangEquals | equalsTilde | ampAmp => 2
  | _ => 1

/-- The longest mark that the text starts with. -/
def detect? : Text → Option Mark
  | ':' :: ':' :: _ => some doubleColon
  | ':' :: '=' :: _ => some colonEquals
  | ':' :: _ => some colon
  | '=' :: '=' :: _ => some equalsEquals
  | '=' :: '~' :: _ => some equalsTilde
  | '=' :: _ => some equals
  | '!' :: '=' :: _ => some bangEquals
  | '&' :: '&' :: _ => some ampAmp
  | '(' :: _ => some parenL
  | ')' :: _ => some parenR
  | '[' :: _ => some bracketL
  | ']' :: _ => some bracketR
  | '\x7b' :: _ => some braceL
  | '\x7d' :: _ => some braceR
  | ',' :: _ => some comma
  | '+' :: _ => some plus
  | '/' :: _ => some slash
  | '*' :: _ => some star
  | '@' :: _ => some atSign
  | '$' :: _ => some dollar
  | '?' :: _ => some question
  | _ => none

/-- The spelling of a mark has as many characters as `length` says. -/
theorem length_toList_name (m : Mark) : m.name.toList.length = m.length := by
  cases m <;> decide

/-- The spelling of a mark is detected as that mark. -/
theorem detect?_name (m : Mark) : detect? m.name.toList = some m := by
  cases m <;> decide

end Mark

end Justfile
