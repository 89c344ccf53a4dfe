import Justfile.Dialect

/-!
# Measures of what a text starts with

Each function looks at the front of a text and says how many characters belong to one kind of
token there. They read nothing but the characters ahead, so the scanner is left with the choice
of the kind and with the bookkeeping between tokens.

Longer stretches (string contents, command contents, body text) are runs of units: `run` repeats
a unit until it refuses. A unit is one character, unless several belong together, as in an
escaped pair of braces.
-/

set_option autoImplicit false

namespace Justfile.Measure

/-! ## Lines and blanks -/

/-- The line break at the front: a line feed, or a carriage return before one. -/
def newline? : Text → Option Nat
  | '\n' :: _ => some 1
  | '\r' :: '\n' :: _ => some 2
  | _ => none

/-- Whether nothing but the end of the line or of the input stands at the front. -/
def atLineEnd (text : Text) : Bool := text.isEmpty || (newline? text).isSome

/-- The characters up to the end of the line. -/
def line : Text → Nat
  | [] => 0
  | c :: rest => if (newline? (c :: rest)).isSome then 0 else line rest + 1

/-- Whether the character is a space or a tab. -/
def isBlank (c : Char) : Bool := c == ' ' || c == '\t'

/-- The spaces and tabs at the front. -/
def indentation (text : Text) : Nat := (text.takeWhile isBlank).length

/-- The characters up to the next space or tab. -/
def word (text : Text) : Nat := (text.takeWhile (!isBlank ·)).length

/-- The blanks between two tokens: spaces, tabs, and carriage returns that end no line. -/
def blanks : Text → Nat
  | ' ' :: rest | '\t' :: rest => blanks rest + 1
  | '\r' :: '\n' :: _ => 0
  | '\r' :: rest => blanks rest + 1
  | _ => 0

/-- The blank lines at the front, given the characters counted so far and the blanks seen since
the last line break. Blanks in front of the end of the input belong to them, blanks in front of
other characters do not. -/
def blankLinesFrom (counted pending : Nat) : Text → Nat
  | [] => counted + pending
  | ' ' :: rest | '\t' :: rest => blankLinesFrom counted (pending + 1) rest
  | '\n' :: rest => blankLinesFrom (counted + pending + 1) 0 rest
  | '\r' :: '\n' :: rest => blankLinesFrom (counted + pending + 2) 0 rest
  | _ => counted

/-- The blank lines at the front. -/
def blankLines (text : Text) : Nat := blankLinesFrom 0 0 text

/-- A line that goes on: a backslash, blanks, and a line break. -/
def continuation? : Text → Option Nat
  | '\\' :: rest =>
    let width := indentation rest
    (newline? (rest.drop width)).map (1 + width + ·)
  | _ => none

/-! ## Names and numbers -/

/-- Whether an identifier can start with the character. -/
def startsIdentifier (c : Char) : Bool := c.isAlpha || c == '_'

/-- Whether an identifier can go on with the character. -/
def continuesIdentifier (c : Char) : Bool := c.isAlphanum || c == '_' || c == '-'

/-- The identifier at the front; zero when there is none. -/
def identifier : Text → Nat
  | [] => 0
  | c :: rest => if startsIdentifier c then (rest.takeWhile continuesIdentifier).length + 1 else 0

/-- The decimal digits at the front. -/
def digits (text : Text) : Nat := (text.takeWhile Char.isDigit).length

/-- The number at the front: digits, then a point and further digits, if any. -/
def number (text : Text) : Nat :=
  let whole := digits text
  match text.drop whole with
  -- The point is taken even if no digit follows.
  | '.' :: rest => whole + 1 + digits rest
  | _ => whole

/-! ## Pieces of literals and bodies -/

/-- The escape sequence at the front. -/
def escape? : Text → Option Nat
  | '\\' :: 'n' :: _ | '\\' :: 'r' :: _ | '\\' :: 't' :: _ | '\\' :: '"' :: _
  | '\\' :: '\\' :: _ | '\\' :: '\n' :: _ => some 2
  | '\\' :: '\r' :: '\n' :: _ => some 3
  | _ => none

/-- The signs at the start of a body line: `@`, `-`, or one of each. -/
def linePrefix? : Text → Option Nat
  | '@' :: '-' :: _ | '-' :: '@' :: _ => some 2
  | '@' :: _ | '-' :: _ => some 1
  | _ => none

/-- Whether the text starts with two opening braces that stand for themselves, each doubled. -/
def escapedBraces : Text → Bool
  | '\x7b' :: '\x7b' :: '\x7b' :: '\x7b' :: _ => true
  | _ => false

/-- Whether the text starts with two opening braces. -/
def doubleBrace : Text → Bool
  | '\x7b' :: '\x7b' :: _ => true
  | _ => false

/-- Whether an interpolation opens here. -/
def opensInterpolation (text : Text) : Bool := doubleBrace text && !escapedBraces text

/-- Repeats a unit until it refuses or the text ends; `skip` characters are still owed to the
last unit. -/
def runFrom (unit? : Text → Option Nat) : Nat → Text → Nat
  | _, [] => 0
  | skip + 1, _ :: rest => runFrom unit? skip rest + 1
  | 0, c :: rest =>
    match unit? (c :: rest) with
    | none => 0
    | some size => runFrom unit? (size - 1) rest + 1

/-- The run of units at the front. -/
def run (unit? : Text → Option Nat) (text : Text) : Nat := runFrom unit? 0 text

/-- One unit between the delimiters of a string. It refuses at the closing delimiter, at an escape
sequence, and where an interpolation opens. -/
def stringUnit? (d : Dialect) (text : Text) : Option Nat :=
  if d.closing.isPrefixOf text then none
  else if d.readsEscapes && text.head? == some '\\' then
    -- A backslash that starts no escape sequence stands for itself.
    if (escape? text).isSome then none else some 1
  else if d.isFormat && escapedBraces text then some 4
  else if d.isFormat && doubleBrace text then none
  else some 1

/-- The delimiter at the two ends of a command. -/
def commandDelimiter (indented : Bool) : Text := List.replicate (if indented then 3 else 1) '\x60'

/-- One unit between the delimiters of a command. -/
def commandUnit? (indented : Bool) (text : Text) : Option Nat :=
  if (commandDelimiter indented).isPrefixOf text then none
  else if escapedBraces text then some 4
  else if doubleBrace text then none
  else some 1

/-- A run of backslashes in body text. An odd one in front of a line break continues the text on
the next line, and then the break belongs to it. -/
def backslashes (text : Text) : Nat :=
  let count := (text.takeWhile (· == '\\')).length
  if count % 2 = 1 then
    match continuation? (text.drop (count - 1)) with
    | some size => count - 1 + size
    | none => count
  else count

/-- One unit of body text. It refuses at a line break and where an interpolation opens. -/
def bodyUnit? (text : Text) : Option Nat :=
  if (newline? text).isSome then none
  else if escapedBraces text then some 4
  else if doubleBrace text then none
  else if text.head? == some '\\' then some (backslashes text)
  else some 1

end Justfile.Measure
