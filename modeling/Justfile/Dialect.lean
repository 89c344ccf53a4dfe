import Justfile.Text

/-!
# String dialects

A string literal is written in one of twelve dialects: an optional letter in front (`x` for shell
expansion, `f` for interpolation), one of two quotes, and one quote or three at each end. The
dialect decides which escapes and interpolations its contents have.
-/

set_option autoImplicit false

namespace Justfile

/-- The letter in front of the opening quote. -/
inductive Letter where
  /-- No letter. -/
  | plain
  /-- The letter `x`: the value is expanded by the shell. -/
  | shell
  /-- The letter `f`: the contents may hold interpolations. -/
  | format
  deriving DecidableEq, Repr

/-- The quote around a string literal. -/
inductive Quote where
  /-- Escape sequences are read. -/
  | double
  /-- The contents are taken as written. -/
  | single
  deriving DecidableEq, Repr

namespace Letter

/-- How the letter is written. -/
def text : Letter → Text
  | plain => []
  | shell => ['x']
  | format => ['f']

end Letter

namespace Quote

/-- The quote itself. -/
def char : Quote → Char
  | double => '"'
  | single => '\''

end Quote

/-- One of the twelve ways to write a string literal. -/
structure Dialect where
  letter : Letter
  quote : Quote
  /-- Whether the quote is written three times at each end. -/
  indented : Bool
  deriving DecidableEq, Repr

namespace Dialect

/-- The twelve dialects. -/
def all : List Dialect :=
  [Letter.plain, .shell, .format].flatMap fun letter =>
    [Quote.double, .single].flatMap fun quote => [⟨letter, quote, false⟩, ⟨letter, quote, true⟩]

/-- Escape sequences are read between double quotes only. -/
def readsEscapes (d : Dialect) : Bool := d.quote == .double

/-- Interpolations are read in format strings only. -/
def isFormat (d : Dialect) : Bool := d.letter == .format

/-- Whether the value is expanded by the shell. -/
def isShell (d : Dialect) : Bool := d.letter == .shell

/-- Whether the contents are taken as written. -/
def isRaw (d : Dialect) : Bool := d.quote == .single

/-- The closing delimiter: the quote, once or three times. -/
def closing (d : Dialect) : Text := List.replicate (if d.indented then 3 else 1) d.quote.char

/-- The opening delimiter: the letter, then the quote as at the end. -/
def opening (d : Dialect) : Text := d.letter.text ++ d.closing

/-- The dialect that a text starts with, apart from its letter. -/
def ofQuotes? (letter : Letter) : Text → Option Dialect
  | '"' :: '"' :: '"' :: _ => some ⟨letter, .double, true⟩
  | '"' :: _ => some ⟨letter, .double, false⟩
  | '\'' :: '\'' :: '\'' :: _ => some ⟨letter, .single, true⟩
  | '\'' :: _ => some ⟨letter, .single, false⟩
  | _ => none

/-- The dialect whose opening delimiter starts the text, three quotes before one. -/
def detect? : Text → Option Dialect
  | 'x' :: rest => ofQuotes? .shell rest
  | 'f' :: rest => ofQuotes? .format rest
  | text => ofQuotes? .plain text

/-- Every opening delimiter announces its own dialect. -/
theorem detect?_opening (d : Dialect) : detect? d.opening = some d := by
  obtain ⟨letter, quote, indented⟩ := d
  cases letter <;> cases quote <;> cases indented <;> rfl

/-- No dialect is left out. -/
theorem mem_all (d : Dialect) : d ∈ all := by
  obtain ⟨letter, quote, indented⟩ := d
  cases letter <;> cases quote <;> cases indented <;> decide

end Dialect

end Justfile
