import Justfile.Text

/-!
# Keywords

The words with a meaning of their own. They are ordinary identifiers to the scanner; the grammar
recognises them by their spelling where they can stand.
-/

set_option autoImplicit false

namespace Justfile

/-- A word with a meaning of its own. -/
inductive Keyword where
  | aliasWord | elseWord | envWord | exportWord | falseWord | ifWord | importWord | modWord
  | setWord | trueWord | unexportWord
  deriving DecidableEq, Repr

namespace Keyword

/-- The word itself. -/
def name : Keyword → String
  | aliasWord => "alias"
  | elseWord => "else"
  | envWord => "env"
  | exportWord => "export"
  | falseWord => "false"
  | ifWord => "if"
  | importWord => "import"
  | modWord => "mod"
  | setWord => "set"
  | trueWord => "true"
  | unexportWord => "unexport"

/-- Every keyword. -/
def all : List Keyword :=
  [aliasWord, elseWord, envWord, exportWord, falseWord, ifWord, importWord, modWord, setWord,
    trueWord, unexportWord]

/-- The keyword with a spelling. -/
def ofName? (text : String) : Option Keyword := all.find? (·.name == text)

/-- The word as it stands in a source. -/
def spelling (k : Keyword) : Text := k.name.toList

end Keyword

end Justfile
