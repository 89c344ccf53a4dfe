import Justfile.Grammar.File
import Justfile.Parser.Item

/-!
# Building files

The tree of a source, put together in one pass.
-/

set_option autoImplicit false

namespace Justfile.Parser

open Grammar (isAt budgetFor)

variable (rules : Rules)

/-- The shebang line of a file, if it has one. -/
def fileShebang : Action Unit := do
  if ← isAt .shebangStart then
    shebang rules
    lineEnd rules

/-- A further item of a file. -/
def fileStep (_ : Unit) : Action (Option Unit) := do
  if ← isAt .endOfInput then done
  else
    item rules
    again

/-- All of a file. -/
def file : Action Unit := do
  fileShebang rules
  loop (fileStep rules) rules.budget ()
  flushTrivia

/-- The parser before it reads a source: only the root is open. -/
def ofText (source : Text) : Parser where
  toState := .ofText source

/-- The rules that a source is read with. -/
abbrev rulesFor (limit : Nat) (source : Text) : Rules := .tie limit (budgetFor source.length)

/-- Reads a source: the parser behind it. -/
def run (limit : Nat) (source : Text) : Parser := (file (rulesFor limit source) (ofText source)).2

/-- The tree of a source, with a limit on nested expressions. -/
def tree (limit : Nat) (source : Text) : Tree :=
  let last := run limit source
  { source := source
    root := last.builder.root
    diagnostics := Report.diagnose source last.reports.reverse }

/-- The tokens that reading a source consumes, in order. -/
def tokens (source : Text) : List Token := (run defaultLimit source).consumed.reverse

end Justfile.Parser
