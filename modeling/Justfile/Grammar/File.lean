import Justfile.Grammar.Item

/-!
# Files

Reading a source gives a tree for any text at all. What is wrong with the text shows in the tree,
as error nodes, and beside it, as diagnostics.
-/

set_option autoImplicit false

namespace Justfile

namespace Grammar

variable (rules : Rules)

/-- The shebang line of a file, if it has one. -/
def fileShebang : Parse Forest := do
  if ← isAt .shebangStart then
    let line ← shebang rules none
    let ending ← lineEnd rules
    return line ++ ending
  else return []

/-- A further item of a file. -/
def fileStep (_ : Unit) : Parse (Forest × Option Unit) := do
  if ← isAt .endOfInput then done [] else again (← item rules)

/-- All of a file. -/
def file : Parse Forest := do
  let first ← fileShebang rules
  let items ← loop (fileStep rules) rules.budget ()
  let last ← trivia
  return first ++ items ++ last

/-- A budget that no loop on a source of the length uses up. -/
def budgetFor (length : Nat) : Nat := 8 * (length + 1)

/-- The state before reading a source. -/
def State.ofText (source : Text) : State where
  stream := .ofText source

/-- Reads a source: the nodes of the file, and the state after it. -/
def run (limit : Nat) (source : Text) : Forest × State :=
  (file (.tie limit (budgetFor source.length))).run (.ofText source)

end Grammar

/-- The limit on nested expressions, unless another is asked for. -/
def defaultLimit : Nat := 256

/-- The tree of a source, with a limit on nested expressions. -/
def parse (limit : Nat) (source : Text) : Tree :=
  let result := Grammar.run limit source
  { source := source
    root := .branch none .sourceFile result.1 result.2.stream.offset
    diagnostics := Report.diagnose source result.2.reports.reverse }

/-- A tree keeps its source. -/
@[simp] theorem source_parse (limit : Nat) (source : Text) :
    (parse limit source).source = source := rfl

/-- The root of every tree is a file. -/
@[simp] theorem kind_root_parse (limit : Nat) (source : Text) :
    (parse limit source).root.kind = .sourceFile := rfl

/-- The tokens that reading a source consumes, in order. -/
def tokenize (source : Text) : List Token :=
  (Grammar.run defaultLimit source).2.consumed.reverse

/-- The tree of a source that is free of faults, or the first thing that is wrong with it. -/
def parseStrict (source : Text) : Except Diagnostic Tree :=
  let tree := parse defaultLimit source
  match tree.diagnostics with
  | [] => .ok tree
  | first :: _ => .error first

end Justfile
