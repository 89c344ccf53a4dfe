import Justfile.Directory
import Justfile.Json.Tree
import Justfile.Parser.File
import Justfile.Sexp

/-!
# Command line

The program reads files and shows their trees, their faults or their tokens. What it does is a
function of its arguments and of what the files hold; the result is an exit code and two texts.
-/

set_option autoImplicit false

namespace Justfile.Command

/-- What is to be shown of each file. -/
inductive Task where
  | parse | check | tokens
  deriving DecidableEq, Repr

/-- The task that a word stands for. -/
def Task.ofWord? : String → Option Task
  | "parse" => some .parse
  | "check" => some .check
  | "tokens" => some .tokens
  | _ => none

/-- What the program writes, and whether anything was wrong. -/
structure Output where
  stdout : String := ""
  stderr : String := ""
  failed : Bool := false
  deriving DecidableEq, Repr

/-- One output after another. -/
def Output.append (a b : Output) : Output :=
  ⟨a.stdout ++ b.stdout, a.stderr ++ b.stderr, a.failed || b.failed⟩

instance : Append Output := ⟨Output.append⟩

/-- What the program ends with. -/
structure Outcome where
  code : Nat
  stdout : String
  stderr : String
  deriving DecidableEq, Repr

/-- How the program is used. -/
def usage : String :=
  "Usage: justfile-cst <command> [--json] [files...]\n" ++
  "\n" ++
  "Commands:\n" ++
  "  parse   Print the syntax tree as an S-expression\n" ++
  "  check   Report syntax errors\n" ++
  "  tokens  Print the token stream\n" ++
  "\n" ++
  "Examples:\n" ++
  "  justfile-cst parse justfile\n" ++
  "  justfile-cst check --json justfile\n" ++
  "  RUST_LOG=debug justfile-cst tokens justfile\n"

/-- A diagnostic on a line of its own, behind the path of the file. -/
def diagnosticLine (path : String) (d : Diagnostic) : String :=
  path ++ ":" ++ d.position.render ++ ": " ++ d.cause.code ++ ": " ++ d.cause.message ++ "\n"

/-- All diagnostics of a tree. -/
def diagnosticLines (path : String) (tree : Tree) : String :=
  String.join (tree.diagnostics.map (diagnosticLine path))

/-- A token on a line of its own. -/
def tokenLine (token : Token) : String :=
  token.kind.name ++ " " ++ token.span.render ++ " " ++ Text.Quoted.text token.text ++ "\n"

/-- A value in the form with one entry on each line. -/
def jsonLines (value : Json) : String := value.pretty ++ "\n"

/-- What is shown of a file that could be read. -/
def showFile (task : Task) (asJson : Bool) (path : String) (source : Text) : Output :=
  match task with
  | .parse =>
    let tree := Parser.tree defaultLimit source
    let shown := if asJson then jsonLines tree.toJson else (Sexp.prettyOfTree tree).toString
    ⟨shown, diagnosticLines path tree, tree.hasErrors⟩
  | .check =>
    let tree := Parser.tree defaultLimit source
    if asJson then ⟨jsonLines (Diagnostic.listToJson tree.diagnostics), "", tree.hasErrors⟩
    else if tree.hasErrors then ⟨"", diagnosticLines path tree, true⟩
    else ⟨"", path ++ ": ok\n", false⟩
  | .tokens =>
    let tokens := Parser.tokens source
    if asJson then ⟨jsonLines (Token.listToJson tokens), "", false⟩
    else ⟨String.join (tokens.map tokenLine), "", false⟩

/-- What is shown of a file, or why it cannot be read. -/
def showPath (task : Task) (asJson : Bool) (read : String → Except ReadError Text)
    (path : String) : Output :=
  match read path with
  | .ok source => showFile task asJson path source
  | .error error => ⟨"", path ++ ": " ++ error.message ++ "\n", true⟩

/-- The flag for JSON. -/
def jsonFlag : String := "--json"

/-- The paths among the arguments after the task. -/
def paths (arguments : List String) : List String := arguments.filter (· != jsonFlag)

/-- Runs the program on its arguments. -/
def run (read : String → Except ReadError Text) : List String → Outcome
  | [] => ⟨2, "", usage⟩
  | word :: arguments =>
    if word = "--help" || word = "-h" then ⟨2, "", usage⟩
    else
      match Task.ofWord? word with
      | none => ⟨2, "", "Unknown command: " ++ word ++ "\n"⟩
      | some task =>
        match paths arguments with
        | [] => ⟨2, "", "Error: no files specified\n"⟩
        | files =>
          let asJson := arguments.contains jsonFlag
          let output := files.foldl (fun sum path => sum ++ showPath task asJson read path) {}
          ⟨if output.failed then 1 else 0, output.stdout, output.stderr⟩

end Justfile.Command
