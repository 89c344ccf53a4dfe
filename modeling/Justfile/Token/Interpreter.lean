import Justfile.Token
import Justfile.Token.Measure

/-!
# Shebang lines

A line that starts with `#!` names an interpreter: a directory and a name, or a directory, `env`,
flags for it, and a name. The line is cut into pieces at once; a piece is a kind and a number of
characters.
-/

set_option autoImplicit false

namespace Justfile.Interpreter

/-- A kind and the number of its characters. -/
abbrev Piece := Token.Kind × Nat

/-- The blanks at the front, as a piece if there are any, and the text after them. -/
def blanks (text : Text) : List Piece × Text :=
  match Measure.indentation text with
  | 0 => ([], text)
  | width + 1 => ([(.whitespace, width + 1)], text.drop (width + 1))

/-- The flags at the front, each with the blanks after it, and the text after them. The first
argument bounds the number of flags. -/
def flags : Nat → Text → List Piece × Text
  | fuel + 1, '-' :: rest =>
    let size := Measure.word ('-' :: rest)
    let (space, after) := blanks (('-' :: rest).drop size)
    let (more, remaining) := flags fuel after
    ((.shebangFlag, size) :: space ++ more, remaining)
  | _, text => ([], text)

/-- The number of characters up to and including the last `/` of the first word. -/
def directory? (text : Text) : Option Nat :=
  match ((text.take (Measure.word text)).reverse.dropWhile (· != '/')).length with
  | 0 => none
  | size => some size

/-- What follows `env` after a directory: blanks, flags and the name, or nothing that is a name.
Without flags `env` itself is then the interpreter. -/
def afterEnv (text : Text) : Option (List Piece × Text) :=
  let (space, start) := blanks (text.drop 3)
  let (found, rest) := flags text.length start
  match Measure.identifier rest with
  | 0 => if found.isEmpty then some ([(.language, 3)], text.drop 3) else none
  | size + 1 =>
    some ((.keyword .envWord, 3) :: space ++ found ++ [(.language, size + 1)],
      rest.drop (size + 1))

/-- The pieces up to and including the name of the interpreter, and the text after it. -/
def name? (text : Text) : Option (List Piece × Text) := do
  let path ← directory? text
  let start := text.drop path
  let (found, rest) ←
    match Measure.identifier start with
    | 0 => none
    | size + 1 =>
      if start.take (size + 1) == Keyword.envWord.spelling then afterEnv start
      else some ([(.language, size + 1)], start.drop (size + 1))
  return ((.shebangPath, path) :: found, rest)

/-- The pieces of a shebang line after its `#!`. -/
def pieces (text : Text) : List Piece :=
  let (space, start) := blanks text
  let (found, rest) := (name? start).getD ([], start)
  space ++ found ++ (if rest.isEmpty then [] else [(.shebangRest, rest.length)])

end Justfile.Interpreter
