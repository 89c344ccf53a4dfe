import Justfile.Span

/-!
# Line index

The offsets at which the lines of a text start, and the two conversions they give: from an offset
to a line and column, and back. Columns count characters.

An index may be used on another text than the one it was made from. It then answers as well as it
can: a line start that is no character boundary of the text has no columns after it.
-/

set_option autoImplicit false

namespace Justfile

/-- The offsets of the line starts, in ascending order. -/
structure LineIndex where
  starts : List Nat
  deriving DecidableEq, Repr

namespace LineIndex

/-- The offsets just after each line feed of a text that begins at `offset`. -/
def startsFrom (offset : Nat) : Text → List Nat
  | [] => []
  | c :: rest =>
    if c = '\n' then (offset + 1) :: startsFrom (offset + 1) rest
    else startsFrom (offset + c.utf8Size) rest

/-- The index of a text: its first line starts at zero, the others after a line feed. -/
def ofText (text : Text) : LineIndex := ⟨0 :: startsFrom 0 text⟩

/-- The number of lines. -/
def lineCount (index : LineIndex) : Nat := index.starts.length

/-- The line of an offset, counted from zero: the last line that starts at or before it. -/
def lineOf (index : LineIndex) (offset : Nat) : Nat :=
  (index.starts.takeWhile (· ≤ offset)).length - 1

/-- The byte offset of a position. There is none when the line does not exist or the column lies
beyond the end of the line; the place just after the last character is allowed, and a carriage
return at the end of the line does not belong to it. -/
def offset? (index : LineIndex) (text : Text) (position : Position) : Option Nat :=
  match position.line, position.column with
  | line + 1, column + 1 => do
    let start ← index.starts[line]?
    let stop := match index.starts[line + 1]? with
      | some next => next - 1
      | none => text.byteSize
    let whole ← text.slice? start stop
    let visible := (whole.dropTail? ['\r']).getD whole
    if column ≤ visible.length then some (start + Text.byteSize (visible.take column)) else none
  | _, _ => none

/-- The place where the last conversion stopped: line, byte offset and column, each counted from
zero. -/
structure Reader where
  line : Nat := 0
  byte : Nat := 0
  column : Nat := 0
  deriving DecidableEq, Repr

namespace Reader

/-- Steps over characters until the target offset is reached or passed. -/
def walk (target : Nat) : Nat → Nat → Text → Nat × Nat
  | byte, column, [] => (byte, column)
  | byte, column, c :: rest =>
    if target ≤ byte then (byte, column) else walk target (byte + c.utf8Size) (column + 1) rest

/-- The position of an offset, read on from where the reader stands. It starts again at the line
start when the line changes or the offset lies behind it. -/
def read (index : LineIndex) (text : Text) (reader : Reader) (offset : Nat) : Position × Reader :=
  let target := min offset text.byteSize
  let line := index.lineOf target
  let start : Reader :=
    if line ≠ reader.line || target < reader.byte then ⟨line, (index.starts[line]?).getD 0, 0⟩
    else reader
  let (byte, column) := walk target start.byte start.column ((text.dropBytes? start.byte).getD [])
  (⟨start.line + 1, column + 1⟩, ⟨start.line, byte, column⟩)

/-- The positions of several offsets, read one after the other. -/
def readAll (index : LineIndex) (text : Text) : Reader → List Nat → List Position
  | _, [] => []
  | reader, offset :: offsets =>
    let (position, next) := reader.read index text offset
    position :: readAll index text next offsets

end Reader

/-- The position of an offset. An offset beyond the end counts as the end, and one inside a
character as the place just after that character. -/
def position (index : LineIndex) (text : Text) (offset : Nat) : Position :=
  (Reader.read index text {} offset).1

end LineIndex

end Justfile
