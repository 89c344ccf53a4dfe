import Justfile.Token.Stream

/-!
# Token buffer

The stream with a memory. Tokens are scanned when they are first asked for and wait in a buffer
until they are consumed, so a look at them costs one scan only. Each of them keeps the scanner it
was scanned from: a change of mode drops the buffer and goes back to the scanner of its first token,
which is then read again.

An operation that would reach past the buffer, or run out of the steps that bound its search, has no
result.
-/

set_option autoImplicit false

namespace Justfile

/-- A token that is scanned and not consumed, and the scanner in front of it. -/
structure Buffered where
  token : Token
  before : Scanner
  deriving DecidableEq, Repr

/-- A stream with the tokens that are scanned ahead of it. -/
structure BufferedStream where
  /-- The stream behind the last token of the buffer. -/
  behind : Stream
  buffer : List Buffered := []
  deriving DecidableEq, Repr

namespace BufferedStream

/-- A stream at the start of a source; nothing is scanned yet. -/
def ofText (source : Text) : BufferedStream where
  behind := .ofText source

/-- The scanner in front of the first token that is not consumed. -/
def front (b : BufferedStream) : Scanner := b.buffer.head?.elim b.behind.scanner Buffered.before

/-- Scans one token into the buffer. -/
def scan (b : BufferedStream) : BufferedStream :=
  let (token, after) := b.behind.scanner.next b.behind.mode
  { behind := { b.behind with scanner := after }
    buffer := b.buffer ++ [⟨token, b.behind.scanner⟩] }

/-- Whether the buffer ends with the end of the input, behind which nothing is scanned. -/
def isComplete (b : BufferedStream) : Bool :=
  b.buffer.getLast?.any (·.token.kind == .endOfInput)

/-- Scans the given number of tokens; the answer says whether there are as many. -/
def fillBy (b : BufferedStream) : Nat → Bool × BufferedStream
  | 0 => (true, b)
  | count + 1 => if b.isComplete then (false, b) else b.scan.fillBy count

/-- Scans until the buffer has the given length; the answer says whether it has. -/
def fill (b : BufferedStream) (length : Nat) : Bool × BufferedStream :=
  b.fillBy (length - b.buffer.length)

/-- The place in the buffer of the significant token with `n` others before it, from the place
`index` on. -/
def seek (b : BufferedStream) (n index : Nat) : Nat → Option (Nat × BufferedStream)
  | 0 => none
  | fuel + 1 =>
    match b.fill (index + 1) with
    -- Nothing follows the end of the input, so it answers for every later place.
    | (false, b) => some (b.buffer.length - 1, b)
    | (true, b) => do
      let entry ← b.buffer[index]?
      if entry.token.kind = .endOfInput then some (index, b)
      else if b.behind.isTrivia entry.token.kind then b.seek n (index + 1) fuel
      else
        match n with
        | 0 => some (index, b)
        | n + 1 => b.seek n (index + 1) fuel

/-- The place in the buffer of the significant token with `n` others before it. A piece of trivia
has a character, so what is left of the text bounds their number. -/
def significantIndex (b : BufferedStream) (n : Nat) : Option (Nat × BufferedStream) :=
  b.seek n 0 (n + b.front.rest.length + 1)

/-- The significant token with the given number of others before it. -/
def nth (b : BufferedStream) (n : Nat) : Option (Token × BufferedStream) := do
  let (index, b) ← b.significantIndex n
  let entry ← b.buffer[index]?
  some (entry.token, b)

/-- Consumes the trivia in front of the next significant token. -/
def takeTrivia (b : BufferedStream) : Option (List Token × BufferedStream) := do
  let (index, b) ← b.significantIndex 0
  some ((b.buffer.take index).map Buffered.token, { b with buffer := b.buffer.drop index })

/-- Consumes the next significant token and the trivia before it. The end of the input stays in the
buffer. -/
def bump (b : BufferedStream) : Option (List Token × Token × BufferedStream) := do
  let (trivia, b) ← b.takeTrivia
  match b.buffer with
  | [] => none
  | entry :: rest =>
    if entry.token.kind = .endOfInput then some (trivia, entry.token, b)
    else some (trivia, entry.token, { b with buffer := rest })

/-- Whether the next two tokens are of the two kinds, with nothing between them. -/
def atGlued (b : BufferedStream) (first second : Token.Kind) : Option (Bool × BufferedStream) := do
  let (index, b) ← b.significantIndex 0
  let entry ← b.buffer[index]?
  if entry.token.kind ≠ first then some (false, b)
  else
    match b.fill (index + 2) with
    | (false, b) => some (false, b)
    | (true, b) => do
      let entry ← b.buffer[index]?
      let next ← b.buffer[index + 1]?
      some (next.token.kind == second && entry.token.span.stop == next.token.span.start, b)

/-- Consumes two tokens as one of the given kind. -/
def bumpGlued (b : BufferedStream) (kind : Token.Kind) :
    Option (List Token × Token × BufferedStream) := do
  let (trivia, first, b) ← b.bump
  let (_, second, b) ← b.bump
  some (trivia, ⟨kind, ⟨first.span.start, second.span.stop⟩, first.text ++ second.text, none⟩, b)

/-- Reads the next token in another mode. What is scanned in the old mode is dropped. -/
def setMode (b : BufferedStream) (mode : Mode) : BufferedStream :=
  if mode = b.behind.mode then b
  else { behind := { b.behind with scanner := b.front, mode := mode } }

/-- A bracket is open. -/
def openDelimiter (b : BufferedStream) : BufferedStream :=
  { b with behind := b.behind.openDelimiter }

/-- A bracket is closed. -/
def closeDelimiter (b : BufferedStream) : BufferedStream :=
  { b with behind := b.behind.closeDelimiter }

/-- Makes line breaks count, whatever brackets are open. -/
def enterLine (b : BufferedStream) : BufferedStream := { b with behind := b.behind.enterLine }

/-- Goes back to the brackets and the binding that held before `enterLine`. -/
def leaveLine (b : BufferedStream) (nesting : Nat) (lineBound : Bool) : BufferedStream :=
  { b with behind := { b.behind with nesting := nesting, lineBound := lineBound } }

end BufferedStream

end Justfile
