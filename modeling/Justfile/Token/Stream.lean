import Justfile.Token.Scanner

/-!
# Token stream

The stream looks ahead over the scanner. It holds the scanner as it stands before the first token
that is not consumed, so looking ahead changes nothing, and a change of mode applies to that token
at once.

Trivia is stepped over by every look and handed out with the token that follows it. A line break is
trivia between brackets, unless the stream is bound to the line.
-/

set_option autoImplicit false

namespace Justfile

/-- A scanner with the context in which its next tokens are read. -/
structure Stream where
  /-- The scanner before the first token that is not consumed. -/
  scanner : Scanner
  mode : Mode := .normal
  /-- The number of open brackets. -/
  nesting : Nat := 0
  /-- Whether line breaks count even between brackets. -/
  lineBound : Bool := false
  deriving DecidableEq, Repr

namespace Stream

/-- A stream at the start of a source. -/
def ofText (source : Text) : Stream where
  scanner := .ofText source

/-- Where the first token that is not consumed starts. -/
def offset (s : Stream) : Nat := s.scanner.offset

/-- Whether a token of the kind is stepped over. -/
def isTrivia (s : Stream) (kind : Token.Kind) : Bool :=
  kind.isTrivia || (kind == .newline && 0 < s.nesting && !s.lineBound)

/-- The trivia in front of the next significant token, and the scanner after it. Each piece of
trivia has a character, so the remaining text bounds their number. -/
def skip (s : Stream) : Text → Scanner → List Token × Scanner
  | [], scanner => ([], scanner)
  | _ :: fuel, scanner =>
    let (token, after) := scanner.next s.mode
    if s.isTrivia token.kind then
      let (tokens, last) := skip s fuel after
      (token :: tokens, last)
    else ([], scanner)

/-- The trivia in front of the next significant token, that token, and the scanner after each. -/
structure Ahead where
  trivia : List Token
  before : Scanner
  token : Token
  after : Scanner

/-- Looks at the next significant token from a scanner on. -/
def ahead (s : Stream) (scanner : Scanner) : Ahead :=
  let (trivia, before) := s.skip scanner.rest scanner
  let (token, after) := before.next s.mode
  ⟨trivia, before, token, after⟩

/-- The significant token with the given number of others before it, from a scanner on. The end of
the input is followed by itself. -/
def nthFrom (s : Stream) : Nat → Scanner → Token
  | 0, scanner => (s.ahead scanner).token
  | n + 1, scanner =>
    let look := s.ahead scanner
    if look.token.kind = .endOfInput then look.token else s.nthFrom n look.after

/-- The significant token with the given number of others before it. -/
def nth (s : Stream) (n : Nat) : Token := s.nthFrom n s.scanner

/-- Consumes the trivia in front of the next significant token. -/
def takeTrivia (s : Stream) : List Token × Stream :=
  let (trivia, scanner) := s.skip s.scanner.rest s.scanner
  (trivia, { s with scanner := scanner })

/-- Consumes the next significant token and the trivia before it. The end of the input stays. -/
def bump (s : Stream) : List Token × Token × Stream :=
  let look := s.ahead s.scanner
  (look.trivia, look.token,
    { s with scanner := if look.token.kind = .endOfInput then look.before else look.after })

/-- Whether the next two tokens are of the two kinds, with nothing between them. -/
def atGlued (s : Stream) (first second : Token.Kind) : Bool :=
  let look := s.ahead s.scanner
  if look.token.kind = first ∧ first ≠ .endOfInput then
    let (token, _) := look.after.next s.mode
    token.kind == second && token.span.start == look.token.span.stop
  else false

/-- Consumes two tokens as one of the given kind. -/
def bumpGlued (s : Stream) (kind : Token.Kind) : List Token × Token × Stream :=
  let (trivia, first, between) := s.bump
  let (_, second, after) := between.bump
  (trivia, ⟨kind, ⟨first.span.start, second.span.stop⟩, first.text ++ second.text, none⟩, after)

/-- Reads the next token in another mode. -/
def setMode (s : Stream) (mode : Mode) : Stream := { s with mode := mode }

/-- A bracket is open. -/
def openDelimiter (s : Stream) : Stream := { s with nesting := s.nesting + 1 }

/-- A bracket is closed. -/
def closeDelimiter (s : Stream) : Stream := { s with nesting := s.nesting - 1 }

/-- Makes line breaks count, whatever brackets are open. -/
def enterLine (s : Stream) : Stream := { s with nesting := 0, lineBound := true }

/-- Goes back to the brackets and the binding that held before `enterLine`. -/
def leaveLine (s earlier : Stream) : Stream :=
  { s with nesting := earlier.nesting, lineBound := earlier.lineBound }

end Stream

end Justfile
