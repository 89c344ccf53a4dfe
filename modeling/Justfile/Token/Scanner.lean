import Justfile.Token.Interpreter

/-!
# Scanner

The scanner cuts the source into tokens, one at a time. The caller chooses a mode for each token,
since the same characters mean different things at item level, in a recipe body, and inside a
literal. A scanner is a value: keeping an old one is enough to go back.

Every token with characters is made by `emit`, which takes them off the front of what is left;
the others leave the place unchanged. So the tokens of any run of modes tile the source.
-/

set_option autoImplicit false

namespace Justfile

/-- What the caller expects next. -/
inductive Mode where
  /-- Items and expressions. -/
  | normal
  /-- After a recipe header: a deeper line opens a body. -/
  | bodyStart
  /-- Inside a recipe body. -/
  | body
  /-- Between the delimiters of a string. -/
  | stringContent (dialect : Dialect)
  /-- Between the delimiters of a command. -/
  | commandContent (indented : Bool)
  deriving DecidableEq, Repr

/-- The place in the source, and what is remembered between tokens. -/
structure Scanner where
  /-- Where the text proper starts: after a byte order mark, if there is one. -/
  base : Nat
  /-- The bytes taken so far. -/
  offset : Nat := 0
  /-- The characters not taken yet. -/
  rest : Text
  /-- The character taken last. -/
  previous : Option Char := none
  /-- The widths of the open bodies, innermost first. -/
  levels : List Nat := []
  /-- Pieces of a shebang line that are decided and not taken yet. -/
  queued : List Interpreter.Piece := []
  /-- Bodies that are closed and whose `dedent` is still to come. -/
  pendingDedents : Nat := 0
  /-- A line whose width fits no level; it becomes one token. -/
  pendingFault : Option Fault := none
  /-- Where the content of the current body line starts. -/
  lineContent : Option Nat := none
  /-- Whether the next body line is the first of its body. -/
  firstBodyLine : Bool := false
  /-- Whether the literal at hand is closed, or reported as unterminated. -/
  literalClosed : Bool := false
  deriving DecidableEq, Repr

namespace Scanner

/-- The byte order mark. -/
def byteOrderMark : Char := '\ufeff'

/-- A scanner at the start of a source. -/
def ofText (source : Text) : Scanner where
  base := if source.head? == some byteOrderMark then byteOrderMark.utf8Size else 0
  rest := source

/-- The bytes decided on: those taken, and those of the queued pieces. -/
def position (s : Scanner) : Nat :=
  s.offset + Text.byteSize (s.rest.take (s.queued.foldr (fun piece sum => piece.2 + sum) 0))

/-- The width of the innermost open body. -/
def top (s : Scanner) : Nat := s.levels.headD 0

/-- The indentation stack, from the zero at its bottom to the innermost width. -/
def indentation (s : Scanner) : List Nat := 0 :: s.levels.reverse

/-- Whether a line starts here. -/
def atLineStart (s : Scanner) : Bool := s.offset == s.base || s.previous == some '\n'

/-! ## Making tokens -/

/-- Takes `size` characters as a token. -/
def emit (s : Scanner) (kind : Token.Kind) (size : Nat) : Token × Scanner :=
  let taken := s.rest.take size
  let stop := s.offset + Text.byteSize taken
  (⟨kind, ⟨s.offset, stop⟩, taken, none⟩,
    { s with offset := stop, rest := s.rest.drop size, previous := taken.getLast?.or s.previous })

/-- A token without characters. -/
def mark (s : Scanner) (kind : Token.Kind) (indent : Option Nat := none) : Token :=
  ⟨kind, .empty s.offset, [], indent⟩

/-- The end of a body; the width is the one that holds again. -/
def dedent (s : Scanner) : Token := s.mark .dedent (some s.top)

/-! ## Item level -/

/-- A shebang line: its `#!` now, its pieces on the next calls. -/
def shebang (s : Scanner) : Token × Scanner :=
  let content := (s.rest.take (Measure.line s.rest)).drop 2
  { s with queued := Interpreter.pieces content }.emit .shebangStart 2

/-- A literal opens: it is neither closed nor reported. -/
def openLiteral (s : Scanner) (kind : Token.Kind) (size : Nat) : Token × Scanner :=
  { s with literalClosed := false }.emit kind size

/-- A character that starts no token. -/
def unexpected (s : Scanner) (c : Char) : Token × Scanner :=
  s.emit (.errorRecovery (.unexpectedCharacter c)) 1

/-- A token that is recognised by its first character. -/
def normalToken (s : Scanner) (c : Char) : Token × Scanner :=
  if c == ' ' || c == '\t' || c == '\r' then s.emit .whitespace (Measure.blanks s.rest)
  else if c == '#' then s.emit .comment (Measure.line s.rest)
  else if c == '\\' then
    match Measure.continuation? s.rest with
    | some size => s.emit .lineContinuation size
    | none => s.unexpected c
  else
    -- Before the names, since the prefix of a dialect is a letter.
    match Dialect.detect? s.rest with
    | some dialect => s.openLiteral (.stringOpen dialect) dialect.opening.length
    | none =>
      if c == '\x60' then
        let indented := (Measure.commandDelimiter true).isPrefixOf s.rest
        s.openLiteral (.commandOpen indented) (Measure.commandDelimiter indented).length
      else if c.isDigit then s.emit .number (Measure.number s.rest)
      else if Measure.startsIdentifier c then s.emit .identifier (Measure.identifier s.rest)
      else
        match Mark.detect? s.rest with
        | some sign => s.emit (.mark sign) sign.length
        | none => s.unexpected c

/-- Items and expressions. -/
def normal (s : Scanner) : Token × Scanner :=
  match s.rest with
  | [] => (s.mark .endOfInput, s)
  | c :: rest =>
    -- Only the very first line can be a shebang; on others the sign opens a comment.
    if s.offset == s.base && ['#', '!'].isPrefixOf (c :: rest) then s.shebang
    else
      match Measure.newline? (c :: rest) with
      | some size => s.emit .newline size
      | none => s.normalToken c

/-! ## Literals -/

/-- A literal is closed. -/
def closeLiteral (s : Scanner) (kind : Token.Kind) (size : Nat) : Token × Scanner :=
  { s with literalClosed := true }.emit kind size

/-- A literal runs into the end of the input. It is reported once; asked again at the end, the
scanner answers with the end of the input. -/
def unterminated (s : Scanner) (fault : Fault) : Token × Scanner :=
  if s.literalClosed && s.rest.isEmpty then (s.mark .endOfInput, s)
  else s.closeLiteral (.errorRecovery fault) s.rest.length

/-- A stretch of contents, unless it reaches the end of the input. -/
def content (s : Scanner) (kind : Token.Kind) (fault : Fault) (unit? : Text → Option Nat) :
    Token × Scanner :=
  let size := Measure.run unit? s.rest
  if (s.rest.drop size).isEmpty then s.unterminated fault else s.emit kind size

/-- Between the delimiters of a string. -/
def stringContent (s : Scanner) (d : Dialect) : Token × Scanner :=
  if d.closing.isPrefixOf s.rest then s.closeLiteral (.stringClose d) d.closing.length
  else if s.rest.isEmpty then s.unterminated .unterminatedString
  else
    match (if d.readsEscapes then Measure.escape? s.rest else none) with
    | some size => s.emit .escapeSequence size
    | none =>
      if d.isFormat && Measure.opensInterpolation s.rest then s.emit .interpolationOpen 2
      else s.content .stringContent .unterminatedString (Measure.stringUnit? d)

/-- Between the delimiters of a command. -/
def commandContent (s : Scanner) (indented : Bool) : Token × Scanner :=
  let delimiter := Measure.commandDelimiter indented
  if delimiter.isPrefixOf s.rest then s.closeLiteral (.commandClose indented) delimiter.length
  else if s.rest.isEmpty then s.unterminated .unterminatedCommand
  else if Measure.opensInterpolation s.rest then s.emit .interpolationOpen 2
  else s.content .commandContent .unterminatedCommand (Measure.commandUnit? indented)

/-! ## Recipe bodies -/

/-- After a recipe header: blank lines are skipped, and a deeper line opens a body. -/
def bodyStart (s : Scanner) : Token × Scanner :=
  match Measure.blankLines s.rest with
  | size + 1 => s.emit .whitespace (size + 1)
  | 0 =>
    let width := Measure.indentation s.rest
    if s.top < width && !Measure.atLineEnd (s.rest.drop width) then
      (s.mark .indent (some width), { s with levels := width :: s.levels, firstBodyLine := true })
    -- No body: what follows is read at item level.
    else s.normal

/-- A line that is less indented than its body closes every body it is too narrow for. Its width
should be that of the level it falls back to. -/
def dedentTo (s : Scanner) (width : Nat) : Token × Scanner :=
  let kept := s.levels.dropWhile (width < ·)
  let enclosing := kept.headD 0
  let after : Scanner := { s with
    levels := kept
    -- This call gives the first of the dedents.
    pendingDedents := s.levels.length - kept.length - 1
    pendingFault :=
      if width = enclosing then s.pendingFault else some (.dedentMismatch s.top enclosing width) }
  (after.dedent, after)

/-- What stands on a body line after its start. -/
def bodyContent (s : Scanner) : Token × Scanner :=
  match Measure.newline? s.rest with
  | some size => s.emit .newline size
  | none =>
    if Measure.opensInterpolation s.rest then s.emit .interpolationOpen 2
    else s.emit .text (Measure.run Measure.bodyUnit? s.rest)

/-- The content of a body line: a shebang if the line is the first of its body, or signs in front
of the text. -/
def bodyLine (s : Scanner) : Token × Scanner :=
  if s.lineContent == some s.offset then
    let entered := { s with lineContent := none, firstBodyLine := false }
    if s.firstBodyLine && ['#', '!'].isPrefixOf s.rest then entered.shebang
    else
      match Measure.linePrefix? s.rest with
      | some size => entered.emit .linePrefix size
      | none => entered.bodyContent
  else s.bodyContent

/-- Inside a recipe body. A line's indentation up to the width of the body is white space, and
what goes deeper belongs to the text. -/
def body (s : Scanner) : Token × Scanner :=
  if s.rest.isEmpty then
    match s.levels with
    | [] => (s.mark .endOfInput, s)
    | _ :: levels =>
      let after := { s with levels := levels }
      (after.dedent, after)
  else if s.atLineStart then
    let width := Measure.indentation s.rest
    -- A blank line closes no body, whatever its width.
    if Measure.atLineEnd (s.rest.drop width) then
      if 0 < width then s.emit .whitespace width else s.bodyLine
    else if width < s.top then s.dedentTo width
    else
      let entered := { s with lineContent := some (s.offset + s.top) }
      if 0 < s.top then entered.emit .whitespace s.top else entered.bodyLine
  else s.bodyLine

/-! ## The next token -/

/-- The next token in a mode. Pieces that are already decided come first, whatever the mode: those
of a shebang line, the byte order mark, and the ends of closed bodies. -/
def next (s : Scanner) (mode : Mode) : Token × Scanner :=
  match s.queued with
  | (kind, size) :: queued => { s with queued := queued }.emit kind size
  | [] =>
    -- Nothing but the byte order mark stands in front of the base.
    if s.offset < s.base then s.emit .whitespace 1
    else
      match s.pendingDedents with
      | count + 1 => (s.dedent, { s with pendingDedents := count })
      | 0 =>
        match s.pendingFault with
        | some fault =>
          { s with pendingFault := none }.emit (.errorRecovery fault) (Measure.line s.rest)
        | none =>
          match mode with
          | .normal => s.normal
          | .bodyStart => s.bodyStart
          | .body => s.body
          | .stringContent dialect => s.stringContent dialect
          | .commandContent indented => s.commandContent indented

end Scanner

end Justfile
