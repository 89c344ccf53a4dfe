import Justfile.Text

/-!
# Spans and positions

A span is a range of byte offsets; it need not lie inside any text, nor be in order. A position
is a line and a column, both counted from one.
-/

set_option autoImplicit false

namespace Justfile

/-- A half-open range of byte offsets. -/
structure Span where
  start : Nat
  stop : Nat
  deriving DecidableEq, Repr, Inhabited

namespace Span

/-- The span of width zero at an offset. -/
def empty (offset : Nat) : Span := ⟨offset, offset⟩

/-- The number of bytes, for a span in order. -/
def length? (s : Span) : Option Nat :=
  if s.start ≤ s.stop then some (s.stop - s.start) else none

/-- Whether the two ends meet. -/
def isEmpty (s : Span) : Bool := s.start == s.stop

/-- Whether `inner` lies inside `outer`. -/
def contains (outer inner : Span) : Bool :=
  decide (outer.start ≤ inner.start) && decide (inner.stop ≤ outer.stop)

/-- The smallest span that covers both. -/
def cover (a b : Span) : Span := ⟨min a.start b.start, max a.stop b.stop⟩

/-- What the span cuts out of a source; nothing when it cannot be cut. -/
def text (s : Span) (source : Text) : Text := (source.slice? s.start s.stop).getD []

/-- The two ends with two points between them. -/
def render (s : Span) : String := s!"{s.start}..{s.stop}"

end Span

/-- A place in a text, by line and column, both counted from one. -/
structure Position where
  line : Nat
  column : Nat
  deriving DecidableEq, Repr, Inhabited

namespace Position

/-- Positions are ordered by line, then by column. -/
def order (a b : Position) : Ordering :=
  (compare a.line b.line).then (compare a.column b.column)

/-- Line and column with a colon between them. -/
def render (p : Position) : String := s!"{p.line}:{p.column}"

end Position

end Justfile
