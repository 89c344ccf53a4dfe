import Justfile.Node

/-!
# Assembling a tree

A tree can be put together from the outside: open a node, add leaves, close it. Trivia waits until
the next leaf or node arrives and is added in front of it, so no node but the root starts or ends
with trivia. A field waits for the next leaf or node, which then plays that part.

A checkpoint is a number of children. A node that is opened at a checkpoint takes over the children
that the node around it got since.
-/

set_option autoImplicit false

namespace Justfile

/-- A node that is not closed yet. -/
structure OpenNode where
  field : Option Field
  kind : Node.Kind
  children : Forest := []
  deriving Repr

/-- A tree under construction. -/
structure Assembler where
  /-- The node that children are added to. -/
  current : OpenNode
  /-- The open nodes around it, innermost first. -/
  outer : List OpenNode := []
  /-- Trivia that waits for the next leaf or node. -/
  waiting : List (Token.Kind × Span) := []
  /-- The part that the next leaf or node will play. -/
  field : Option Field := none
  /-- The end of the last leaf. -/
  offset : Nat := 0
  deriving Repr

namespace Assembler

/-- A tree with nothing but its root. -/
def ofRoot (kind : Node.Kind) : Assembler where
  current := ⟨none, kind, []⟩

/-- Adds a child to the current node. -/
def push (a : Assembler) (node : Node) : Assembler :=
  { a with current := { a.current with children := a.current.children ++ [node] } }

/-- Adds the waiting trivia to the current node. -/
def flush (a : Assembler) : Assembler :=
  a.waiting.foldl
    (fun a (kind, span) => { a.push (.leaf none (.ofToken kind) span) with offset := span.stop })
    { a with waiting := [] }

/-- Lets trivia wait for the next leaf or node. -/
def trivia (a : Assembler) (tokens : List (Token.Kind × Span)) : Assembler :=
  { a with waiting := a.waiting ++ tokens }

/-- Sets the part that the next leaf or node will play. -/
def setField (a : Assembler) (field : Field) : Assembler := { a with field := some field }

/-- Adds a leaf. -/
def token (a : Assembler) (kind : Node.Kind) (span : Span) : Assembler :=
  let flushed := a.flush
  { flushed with field := none, offset := span.stop }.push (.leaf flushed.field kind span)

/-- Adds a leaf of width zero after the last one. -/
def empty (a : Assembler) (kind : Node.Kind) : Span × Assembler :=
  let flushed := a.flush
  let span := Span.empty flushed.offset
  (span, flushed.token kind span)

/-- Opens a node. -/
def start (a : Assembler) (kind : Node.Kind) : Assembler :=
  let flushed := a.flush
  { flushed with
    current := ⟨flushed.field, kind, []⟩
    outer := flushed.current :: flushed.outer
    field := none }

/-- The number of children of the current node, waiting trivia included. -/
def checkpoint (a : Assembler) : Nat × Assembler :=
  let flushed := a.flush
  (flushed.current.children.length, flushed)

/-- Opens a node that takes over the children from a checkpoint on. A checkpoint beyond the
children takes over none. -/
def startAt (a : Assembler) (checkpoint : Nat) (kind : Node.Kind) (field : Option Field) :
    Assembler :=
  let flushed := a.flush
  let children := flushed.current.children
  -- A part that waits goes on waiting: it is for a node that comes, not for one begun earlier.
  { flushed with
    current := ⟨field, kind, children.drop checkpoint⟩
    outer := { flushed.current with children := children.take checkpoint } :: flushed.outer }

/-- Closes the current node. The root stays open; waiting trivia goes to the node around. -/
def finish (a : Assembler) : Span × Assembler :=
  match a.outer with
  | [] => (.empty a.offset, a)
  | around :: outer =>
    let node := Node.branch a.current.field a.current.kind a.current.children a.offset
    (node.span, { a with current := around, outer := outer }.push node)

/-- Closes several nodes. -/
def finishMany : Nat → Assembler → Assembler
  | 0, a => a
  | n + 1, a => finishMany n a.finish.2

/-- Closes all nodes; waiting trivia goes to the root. -/
def root (a : Assembler) : Node :=
  let last := (finishMany a.outer.length a).flush
  .branch none last.current.kind last.current.children last.offset

end Assembler

end Justfile
