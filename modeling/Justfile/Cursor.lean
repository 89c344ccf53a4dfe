import Justfile.Tree

/-!
# Cursors

A cursor is a node together with its place: the tree it belongs to, and its rank among the nodes of
the tree in preorder. Two nodes with the same content are told apart by their ranks.

A cursor does not remember how it was reached. Its parent is found again from the root; the search
enters only nodes whose span contains the span of the node looked for.
-/

set_option autoImplicit false

namespace Justfile

/-- A node and its place in a tree. -/
structure Cursor where
  tree : Tree
  /-- The number of nodes before this one in preorder. -/
  rank : Nat
  node : Node

namespace Tree

/-- The place of the root. -/
def rootCursor (tree : Tree) : Cursor := ⟨tree, 0, tree.root⟩

end Tree

namespace Cursor

/-- The kind of the node. -/
def kind (c : Cursor) : Node.Kind := c.node.kind

/-- The part that the node plays in its parent. -/
def field (c : Cursor) : Option Field := c.node.field

/-- The span of the node. -/
def span (c : Cursor) : Span := c.node.span

/-- The text of the node. -/
def text (c : Cursor) : Text := c.node.text c.tree.source

/-- The position at which the node starts. -/
def startPosition (c : Cursor) : Position := c.tree.position c.span.start

/-- The position at which the node ends. -/
def stopPosition (c : Cursor) : Position := c.tree.position c.span.stop

/-! ## Downwards -/

/-- The places of siblings, the first of which has the given rank. -/
def placeList (tree : Tree) : Nat → Forest → List Cursor
  | _, [] => []
  | rank, node :: rest => ⟨tree, rank, node⟩ :: placeList tree (rank + node.count) rest

/-- The children, in order. -/
def children (c : Cursor) : List Cursor := placeList c.tree (c.rank + 1) c.node.children

/-- The children that are named and no trivia. -/
def namedChildren (c : Cursor) : List Cursor := c.children.filter (·.node.isMeaningful)

/-- The child with the given number of others before it. -/
def child? (c : Cursor) (index : Nat) : Option Cursor := c.children[index]?

/-- The first child that plays a part. -/
def childByField? (c : Cursor) (field : Field) : Option Cursor :=
  c.children.find? (·.field == some field)

/-- The children that play a part. -/
def childrenByField (c : Cursor) (field : Field) : List Cursor :=
  c.children.filter (·.field == some field)

/-- The first child of a kind. -/
def childOfKind? (c : Cursor) (kind : Node.Kind) : Option Cursor :=
  c.children.find? (·.kind == kind)

/-- The children of a kind. -/
def childrenOfKind (c : Cursor) (kind : Node.Kind) : List Cursor :=
  c.children.filter (·.kind == kind)

/-- The node and all below it, in preorder. -/
def descendants (c : Cursor) : List Cursor :=
  (c.node.preorder.zipIdx c.rank).map fun (node, rank) => ⟨c.tree, rank, node⟩

/-! ## Upwards -/

mutual
/-- The nodes from a node down to the parent of the one with the target rank, each with its rank.
Nodes that do not contain the target's span are not entered. -/
def pathTo? (target : Nat) (span : Span) (rank : Nat) : Node → Option (List (Nat × Node))
  | ⟨field, kind, own, children⟩ =>
    if rank = target then some []
    else if own.contains span then
      (pathThrough? target span (rank + 1) children).map ((rank, ⟨field, kind, own, children⟩) :: ·)
    else none
/-- The path to the target through the first sibling from which it can be reached. -/
def pathThrough? (target : Nat) (span : Span) (rank : Nat) : Forest → Option (List (Nat × Node))
  | [] => none
  | node :: rest =>
    match pathTo? target span rank node with
    | some path => some path
    | none => pathThrough? target span (rank + node.count) rest
end

/-- The nodes around this one, from the root to the parent. -/
def ancestors (c : Cursor) : List Cursor :=
  ((pathTo? c.rank c.span 0 c.tree.root).getD []).map fun (rank, node) => ⟨c.tree, rank, node⟩

/-- The node around this one. -/
def parent? (c : Cursor) : Option Cursor := c.ancestors.getLast?

/-- The innermost node of a kind around this one. -/
def ancestor? (c : Cursor) (kind : Node.Kind) : Option Cursor :=
  c.ancestors.reverse.find? (·.kind == kind)

/-! ## Sideways -/

/-- The parent, and the number of siblings before this node. -/
def place? (c : Cursor) : Option (Cursor × Nat) := do
  let parent ← c.parent?
  let index ← parent.children.findIdx? (·.rank == c.rank)
  return (parent, index)

/-- The siblings before this node, the nearest first. -/
def siblingsBefore (c : Cursor) : List Cursor :=
  match c.place? with
  | some (parent, index) => (parent.children.take index).reverse
  | none => []

/-- The siblings after this node, the nearest first. -/
def siblingsAfter (c : Cursor) : List Cursor :=
  match c.place? with
  | some (parent, index) => parent.children.drop (index + 1)
  | none => []

/-- The sibling after this node. -/
def next? (c : Cursor) : Option Cursor := c.siblingsAfter.head?

/-- The sibling before this node. -/
def previous? (c : Cursor) : Option Cursor := c.siblingsBefore.head?

/-- The siblings of a kind after this node, up to the first one of the kind `stop`. -/
def siblingsUntil (c : Cursor) (kind stop : Node.Kind) : List Cursor :=
  (c.siblingsAfter.takeWhile (·.kind != stop)).filter (·.kind == kind)

/-! ## By place in the source -/

mutual
/-- Goes down from a node through the first child that is wanted, as far as there is one. -/
def deepest (wanted : Node → Bool) (rank : Nat) : Node → Nat × Node
  | ⟨field, kind, span, children⟩ =>
    (deepestAmong? wanted (rank + 1) children).getD (rank, ⟨field, kind, span, children⟩)
/-- Goes down through the first sibling that is wanted. -/
def deepestAmong? (wanted : Node → Bool) (rank : Nat) : Forest → Option (Nat × Node)
  | [] => none
  | node :: rest =>
    if wanted node then some (deepest wanted rank node)
    else deepestAmong? wanted (rank + node.count) rest
end

end Cursor

namespace Tree

/-- The deepest node that contains an offset; on a boundary, the one that starts there. -/
def nodeAt? (tree : Tree) (offset : Nat) : Option Cursor :=
  if offset ≤ tree.source.byteSize then
    let (rank, node) :=
      Cursor.deepest (fun n => n.span.start ≤ offset && offset < n.span.stop) 0 tree.root
    some ⟨tree, rank, node⟩
  else none

/-- The smallest node that covers a span. -/
def nodeCovering? (tree : Tree) (span : Span) : Option Cursor :=
  if tree.root.span.contains span then
    let (rank, node) := Cursor.deepest (·.span.contains span) 0 tree.root
    some ⟨tree, rank, node⟩
  else none

end Tree

end Justfile
