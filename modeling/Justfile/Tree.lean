import Justfile.Diagnostic
import Justfile.Node

/-!
# Trees

A tree is a source, the root of its nodes, and what is wrong with it.
-/

set_option autoImplicit false

namespace Justfile

/-- A source with its nodes and diagnostics. -/
structure Tree where
  source : Text
  root : Node
  diagnostics : List Diagnostic
  deriving Repr

namespace Tree

/-- Whether anything is wrong. -/
def hasErrors (tree : Tree) : Bool := !tree.diagnostics.isEmpty

/-- The position of an offset in the source. -/
def position (tree : Tree) (offset : Nat) : Position :=
  (LineIndex.ofText tree.source).position tree.source offset

/-- The texts of the leaves, one after the other. -/
def leafText (tree : Tree) : Text := tree.root.leaves.flatMap (·.text tree.source)

end Tree

end Justfile
