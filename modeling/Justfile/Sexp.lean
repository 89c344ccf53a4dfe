import Justfile.Tree

/-!
# S-expressions

A tree as nested parentheses, on one line or with one node on each line. Only named nodes are
shown; a node that plays a part in its parent has the name of that part in front of it.
-/

set_option autoImplicit false

namespace Justfile.Sexp

/-- The part that a node plays, as it stands in front of the node. -/
def label : Option Field → Text
  | none => []
  | some field => field.label.toList ++ [':', ' ']

/-! ## On one line -/

mutual
/-- Writes a node, without the part it plays, in front of a text. -/
def lineOnto : Node → Text → Text
  | ⟨_, kind, _, children⟩, tail => '(' :: kind.name.toList ++ linesOnto children (')' :: tail)
/-- Writes the named nodes among siblings, each behind a space, in front of a text. -/
def linesOnto : Forest → Text → Text
  | [], tail => tail
  | node :: rest, tail =>
    let after := linesOnto rest tail
    if node.kind.isNamed then ' ' :: label node.field ++ lineOnto node after else after
end

/-- A node on one line. -/
def line (node : Node) : Text := lineOnto node []

/-! ## One node on each line -/

mutual
/-- Writes a node at a depth, without the part it plays, in front of a text. -/
def blockOnto (depth : Nat) : Node → Text → Text
  | ⟨_, kind, _, children⟩, tail =>
    '(' :: kind.name.toList ++ blocksOnto (depth + 1) children (')' :: tail)
/-- Writes the named nodes among siblings at a depth in front of a text: each on its own line,
behind two spaces for each level. -/
def blocksOnto (depth : Nat) : Forest → Text → Text
  | [], tail => tail
  | node :: rest, tail =>
    let after := blocksOnto depth rest tail
    if node.kind.isNamed then
      '\n' :: List.replicate (2 * depth) ' ' ++ label node.field ++ blockOnto depth node after
    else after
end

/-! ## Trees -/

/-- A whole tree on one line. -/
def ofTree (tree : Tree) : Text := line tree.root

/-- A whole tree with one node on each line. -/
def prettyOfTree (tree : Tree) : Text := blockOnto 0 tree.root ['\n']

end Justfile.Sexp
