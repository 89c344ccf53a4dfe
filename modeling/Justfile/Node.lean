import Justfile.Node.Field
import Justfile.Node.Kind

/-!
# Nodes

A node has a kind, a span and children, and plays a part in its parent. A node without children is
a leaf: a token, or a place where something is missing. A node with children spans from the start
of the first to the end of the last.

Functions on whole trees come in pairs, one for a node and one for a list of siblings, so that the
recursion follows the data.
-/

set_option autoImplicit false

namespace Justfile

/-- A node of the tree, with the part it plays in its parent. -/
structure Node where
  field : Option Field
  kind : Node.Kind
  span : Span
  children : List Node
  deriving Repr

/-- Siblings, in document order. -/
abbrev Forest := List Node

namespace Node

/-- A node without children. -/
def leaf (field : Option Field) (kind : Kind) (span : Span) : Node := ⟨field, kind, span, []⟩

/-- The leaf of a token. -/
def ofToken (field : Option Field) (token : Token) : Node :=
  leaf field (.ofToken token.kind) token.span

/-- The span of siblings: from the start of the first to the end of the last. Where there is none
it is empty, at the given offset. -/
def spanOf (children : Forest) (offset : Nat) : Span :=
  match children.head?, children.getLast? with
  | some first, some last => ⟨first.span.start, last.span.stop⟩
  | _, _ => .empty offset

/-- A node around siblings; the offset is for the case that there is none. -/
def branch (field : Option Field) (kind : Kind) (children : Forest) (offset : Nat) : Node :=
  ⟨field, kind, spanOf children offset, children⟩

/-- Whether the node has no children. -/
def isLeaf (node : Node) : Bool := node.children.isEmpty

/-- Whether the node is named and no trivia. -/
def isMeaningful (node : Node) : Bool := node.kind.isNamed && !node.kind.isTrivia

/-- What the node cuts out of a source. -/
def text (node : Node) (source : Text) : Text := node.span.text source

/-! ## Whole trees -/

mutual
/-- The node and all below it, parents before children and siblings in order. -/
def preorder : Node → List Node
  | ⟨field, kind, span, children⟩ => ⟨field, kind, span, children⟩ :: preorderList children
/-- The nodes of several trees, one tree after the other. -/
def preorderList : Forest → List Node
  | [] => []
  | node :: rest => preorder node ++ preorderList rest
end

mutual
/-- The number of nodes. -/
def count : Node → Nat
  | ⟨_, _, _, children⟩ => 1 + countList children
/-- The number of nodes of several trees. -/
def countList : Forest → Nat
  | [] => 0
  | node :: rest => count node + countList rest
end

mutual
/-- Whether the node or one below it marks a fault. -/
def hasError : Node → Bool
  | ⟨_, kind, _, children⟩ => kind.isError || hasErrorList children
/-- Whether a node of several trees marks a fault. -/
def hasErrorList : Forest → Bool
  | [] => false
  | node :: rest => hasError node || hasErrorList rest
end

mutual
/-- The nodes in preorder, each with its depth below the node at `depth`. -/
def preorderDepth (depth : Nat) : Node → List (Nat × Node)
  | ⟨field, kind, span, children⟩ =>
    (depth, ⟨field, kind, span, children⟩) :: preorderDepthList (depth + 1) children
/-- The nodes of several trees at one depth, each with its own. -/
def preorderDepthList (depth : Nat) : Forest → List (Nat × Node)
  | [] => []
  | node :: rest => preorderDepth depth node ++ preorderDepthList depth rest
end

/-- The leaves, in document order. -/
def leaves (node : Node) : List Node := node.preorder.filter isLeaf

/-! ## Children -/

/-- The children that play a part. -/
def childrenByField (node : Node) (field : Field) : List Node :=
  node.children.filter (·.field == some field)

/-- The first child that plays a part. -/
def childByField? (node : Node) (field : Field) : Option Node :=
  node.children.find? (·.field == some field)

/-- The first child of a kind. -/
def childOfKind? (node : Node) (kind : Kind) : Option Node :=
  node.children.find? (·.kind == kind)

/-! ## Small facts -/

@[simp] theorem preorderList_nil : preorderList [] = [] := rfl

@[simp] theorem preorderList_cons (node : Node) (rest : Forest) :
    preorderList (node :: rest) = preorder node ++ preorderList rest := rfl

@[simp] theorem countList_nil : countList [] = 0 := rfl

@[simp] theorem countList_cons (node : Node) (rest : Forest) :
    countList (node :: rest) = count node + countList rest := rfl

mutual
/-- The preorder has one entry for each node. -/
theorem length_preorder : ∀ node : Node, node.preorder.length = node.count
  | ⟨_, _, _, children⟩ => by
    simp only [preorder, count, List.length_cons, length_preorderList children]
    exact Nat.add_comm _ _
/-- The preorder of several trees has one entry for each node. -/
theorem length_preorderList : ∀ forest : Forest, (preorderList forest).length = countList forest
  | [] => rfl
  | node :: rest => by
    simp only [preorderList, countList, List.length_append, length_preorder node,
      length_preorderList rest]
end

end Node

end Justfile
