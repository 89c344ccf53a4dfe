import Justfile.Node

/-!
# Nodes of trees

Which nodes a tree has: the preorder of siblings that were put together, of a leaf and of a node
around siblings, and that a tree has the children of each of its nodes.
-/

set_option autoImplicit false

namespace Justfile.Node

theorem preorderList_append (front back : Forest) :
    preorderList (front ++ back) = preorderList front ++ preorderList back := by
  induction front with
  | nil => rfl
  | cons node front ih => simp only [List.cons_append, preorderList_cons, ih, List.append_assoc]

theorem preorder_eq_cons (node : Node) : node.preorder = node :: preorderList node.children := by
  cases node
  rfl

theorem mem_preorder_self (node : Node) : node ∈ node.preorder := by
  rw [preorder_eq_cons]
  exact List.mem_cons_self

theorem mem_preorderList_of_mem {nodes : Forest} {node below : Node} (h : node ∈ nodes)
    (hbelow : below ∈ node.preorder) : below ∈ preorderList nodes := by
  induction nodes with
  | nil => cases h
  | cons first rest ih =>
    rcases List.mem_cons.1 h with rfl | h
    · exact List.mem_append_left _ hbelow
    · exact List.mem_append_right _ (ih h)

theorem mem_preorderList {nodes : Forest} {node : Node} (h : node ∈ nodes) :
    node ∈ preorderList nodes :=
  mem_preorderList_of_mem h node.mem_preorder_self

mutual
/-- What stands below a node of a tree stands in the tree. -/
theorem mem_preorder_trans {node below : Node} (hbelow : below ∈ node.preorder) :
    ∀ {root : Node}, node ∈ root.preorder → below ∈ root.preorder
  | ⟨field, kind, span, children⟩, hnode => by
    rcases List.mem_cons.1 hnode with rfl | hnode
    · exact hbelow
    · exact List.mem_cons_of_mem _ (mem_preorderList_trans hbelow hnode)
theorem mem_preorderList_trans {node below : Node} (hbelow : below ∈ node.preorder) :
    ∀ {nodes : Forest}, node ∈ preorderList nodes → below ∈ preorderList nodes
  | [], hnode => by cases hnode
  | first :: rest, hnode => by
    rcases List.mem_append.1 hnode with hnode | hnode
    · exact List.mem_append_left _ (mem_preorder_trans hbelow hnode)
    · exact List.mem_append_right _ (mem_preorderList_trans hbelow hnode)
end

theorem child_mem_preorder_self {node child : Node} (hchild : child ∈ node.children) :
    child ∈ node.preorder := by
  rw [preorder_eq_cons]
  exact List.mem_cons_of_mem _ (mem_preorderList hchild)

/-- The children of a node stand in its tree. -/
theorem child_mem_preorderList {node child : Node} (hchild : child ∈ node.children)
    {nodes : Forest} (hnode : node ∈ preorderList nodes) : child ∈ preorderList nodes :=
  mem_preorderList_trans (child_mem_preorder_self hchild) hnode

theorem children_branch (field : Option Field) (kind : Kind) (children : Forest) (offset : Nat) :
    (branch field kind children offset).children = children := rfl

theorem preorderList_branch (field : Option Field) (kind : Kind) (children : Forest)
    (offset : Nat) :
    preorderList [branch field kind children offset] =
      branch field kind children offset :: preorderList children := by
  simp [branch, preorder]

theorem preorderList_leaf (field : Option Field) (kind : Kind) (span : Span) :
    preorderList [leaf field kind span] = [leaf field kind span] := by
  simp [leaf, preorder]

/-! ## Leaves -/

theorem leaves_of_cons (field : Option Field) (kind : Kind) (span : Span) (first : Node)
    (rest : Forest) :
    leaves ⟨field, kind, span, first :: rest⟩ = (preorderList (first :: rest)).filter isLeaf := rfl

theorem isLeaf_branch (field : Option Field) (kind : Kind) (children : Forest) (offset : Nat) :
    (branch field kind children offset).isLeaf = children.isEmpty := rfl

theorem leaves_eq_filter (node : Node) : node.leaves = (preorderList [node]).filter isLeaf := by
  rw [preorderList_cons, preorderList_nil, List.append_nil]
  rfl

end Justfile.Node
