import Justfile.Proofs.Node
import Justfile.View

/-!
# Cursors and their nodes

What is asked of a cursor about the nodes below it is what is asked of its node: the descendants of a
cursor are the nodes in preorder, and its children and views are those of the node.
-/

set_option autoImplicit false

namespace Justfile

namespace Cursor

variable {c d : Cursor}

/-- A descendant belongs to the same tree, and its node stands below. -/
theorem of_mem_descendants (h : d ∈ c.descendants) :
    d.tree = c.tree ∧ d.node ∈ c.node.preorder := by
  obtain ⟨⟨node, rank⟩, hmem, rfl⟩ := List.mem_map.1 h
  exact ⟨rfl, List.fst_mem_of_mem_zipIdx hmem⟩

theorem map_node_descendants (c : Cursor) : c.descendants.map node = c.node.preorder := by
  rw [descendants, List.map_map]
  exact List.zipIdx_map_fst c.rank c.node.preorder

/-- What holds of a descendant holds of a node below. -/
theorem exists_mem_descendants {P : Node → Prop} :
    (∃ d ∈ c.descendants, P d.node) ↔ ∃ node ∈ c.node.preorder, P node := by
  rw [← map_node_descendants]
  constructor
  · rintro ⟨d, hmem, hd⟩
    exact ⟨d.node, List.mem_map_of_mem hmem, hd⟩
  · rintro ⟨node, hmem, hnode⟩
    obtain ⟨d, hd, rfl⟩ := List.mem_map.1 hmem
    exact ⟨d, hd, hnode⟩

theorem any_descendants (c : Cursor) (p : Node → Bool) :
    (c.descendants.any fun d => p d.node) = c.node.preorder.any p := by
  rw [← map_node_descendants, List.any_map]
  rfl

/-- Where there is a single node of a kind below, there is a single descendant of the kind. -/
theorem descendants_of_preorder {kind : Node.Kind} {node : Node}
    (h : c.node.preorder.filter (·.kind == kind) = [node]) :
    ∃ d, c.descendants.filter (·.kind == kind) = [d] ∧ d.tree = c.tree ∧ d.node = node := by
  rw [← map_node_descendants, List.filter_map] at h
  obtain ⟨d, hd, rfl⟩ := List.map_eq_singleton_iff.1 h
  have hmem : d ∈ c.descendants := by
    refine (List.mem_filter.1 (?_ : d ∈ c.descendants.filter ((·.kind == kind) ∘ node))).1
    rw [hd]
    exact List.mem_singleton_self d
  exact ⟨d, hd, (of_mem_descendants hmem).1, rfl⟩

theorem map_node_placeList (tree : Tree) (rank : Nat) (nodes : Forest) :
    (placeList tree rank nodes).map node = nodes := by
  induction nodes generalizing rank with
  | nil => rfl
  | cons first rest ih => rw [placeList, List.map_cons, ih]

theorem map_node_children (c : Cursor) : c.children.map node = c.node.children :=
  map_node_placeList ..

/-- What holds of a view holds of a child of the kind. -/
theorem exists_mem_views {kind : Node.Kind} {P : Node → Prop} :
    (∃ view ∈ c.views [kind], P view.cursor.node) ↔
      ∃ node ∈ c.node.children, node.kind = kind ∧ P node := by
  rw [← map_node_children]
  constructor
  · rintro ⟨view, hmem, hview⟩
    obtain ⟨child, hchild, hof⟩ := List.mem_filterMap.1 hmem
    rw [View.of?.eq_def] at hof
    split at hof
    · next hkind =>
      cases hof
      exact ⟨_, List.mem_map_of_mem hchild, List.mem_singleton.1 hkind, hview⟩
    · cases hof
  · rintro ⟨node, hmem, hkind, hnode⟩
    obtain ⟨child, hchild, rfl⟩ := List.mem_map.1 hmem
    exact ⟨⟨child, List.mem_singleton.2 hkind⟩,
      List.mem_filterMap.2 ⟨child, hchild, dif_pos (List.mem_singleton.2 hkind)⟩, hnode⟩

end Cursor

end Justfile
