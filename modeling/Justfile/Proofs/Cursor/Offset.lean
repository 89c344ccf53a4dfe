import Justfile.Proofs.Cursor.Cover

/-!
# The leaf at an offset

The search for an offset goes down through the first child that has the offset within, and stops at a
node without such a child. Siblings in a row leave nothing out (`Node.Row.exists_within`), so every node
with the offset within that has children has such a child, and the search ends at a leaf. It is the only
one (`nodeAt?_leaf`): all nodes with the offset within are on the path to it.
-/

set_option autoImplicit false

namespace Justfile

/-- Whether the node starts at the offset or before it, and stops behind it. -/
def Node.within (offset : Nat) (node : Node) : Bool :=
  decide (node.span.start ≤ offset) && decide (offset < node.span.stop)

theorem Node.within_iff {offset : Nat} {node : Node} :
    node.within offset = true ↔ node.span.start ≤ offset ∧ offset < node.span.stop := by
  rw [within, Bool.and_eq_true, decide_eq_true_eq, decide_eq_true_eq]

/-- An offset is within the nodes that contain the byte behind it. -/
theorem Node.within_eq_contains (offset : Nat) (node : Node) :
    node.within offset = node.span.contains ⟨offset, offset + 1⟩ := rfl

/-- Siblings in a row leave nothing out of what they span. -/
theorem Node.Row.exists_within {start stop offset : Nat} {nodes : Forest} (h : Row start nodes stop)
    (hle : start ≤ offset) (hlt : offset < stop) : ∃ node ∈ nodes, node.within offset = true := by
  induction h with
  | nil => exact absurd hlt (Nat.not_lt.2 hle)
  | @cons node rest start stop hstart hrow ih =>
    by_cases hstop : offset < node.span.stop
    · exact ⟨node, List.mem_cons_self, within_iff.2 ⟨hstart ▸ hle, hstop⟩⟩
    · obtain ⟨other, hmem, hother⟩ := ih (Nat.le_of_not_lt hstop) hlt
      exact ⟨other, List.mem_cons_of_mem node hmem, hother⟩

namespace Tree

/-- The places of the leaves that an offset is within. -/
def leavesAt (tree : Tree) (offset : Nat) : List Cursor :=
  tree.rootCursor.descendants.filter fun c => c.node.isLeaf && c.node.within offset

/-- A leaf with the offset within is the only one, if any other is at the same place. -/
theorem leavesAt_eq_singleton {tree : Tree} {offset : Nat} {leaf : Cursor}
    (hmem : leaf ∈ tree.leavesAt offset) (hall : ∀ c ∈ tree.leavesAt offset, c = leaf) :
    tree.leavesAt offset = [leaf] := by
  have hnodup : (tree.leavesAt offset).Nodup := by
    refine List.Pairwise.filter _ (tree.rootCursor.pairwise_rank_descendants.imp ?_)
    rintro a b hlt rfl
    exact Nat.lt_irrefl _ hlt
  refine List.perm_singleton.1 ((List.perm_ext_iff_of_nodup hnodup (List.pairwise_singleton _ leaf)).2 ?_)
  intro c
  rw [List.mem_singleton]
  refine ⟨hall c, ?_⟩
  rintro rfl
  exact hmem

/-- The node that the search ends at is the one found, for an offset up to the end of the source. -/
theorem nodeAt?_eq_some {tree : Tree} {offset : Nat} {c : Cursor}
    (hle : offset ≤ tree.source.byteSize) (htree : c.tree = tree)
    (h : Cursor.deepest (Node.within offset) 0 tree.root = (c.rank, c.node)) :
    tree.nodeAt? offset = some c := by
  subst htree
  unfold nodeAt?
  rw [if_pos hle]
  change some (⟨c.tree, (Cursor.deepest (Node.within offset) 0 c.tree.root).1,
    (Cursor.deepest (Node.within offset) 0 c.tree.root).2⟩ : Cursor) = some c
  rw [h]

end Tree

section Offset

variable (limit : Nat) (source : Text) {offset : Nat}

theorem within_root : (parse limit source).root.within offset = true ↔ offset < source.byteSize := by
  obtain ⟨hderives, hrest⟩ := Grammar.derives_file limit source
  rw [Node.within_iff, (hderives.covers hrest (root_parse limit source)).1]
  exact and_iff_right (Nat.zero_le offset)

/-- A node with the offset within is a leaf, or has a child with the offset within. -/
theorem exists_child_within {c : Cursor} (hc : c ∈ (parse limit source).rootCursor.descendants)
    (hwithin : c.node.within offset = true) (hleaf : c.node.isLeaf = false) :
    ∃ index child, c.child? index = some child ∧ child.node.within offset = true := by
  have hfits := fits_parse limit source c.node (Cursor.of_mem_descendants hc).2
  have hne : c.node.children ≠ [] := by
    rintro hnil
    rw [Node.isLeaf, hnil] at hleaf
    cases hleaf
  obtain ⟨hstart, hstop⟩ := Node.within_iff.1 hwithin
  obtain ⟨node, hmem, hnode⟩ := (hfits.tiled.row hne).exists_within hstart hstop
  rw [← Cursor.map_node_children] at hmem
  obtain ⟨child, hchild, rfl⟩ := List.mem_map.1 hmem
  obtain ⟨index, hindex⟩ := Cursor.mem_children_iff.1 hchild
  exact ⟨index, child, hindex, hnode⟩

/-- The search for an offset within the source ends at a leaf, and no other leaf has the offset
within. -/
theorem deepest_within (hlt : offset < source.byteSize) :
    ∃ leaf, Cursor.deepest (Node.within offset) 0 (parse limit source).root = (leaf.rank, leaf.node) ∧
      leaf.tree = parse limit source ∧ (parse limit source).leavesAt offset = [leaf] := by
  have nested := nested_parse limit source
  have hspan : (Span.mk offset (offset + 1)).start < (Span.mk offset (offset + 1)).stop :=
    Nat.lt_succ_self offset
  obtain ⟨path, leaf, hdeepest, hpath, hwithin, hall⟩ :=
    Cursor.deepest_spec (parse limit source).rootCursor (atMostOne_contains limit source hspan)
      (fun node hnode child hchild => Span.contains_trans (nested node hnode child hchild))
      ((within_root limit source).2 hlt)
  have hmem := Cursor.mem_descendants_iff.2 ⟨path, hpath⟩
  -- A child with the offset within would be on the path, which ends here.
  have hleaf : leaf.node.isLeaf = true := by
    refine Bool.of_not_eq_false fun hinner => ?_
    obtain ⟨index, child, hindex, hchild⟩ := exists_child_within limit source hmem hwithin hinner
    have hlonger := hall (path ++ [index]) child ((Cursor.follow?_concat hpath index).trans hindex) hchild
    have hlength := hlonger.length_le
    rw [List.length_append, List.length_singleton] at hlength
    omega
  refine ⟨leaf, hdeepest, Cursor.tree_follow hpath, Tree.leavesAt_eq_singleton ?_ ?_⟩
  · exact List.mem_filter.2 ⟨hmem, Bool.and_eq_true_iff.2 ⟨hleaf, hwithin⟩⟩
  · intro other hother
    obtain ⟨hbelow, hboth⟩ := List.mem_filter.1 hother
    obtain ⟨hend, hwithin'⟩ := Bool.and_eq_true_iff.1 hboth
    obtain ⟨path', hpath'⟩ := Cursor.mem_descendants_iff.1 hbelow
    obtain ⟨more, rfl⟩ := hall path' other hpath' hwithin'
    rw [Cursor.follow?_append, hpath', Option.bind_some] at hpath
    -- Nothing is below a leaf, so the path goes no further.
    cases more with
    | nil => exact Option.some.inj hpath
    | cons index more =>
      obtain ⟨child, hchild, -⟩ := Option.bind_eq_some_iff.1 hpath
      have hget := (Cursor.child?_eq_some_iff.1 hchild).1
      rw [List.isEmpty_iff.1 hend] at hget
      cases hget

/-- No node has the end of the source within, so the search for it stays at the root. -/
theorem deepest_end :
    Cursor.deepest (Node.within source.byteSize) 0 (parse limit source).root =
      (0, (parse limit source).root) := by
  have hnone : (parse limit source).rootCursor.children.find?
      (fun child => child.node.within source.byteSize) = none := by
    refine List.find?_eq_none.2 fun child hchild hwithin => ?_
    have hmem : child.node ∈ (parse limit source).rootCursor.node.children := by
      rw [← Cursor.map_node_children]
      exact List.mem_map_of_mem hchild
    have hnested := nested_parse limit source _ (Node.mem_preorder_self _) _ hmem
    -- What is within a child is within the root.
    rw [Node.within_eq_contains] at hwithin
    have hroot := (Node.within_eq_contains ..).trans (Span.contains_trans hnested hwithin)
    exact Nat.lt_irrefl _ ((within_root limit source).1 hroot)
  have hdeepest := Cursor.deepest_eq (Node.within source.byteSize) (parse limit source).rootCursor
  rw [hnone] at hdeepest
  exact hdeepest

end Offset

/-- At every offset within the source there is exactly one leaf, and it is the node found there. At the
end of the source the root is found, and nothing behind it. -/
theorem nodeAt?_leaf (limit : Nat) (source : Text) :
    (∀ offset, offset < source.byteSize → ∃ leaf,
      (parse limit source).leavesAt offset = [leaf] ∧
        (parse limit source).nodeAt? offset = some leaf) ∧
    (parse limit source).nodeAt? source.byteSize = some (parse limit source).rootCursor ∧
    ∀ offset, source.byteSize < offset → (parse limit source).nodeAt? offset = none := by
  refine ⟨fun offset hlt => ?_, ?_, fun offset hlt => if_neg (Nat.not_le.2 hlt)⟩
  · obtain ⟨leaf, hdeepest, htree, hleaves⟩ := deepest_within limit source hlt
    exact ⟨leaf, hleaves, Tree.nodeAt?_eq_some (Nat.le_of_lt hlt) htree hdeepest⟩
  · exact Tree.nodeAt?_eq_some (Nat.le_refl _) rfl (deepest_end limit source)

/-- Where a value is missing, an empty node stands in front of the line break; what is found is the line
break. -/
theorem nodeAt?_leaf_missingValue :
    4 < Text.byteSize "x :=\n".toList ∧ ∃ leaf,
      (parse 2 "x :=\n".toList).leavesAt 4 = [leaf] ∧
        (parse 2 "x :=\n".toList).nodeAt? 4 = some leaf ∧ leaf.kind = .token .newline := by
  have hsize : 4 < Text.byteSize "x :=\n".toList := by decide
  obtain ⟨leaf, hleaves, hfound⟩ := (nodeAt?_leaf 2 "x :=\n".toList).1 4 hsize
  have hkind : ((parse 2 "x :=\n".toList).nodeAt? 4).map (·.kind) = some (.token .newline) := by
    decide +kernel
  rw [hfound] at hkind
  exact ⟨hsize, leaf, hleaves, hfound, Option.some.inj hkind⟩

end Justfile
