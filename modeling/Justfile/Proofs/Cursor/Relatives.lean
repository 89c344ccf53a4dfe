import Justfile.Proofs.Cursor.Path

/-!
# Parents, ancestors and siblings

In the tree of a source every node contains its children, since they tile it (`nested_parse`). So the
parent of a node is what stands one step up its path, its ancestors stand further up, and its siblings
are the other children of the parent (`parse_relatives`).
-/

set_option autoImplicit false

namespace Justfile

namespace Node

/-! ## Nodes contain their children -/

/-- Siblings that each end where the next one starts stand in a row. -/
theorem row_of_adjacent {first last : Node} {rest front : Forest} (hlast : first :: rest = front ++ [last])
    (h : ∀ before a b after, first :: rest = before ++ a :: b :: after → a.span.stop = b.span.start) :
    Row first.span.start (first :: rest) last.span.stop := by
  induction rest generalizing first front with
  | nil =>
    obtain rfl : first = last := by
      have hback := congrArg List.getLast? hlast
      rw [List.getLast?_append] at hback
      exact Option.some.inj hback
    exact .cons rfl (.nil _)
  | cons second rest ih =>
    obtain ⟨front, rfl⟩ : ∃ more, front = first :: more := by
      cases front with
      | nil => cases hlast
      | cons node more =>
        obtain ⟨rfl, -⟩ := List.cons.inj hlast
        exact ⟨more, rfl⟩
    refine .cons rfl ?_
    rw [h [] first second rest rfl]
    refine ih (List.cons.inj hlast).2 fun before a b after hsplit => ?_
    exact h (first :: before) a b after (by rw [hsplit, List.cons_append])

/-- The children of a tiled node stand in a row from its start to its end. -/
theorem Tiled.row {node : Node} (tiled : node.Tiled) (hne : node.children ≠ []) :
    Row node.span.start node.children node.span.stop := by
  obtain ⟨first, rest, hfirst⟩ := List.exists_cons_of_ne_nil hne
  obtain ⟨front, last, hlast⟩ := List.eq_nil_or_concat node.children |>.resolve_left hne
  rw [List.concat_eq_append] at hlast
  rw [tiled.start first rest hfirst, tiled.stop front last hlast, hfirst]
  refine row_of_adjacent (hfirst.symm.trans hlast) fun before a b after hsplit => ?_
  exact tiled.adjacent before a b after (hfirst.trans hsplit)

/-- What stands in a row lies between its two ends. -/
theorem Row.bounds {start stop : Nat} {nodes : Forest} (h : Row start nodes stop)
    (ordered : ∀ node ∈ nodes, node.span.start ≤ node.span.stop) :
    start ≤ stop ∧ ∀ node ∈ nodes, start ≤ node.span.start ∧ node.span.stop ≤ stop := by
  induction h with
  | nil => exact ⟨Nat.le_refl _, nofun⟩
  | @cons node rest start stop hstart _ ih =>
    obtain ⟨hle, hrest⟩ := ih fun other hmem => ordered other (List.mem_cons_of_mem _ hmem)
    have hnode := ordered node List.mem_cons_self
    refine ⟨by omega, fun other hmem => ?_⟩
    rcases List.mem_cons.1 hmem with rfl | hmem
    · omega
    · have hother := hrest other hmem
      omega

theorem Tiled.nested {node : Node} (tiled : node.Tiled)
    (ordered : ∀ child ∈ node.children, child.span.start ≤ child.span.stop) : node.Nested := by
  intro child hmem
  have hrow := tiled.row (List.ne_nil_of_mem hmem)
  exact Span.contains_iff.2 ((hrow.bounds ordered).2 child hmem)

end Node

/-- All nodes of a tree fit their source. -/
theorem fits_parse (limit : Nat) (source : Text) :
    ∀ node ∈ (parse limit source).root.preorder, Grammar.Fits source node := by
  obtain ⟨hderives, hrest⟩ := Grammar.derives_file limit source
  exact (hderives.covers hrest (root_parse limit source)).2.1

theorem nested_parse (limit : Nat) (source : Text) :
    ∀ node ∈ (parse limit source).root.preorder, node.Nested := by
  intro node hnode
  refine (fits_parse limit source node hnode).tiled.nested fun child hchild => ?_
  exact (fits_parse limit source child
    (Node.mem_preorder_trans (Node.child_mem_preorder_self hchild) hnode)).ordered

namespace Cursor

/-- The last one that satisfies a test is found first from behind. -/
theorem find?_reverse_eq_some_iff {test : Cursor → Bool} {l : List Cursor} {a : Cursor} :
    l.reverse.find? test = some a ↔ ∃ size : Nat, l[size]? = some a ∧ test a = true ∧
      ∀ (more : Nat) (b : Cursor), size < more → l[more]? = some b → test b = false := by
  rw [List.find?_eq_some_iff_getElem]
  constructor
  · rintro ⟨ha, i, hi, hget, hbefore⟩
    rw [List.length_reverse] at hi
    rw [List.getElem_reverse] at hget
    refine ⟨l.length - 1 - i, hget ▸ List.getElem?_eq_getElem (by omega), ha, ?_⟩
    intro more b hmore hb
    obtain ⟨hlt, hb⟩ := List.getElem?_eq_some_iff.1 hb
    have hnot := hbefore (l.length - 1 - more) (by omega)
    have hsame : l.length - 1 - (l.length - 1 - more) = more := by omega
    simpa [List.getElem_reverse, hsame, hb] using hnot
  · rintro ⟨size, hsize, ha, hlast⟩
    obtain ⟨hlt, rfl⟩ := List.getElem?_eq_some_iff.1 hsize
    refine ⟨ha, l.length - 1 - size, by rw [List.length_reverse]; omega, ?_, fun j hj => ?_⟩
    · rw [List.getElem_reverse]
      congr 1
      omega
    · rw [List.getElem_reverse, Bool.not_eq_true']
      exact hlast (l.length - 1 - j) _ (by omega) (List.getElem?_eq_getElem _)

section Relatives

variable {tree : Tree} {p c d a : Cursor} {path : List Nat} {index : Nat}
  (nested : ∀ node ∈ tree.root.preorder, node.Nested)
include nested

/-! ## Upwards -/

theorem ancestors_of_child (hp : tree.rootCursor.follow? path = some p)
    (hc : p.child? index = some c) : c.ancestors = tree.rootCursor.along path ++ [p] := by
  rw [← along_concat hp index]
  exact ancestors_follow nested ((follow?_concat hp index).trans hc)

theorem parent?_of_child (hp : tree.rootCursor.follow? path = some p)
    (hc : p.child? index = some c) : c.parent? = some p := by
  rw [parent?, ancestors_of_child nested hp hc, List.getLast?_concat]

theorem parent?_root : tree.rootCursor.parent? = none := by
  have hnone : tree.rootCursor.ancestors = [] := @ancestors_follow _ [] _ nested rfl
  rw [parent?, hnone, List.getLast?_nil]

/-- The innermost node of a kind around a child is the nearest one up the path of the parent. -/
theorem ancestor?_of_child (hp : tree.rootCursor.follow? path = some p)
    (hc : p.child? index = some c) (kind : Node.Kind) :
    c.ancestor? kind = some a ↔ ∃ size, size ≤ path.length ∧
      tree.rootCursor.follow? (path.take size) = some a ∧ a.kind = kind ∧
        ∀ more b, size < more → more ≤ path.length →
          tree.rootCursor.follow? (path.take more) = some b → b.kind ≠ kind := by
  have hpath := (follow?_concat hp index).trans hc
  have hat : ∀ {size : Nat} {b : Cursor}, (tree.rootCursor.along (path ++ [index]))[size]? = some b ↔
      size ≤ path.length ∧ tree.rootCursor.follow? (path.take size) = some b := by
    intro size b
    by_cases hsize : size ≤ path.length
    · rw [getElem?_along hpath (by simpa using Nat.lt_succ_of_le hsize),
        List.take_append_of_le_length hsize, and_iff_right hsize]
    · have hnone : (tree.rootCursor.along (path ++ [index]))[size]? = none := by
        rw [List.getElem?_eq_none_iff, length_along hpath, List.length_append, List.length_singleton]
        omega
      simp [hnone, hsize]
  rw [ancestor?, ancestors_follow nested hpath, find?_reverse_eq_some_iff]
  simp only [hat, beq_iff_eq, beq_eq_false_iff_ne, and_assoc, and_imp]

/-! ## Sideways -/

theorem place?_of_child (hp : tree.rootCursor.follow? path = some p)
    (hc : p.child? index = some c) : c.place? = some (p, index) := by
  have hindex : p.children.findIdx? (·.rank == c.rank) = some index := by
    obtain ⟨hlt, hget⟩ := List.getElem?_eq_some_iff.1 (show p.children[index]? = some c from hc)
    rw [List.findIdx?_eq_some_iff_getElem]
    refine ⟨hlt, by rw [hget]; exact beq_self_eq_true _, fun earlier hearlier => ?_⟩
    have hbound : earlier < p.children.length := Nat.lt_trans hearlier hlt
    have hchild : p.child? earlier = some p.children[earlier] := List.getElem?_eq_getElem hbound
    have hapart := rank_of_children hchild hc hearlier
    have hpos := count_pos p.children[earlier].node
    simp only [beq_iff_eq]
    omega
  rw [place?, parent?_of_child nested hp hc]
  change (p.children.findIdx? _).bind _ = _
  rw [hindex]
  rfl

theorem siblingsBefore_of_child (hp : tree.rootCursor.follow? path = some p)
    (hc : p.child? index = some c) : c.siblingsBefore = (p.children.take index).reverse := by
  rw [siblingsBefore, place?_of_child nested hp hc]

theorem siblingsAfter_of_child (hp : tree.rootCursor.follow? path = some p)
    (hc : p.child? index = some c) : c.siblingsAfter = p.children.drop (index + 1) := by
  rw [siblingsAfter, place?_of_child nested hp hc]

theorem next?_of_child (hp : tree.rootCursor.follow? path = some p)
    (hc : p.child? index = some c) : c.next? = p.child? (index + 1) := by
  rw [next?, siblingsAfter_of_child nested hp hc, List.head?_drop]
  rfl

theorem previous?_of_child (hp : tree.rootCursor.follow? path = some p)
    (hc : p.child? index = some c) :
    c.previous? = if index = 0 then none else p.child? (index - 1) := by
  rw [previous?, siblingsBefore_of_child nested hp hc, List.head?_reverse, List.getLast?_take]
  obtain ⟨hlt, -⟩ := List.getElem?_eq_some_iff.1 (show p.children[index]? = some c from hc)
  cases index with
  | zero => rfl
  | succ index =>
    rw [if_neg (Nat.succ_ne_zero _), if_neg (Nat.succ_ne_zero _), Nat.add_sub_cancel,
      List.getElem?_eq_getElem (by omega), Option.some_or]
    exact (List.getElem?_eq_getElem _).symm

end Relatives

end Cursor

/-- In the tree of a source different paths from the root lead to different places, and the root has no
parent. The parent of any other node is the node one step up its path; the innermost node of a kind
around it is the nearest one of the kind further up; and the siblings next to it are the children of
the parent before and after it, so that going to one and back leads to the node again. -/
theorem parse_relatives (limit : Nat) (source : Text) :
    (∀ path path' c c', (parse limit source).rootCursor.follow? path = some c →
      (parse limit source).rootCursor.follow? path' = some c' → (c.rank = c'.rank ↔ path = path')) ∧
    (parse limit source).rootCursor.parent? = none ∧
    ∀ path index p c, (parse limit source).rootCursor.follow? path = some p →
      p.child? index = some c →
        c.parent? = some p ∧
        (∀ kind a, c.ancestor? kind = some a ↔ ∃ size, size ≤ path.length ∧
          (parse limit source).rootCursor.follow? (path.take size) = some a ∧ a.kind = kind ∧
            ∀ more b, size < more → more ≤ path.length →
              (parse limit source).rootCursor.follow? (path.take more) = some b → b.kind ≠ kind) ∧
        c.next? = p.child? (index + 1) ∧
        c.previous? = (if index = 0 then none else p.child? (index - 1)) ∧
        (∀ d, c.next? = some d → d.previous? = some c) ∧
        ∀ d, c.previous? = some d → d.next? = some c := by
  have nested := nested_parse limit source
  refine ⟨?_, Cursor.parent?_root nested, ?_⟩
  · intro path path' c c' hc hc'
    refine ⟨Cursor.path_eq_of_rank hc hc', ?_⟩
    rintro rfl
    cases hc.symm.trans hc'
    rfl
  · intro path index p c hp hc
    have hnext := Cursor.next?_of_child nested hp hc
    have hprevious := Cursor.previous?_of_child nested hp hc
    refine ⟨Cursor.parent?_of_child nested hp hc,
      fun kind a => Cursor.ancestor?_of_child nested hp hc kind, hnext, hprevious, ?_, ?_⟩
    · intro d hd
      have hd' := hnext.symm.trans hd
      rw [Cursor.previous?_of_child nested hp hd', if_neg (Nat.succ_ne_zero _), Nat.add_sub_cancel, hc]
    · intro d hd
      rw [hprevious] at hd
      split at hd
      · cases hd
      · next hne =>
        rw [Cursor.next?_of_child nested hp hd, Nat.sub_add_cancel (Nat.pos_of_ne_zero hne), hc]

end Justfile
