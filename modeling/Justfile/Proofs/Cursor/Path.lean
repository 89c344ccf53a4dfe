import Justfile.Proofs.Cursor
import Justfile.Proofs.Tree.Coverage

/-!
# Paths through trees

A path leads from a node to one below it: at each step it says how many children to pass over. The
descendants of a cursor are the ends of its paths (`Cursor.mem_descendants_iff`), and paths with different
ends end at different ranks (`Cursor.path_eq_of_rank`). So the rank of a cursor is its place in the tree,
whatever the node there looks like.

A cursor does not remember its path. Its ancestors are looked for again from the root, by a search that
enters a node only if the span looked for lies inside. Where every node contains its children
(`Node.Nested`), the search finds what the path leads through (`Cursor.ancestors_follow`), and so parents
and siblings are those along the path.
-/

set_option autoImplicit false

namespace Justfile

namespace Node

theorem countList_append (front back : Forest) :
    countList (front ++ back) = countList front + countList back := by
  induction front with
  | nil => rw [List.nil_append, countList_nil, Nat.zero_add]
  | cons node front ih => rw [List.cons_append, countList_cons, countList_cons, ih, Nat.add_assoc]

theorem count_eq (node : Node) : node.count = 1 + countList node.children := by
  cases node
  rfl

/-- Siblings up to one of them and from it on. -/
theorem countList_take_add_count {nodes : Forest} {index : Nat} {node : Node}
    (h : nodes[index]? = some node) :
    countList (nodes.take index) + node.count = countList (nodes.take (index + 1)) := by
  rw [List.take_add_one, h, countList_append]
  rfl

theorem countList_take_le {nodes : Forest} {first second : Nat} (h : first ≤ second) :
    countList (nodes.take first) ≤ countList (nodes.take second) := by
  obtain ⟨more, hmore⟩ := List.take_prefix_take_left h (l := nodes)
  rw [← hmore, countList_append]
  exact Nat.le_add_right _ _

theorem countList_take_le_self (nodes : Forest) (index : Nat) :
    countList (nodes.take index) ≤ countList nodes := by
  calc countList (nodes.take index)
      ≤ countList (nodes.take index) + countList (nodes.drop index) := Nat.le_add_right _ _
    _ = countList nodes := by rw [← countList_append, List.take_append_drop]

end Node

namespace Cursor

open Node (countList)

/-- The cursor at the end of a path. -/
def follow? (c : Cursor) : List Nat → Option Cursor
  | [] => some c
  | index :: path => (c.child? index).bind fun child => child.follow? path

/-- The cursors that a path leads through, in front of its end. -/
def along (c : Cursor) : List Nat → List Cursor
  | [] => []
  | index :: path => c :: ((c.child? index).map fun child => child.along path).getD []

section Path

variable {c d p a b : Cursor} {index first second : Nat} {path path' : List Nat}

/-! ## Ranks of children -/

theorem getElem?_placeList (tree : Tree) (rank : Nat) (nodes : Forest) (index : Nat) :
    (placeList tree rank nodes)[index]? =
      nodes[index]?.map fun node => ⟨tree, rank + countList (nodes.take index), node⟩ := by
  induction nodes generalizing rank index with
  | nil => rfl
  | cons node rest ih =>
    cases index with
    | zero => rfl
    | succ index =>
      rw [placeList, List.getElem?_cons_succ, ih, List.getElem?_cons_succ, List.take_succ_cons,
        Node.countList_cons, Nat.add_assoc]

theorem child?_eq (c : Cursor) (index : Nat) :
    c.child? index = c.node.children[index]?.map fun node =>
      ⟨c.tree, c.rank + 1 + countList (c.node.children.take index), node⟩ :=
  getElem?_placeList ..

theorem child?_eq_some_iff :
    p.child? index = some c ↔ p.node.children[index]? = some c.node ∧ c.tree = p.tree ∧
      c.rank = p.rank + 1 + countList (p.node.children.take index) := by
  rw [child?_eq, Option.map_eq_some_iff]
  constructor
  · rintro ⟨node, hnode, rfl⟩
    exact ⟨hnode, rfl, rfl⟩
  · rintro ⟨hnode, htree, hrank⟩
    refine ⟨c.node, hnode, ?_⟩
    rw [← htree, ← hrank]

/-- The ranks below a child are among those below its parent. -/
theorem rank_of_child (h : p.child? index = some c) :
    p.rank < c.rank ∧ c.rank + c.node.count ≤ p.rank + p.node.count := by
  obtain ⟨hnode, -, hrank⟩ := child?_eq_some_iff.1 h
  have hcount := Node.countList_take_add_count hnode
  have hle := Node.countList_take_le_self p.node.children (index + 1)
  rw [p.node.count_eq]
  omega

/-- All ranks below a child come before those of later children. -/
theorem rank_of_children (hfirst : p.child? first = some a) (hsecond : p.child? second = some b)
    (hlt : first < second) : a.rank + a.node.count ≤ b.rank := by
  obtain ⟨hnode, -, hrank⟩ := child?_eq_some_iff.1 hfirst
  obtain ⟨-, -, hrank'⟩ := child?_eq_some_iff.1 hsecond
  have hcount := Node.countList_take_add_count hnode
  have hle := @Node.countList_take_le p.node.children (first + 1) second hlt
  omega

theorem count_pos (node : Node) : 0 < node.count := by
  rw [node.count_eq]
  omega

/-- Children are in the order of their ranks. -/
theorem rank_lt_iff (hfirst : p.child? first = some a) (hsecond : p.child? second = some b) :
    a.rank < b.rank ↔ first < second := by
  have hpos := count_pos a.node
  have hpos' := count_pos b.node
  rcases Nat.lt_trichotomy first second with hlt | rfl | hlt
  · have hapart := rank_of_children hfirst hsecond hlt
    omega
  · cases hfirst.symm.trans hsecond
    omega
  · have hapart := rank_of_children hsecond hfirst hlt
    omega

theorem mem_children_iff : c ∈ p.children ↔ ∃ index, p.child? index = some c :=
  List.mem_iff_getElem?

/-! ## Ends of paths -/

@[simp] theorem follow?_nil (c : Cursor) : c.follow? [] = some c := rfl

@[simp] theorem follow?_cons (c : Cursor) (index : Nat) (path : List Nat) :
    c.follow? (index :: path) = (c.child? index).bind fun child => child.follow? path := rfl

theorem follow?_cons_of_child (h : p.child? index = some c) (path : List Nat) :
    p.follow? (index :: path) = c.follow? path := by
  rw [follow?_cons, h, Option.bind_some]

theorem follow?_append (c : Cursor) (path path' : List Nat) :
    c.follow? (path ++ path') = (c.follow? path).bind fun d => d.follow? path' := by
  induction path generalizing c with
  | nil => rfl
  | cons index path ih =>
    rw [List.cons_append, follow?_cons, follow?_cons, Option.bind_assoc]
    congr 1
    funext child
    exact ih child

/-- A path that goes on to a child. -/
theorem follow?_concat (h : c.follow? path = some p) (index : Nat) :
    c.follow? (path ++ [index]) = p.child? index := by
  rw [follow?_append, h, Option.bind_some, follow?_cons]
  exact Option.bind_fun_some _

theorem tree_follow (h : c.follow? path = some d) : d.tree = c.tree := by
  induction path generalizing c with
  | nil =>
    cases h
    rfl
  | cons index path ih =>
    obtain ⟨child, hchild, hd⟩ := Option.bind_eq_some_iff.1 h
    exact (ih hd).trans (child?_eq_some_iff.1 hchild).2.1

/-- The ranks below the end of a path are among those below its start. -/
theorem rank_follow (h : c.follow? path = some d) :
    c.rank ≤ d.rank ∧ d.rank + d.node.count ≤ c.rank + c.node.count := by
  induction path generalizing c with
  | nil =>
    cases h
    exact ⟨Nat.le_refl _, Nat.le_refl _⟩
  | cons index path ih =>
    obtain ⟨child, hchild, hd⟩ := Option.bind_eq_some_iff.1 h
    have hrank := rank_of_child hchild
    have hbelow := ih hd
    omega

theorem rank_lt_of_follow (h : c.follow? (index :: path) = some d) : c.rank < d.rank := by
  obtain ⟨child, hchild, hd⟩ := Option.bind_eq_some_iff.1 h
  have hrank := rank_of_child hchild
  have hbelow := rank_follow hd
  omega

/-- Where paths part, all that is below the end of the first one comes before the end of the second. -/
theorem rank_of_parted {child child' : Cursor} {index index' : Nat}
    (hchild : c.child? index = some child) (hchild' : c.child? index' = some child')
    (ha : child.follow? path = some a) (hb : child'.follow? path' = some b) (hlt : index < index') :
    a.rank + a.node.count ≤ b.rank := by
  have hapart := rank_of_children hchild hchild' hlt
  have hbelow := rank_follow ha
  have hbelow' := rank_follow hb
  omega

/-- Paths that part end at different ranks. -/
theorem path_eq_of_rank (ha : c.follow? path = some a) (hb : c.follow? path' = some b)
    (hrank : a.rank = b.rank) : path = path' := by
  induction path generalizing c path' with
  | nil =>
    cases path' with
    | nil => rfl
    | cons index path' =>
      have hlt := rank_lt_of_follow hb
      cases ha
      omega
  | cons index path ih =>
    cases path' with
    | nil =>
      have hlt := rank_lt_of_follow ha
      cases hb
      omega
    | cons index' path' =>
      obtain ⟨child, hchild, ha⟩ := Option.bind_eq_some_iff.1 ha
      obtain ⟨child', hchild', hb⟩ := Option.bind_eq_some_iff.1 hb
      have hpos := count_pos a.node
      have hpos' := count_pos b.node
      rcases Nat.lt_trichotomy index index' with hlt | rfl | hlt
      · have hapart := rank_of_parted hchild hchild' ha hb hlt
        omega
      · cases hchild.symm.trans hchild'
        rw [ih ha hb]
      · have hapart := rank_of_parted hchild' hchild hb ha hlt
        omega

/-! ## Descendants -/

theorem map_descendants_placeList (tree : Tree) (rank : Nat) (nodes : Forest) :
    (placeList tree rank nodes).flatMap descendants =
      ((Node.preorderList nodes).zipIdx rank).map fun (node, rank) => ⟨tree, rank, node⟩ := by
  induction nodes generalizing rank with
  | nil => rfl
  | cons node rest ih =>
    rw [placeList, List.flatMap_cons, ih, Node.preorderList_cons, List.zipIdx_append, List.map_append,
      Node.length_preorder]
    rfl

/-- A cursor is listed in front of what is below its children. -/
theorem descendants_eq (c : Cursor) : c.descendants = c :: c.children.flatMap descendants := by
  rw [children, map_descendants_placeList, descendants, Node.preorder_eq_cons, List.zipIdx_cons,
    List.map_cons]

theorem count_lt_of_mem_children (h : c ∈ p.children) : c.node.count < p.node.count := by
  obtain ⟨index, hchild⟩ := mem_children_iff.1 h
  have hrank := rank_of_child hchild
  omega

theorem exists_follow_of_mem (c : Cursor) (h : d ∈ c.descendants) :
    ∃ path, c.follow? path = some d := by
  rw [descendants_eq] at h
  rcases List.mem_cons.1 h with rfl | h
  · exact ⟨[], rfl⟩
  · obtain ⟨child, hmem, hd⟩ := List.mem_flatMap.1 h
    have hlt := count_lt_of_mem_children hmem
    obtain ⟨index, hchild⟩ := mem_children_iff.1 hmem
    obtain ⟨path, hpath⟩ := exists_follow_of_mem child hd
    exact ⟨index :: path, (follow?_cons_of_child hchild path).trans hpath⟩
termination_by c.node.count

/-- The descendants are the ends of paths. -/
theorem mem_descendants_iff : d ∈ c.descendants ↔ ∃ path, c.follow? path = some d := by
  refine ⟨exists_follow_of_mem c, ?_⟩
  rintro ⟨path, h⟩
  induction path generalizing c with
  | nil =>
    cases h
    rw [descendants_eq]
    exact List.mem_cons_self
  | cons index path ih =>
    obtain ⟨child, hchild, hd⟩ := Option.bind_eq_some_iff.1 h
    rw [descendants_eq]
    exact List.mem_cons_of_mem _
      (List.mem_flatMap.2 ⟨child, mem_children_iff.2 ⟨index, hchild⟩, ih hd⟩)

theorem mem_descendants_trans (hd : d ∈ c.descendants) (ha : a ∈ d.descendants) :
    a ∈ c.descendants := by
  obtain ⟨path, hpath⟩ := mem_descendants_iff.1 hd
  obtain ⟨path', hpath'⟩ := mem_descendants_iff.1 ha
  refine mem_descendants_iff.2 ⟨path ++ path', ?_⟩
  rw [follow?_append, hpath, Option.bind_some, hpath']

theorem mem_descendants_of_mem_children (h : c ∈ p.children) : c ∈ p.descendants := by
  obtain ⟨index, hchild⟩ := mem_children_iff.1 h
  exact mem_descendants_iff.2 ⟨[index], follow?_cons_of_child hchild []⟩

/-- Descendants are listed by their ranks. -/
theorem pairwise_rank_descendants (c : Cursor) :
    c.descendants.Pairwise fun a b => a.rank < b.rank := by
  rw [descendants, List.pairwise_map, List.pairwise_iff_getElem]
  intro i j hi hj hlt
  simp only [List.getElem_zipIdx]
  omega

/-- So are children. -/
theorem pairwise_rank_children (c : Cursor) : c.children.Pairwise fun a b => a.rank < b.rank := by
  rw [List.pairwise_iff_getElem]
  intro i j hi hj hlt
  exact (rank_lt_iff (List.getElem?_eq_getElem hi) (List.getElem?_eq_getElem hj)).2 hlt

/-- Of two places one is below the other, or all that is below the first one comes before the second. -/
theorem below_or_behind (ha : c.follow? path = some a) (hb : c.follow? path' = some b)
    (hlt : a.rank < b.rank) : b ∈ a.descendants ∨ a.rank + a.node.count ≤ b.rank := by
  induction path generalizing c path' with
  | nil =>
    cases ha
    exact .inl (mem_descendants_iff.2 ⟨path', hb⟩)
  | cons index path ih =>
    cases path' with
    | nil =>
      have hrank := (rank_follow ha).1
      cases hb
      omega
    | cons index' path' =>
      obtain ⟨child, hchild, ha⟩ := Option.bind_eq_some_iff.1 ha
      obtain ⟨child', hchild', hb⟩ := Option.bind_eq_some_iff.1 hb
      rcases Nat.lt_trichotomy index index' with hbefore | rfl | hbehind
      · exact .inr (rank_of_parted hchild hchild' ha hb hbefore)
      · cases hchild.symm.trans hchild'
        exact ih ha hb
      · have hapart := rank_of_parted hchild' hchild hb ha hbehind
        have hpos := count_pos b.node
        omega

/-! ## What a path leads through -/

theorem along_cons (h : c.child? index = some p) (path : List Nat) :
    c.along (index :: path) = c :: p.along path := by
  simp only [along, h]
  rfl

theorem length_along (h : c.follow? path = some d) : (c.along path).length = path.length := by
  induction path generalizing c with
  | nil => rfl
  | cons index path ih =>
    obtain ⟨child, hchild, hd⟩ := Option.bind_eq_some_iff.1 h
    rw [along_cons hchild, List.length_cons, List.length_cons, ih hd]

/-- A path leads through the ends of its shorter fronts. -/
theorem getElem?_along (h : c.follow? path = some d) {size : Nat} (hsize : size < path.length) :
    (c.along path)[size]? = c.follow? (path.take size) := by
  induction path generalizing c size with
  | nil => cases hsize
  | cons index path ih =>
    obtain ⟨child, hchild, hd⟩ := Option.bind_eq_some_iff.1 h
    rw [along_cons hchild]
    cases size with
    | zero => rfl
    | succ size =>
      rw [List.getElem?_cons_succ, List.take_succ_cons, follow?_cons_of_child hchild]
      exact ih hd (Nat.lt_of_succ_lt_succ hsize)

theorem along_concat (h : c.follow? path = some p) (index : Nat) :
    c.along (path ++ [index]) = c.along path ++ [p] := by
  induction path generalizing c with
  | nil =>
    cases h
    change p :: ((p.child? index).map fun _ => ([] : List Cursor)).getD [] = [p]
    cases p.child? index <;> rfl
  | cons first path ih =>
    obtain ⟨child, hchild, hd⟩ := Option.bind_eq_some_iff.1 h
    rw [List.cons_append, along_cons hchild, along_cons hchild, ih hd, List.cons_append]

theorem tree_of_mem_along (h : a ∈ c.along path) : a.tree = c.tree := by
  induction path generalizing c with
  | nil => cases h
  | cons index path ih =>
    cases hchild : c.child? index with
    | none =>
      simp only [along, hchild, Option.map_none, Option.getD_none, List.mem_singleton] at h
      rw [h]
    | some child =>
      rw [along_cons hchild] at h
      rcases List.mem_cons.1 h with rfl | h
      · rfl
      · exact (ih h).trans (child?_eq_some_iff.1 hchild).2.1

end Path

end Cursor

/-! ## Searching for a place -/

/-- All children lie inside. -/
def Node.Nested (node : Node) : Prop :=
  ∀ child ∈ node.children, node.span.contains child.span = true

theorem Span.contains_iff {outer inner : Span} :
    outer.contains inner = true ↔ outer.start ≤ inner.start ∧ inner.stop ≤ outer.stop := by
  simp [contains]

theorem Span.contains_self (span : Span) : span.contains span = true :=
  contains_iff.2 ⟨Nat.le_refl _, Nat.le_refl _⟩

theorem Span.contains_trans {outer middle inner : Span} (h : outer.contains middle = true)
    (h' : middle.contains inner = true) : outer.contains inner = true := by
  rw [contains_iff] at *
  omega

namespace Cursor

open Node (countList)

section Search

variable {c d p a b : Cursor} {index target rank : Nat} {path path' : List Nat} {span : Span}

theorem pathTo?_self (rank : Nat) (span : Span) (node : Node) :
    pathTo? rank span rank node = some [] := by
  cases node
  rw [pathTo?, if_pos rfl]

/-- A node that contains the span is entered. -/
theorem pathTo?_of_contains {node : Node} (hne : rank ≠ target)
    (hinside : node.span.contains span = true) :
    pathTo? target span rank node =
      (pathThrough? target span (rank + 1) node.children).map ((rank, node) :: ·) := by
  cases node
  rw [pathTo?, if_neg hne, if_pos hinside]

mutual
/-- What is not below a node is not found there. -/
theorem pathTo?_eq_none (node : Node) {rank : Nat}
    (h : target < rank ∨ rank + node.count ≤ target) : pathTo? target span rank node = none := by
  obtain ⟨field, kind, own, children⟩ := node
  have hcount : Node.count ⟨field, kind, own, children⟩ = 1 + countList children := rfl
  rw [pathTo?, if_neg (by omega), pathThrough?_eq_none children (by omega), Option.map_none, ite_self]
theorem pathThrough?_eq_none (nodes : Forest) {rank : Nat}
    (h : target < rank ∨ rank + countList nodes ≤ target) :
    pathThrough? target span rank nodes = none := by
  cases nodes with
  | nil => rfl
  | cons node rest =>
    rw [Node.countList_cons] at h
    rw [pathThrough?, pathTo?_eq_none node (by omega)]
    exact pathThrough?_eq_none rest (by omega)
end

/-- Siblings below which nothing is found are passed over. -/
theorem pathThrough?_append {front : Forest} (back : Forest)
    (h : pathThrough? target span rank front = none) :
    pathThrough? target span rank (front ++ back) =
      pathThrough? target span (rank + countList front) back := by
  induction front generalizing rank with
  | nil => rfl
  | cons node front ih =>
    rw [pathThrough?] at h
    cases hnode : pathTo? target span rank node with
    | some path =>
      rw [hnode] at h
      cases h
    | none =>
      rw [hnode] at h
      rw [List.cons_append, pathThrough?, hnode, Node.countList_cons, ← Nat.add_assoc]
      exact ih h

/-- The search goes through the sibling that the target is below. -/
theorem pathThrough?_eq_some {nodes : Forest} {node : Node} {trail : List (Nat × Node)}
    (hnode : nodes[index]? = some node) (hle : rank + countList (nodes.take index) ≤ target)
    (h : pathTo? target span (rank + countList (nodes.take index)) node = some trail) :
    pathThrough? target span rank nodes = some trail := by
  obtain ⟨hlt, rfl⟩ := List.getElem?_eq_some_iff.1 hnode
  have hfront : pathThrough? target span rank (nodes.take index) = none :=
    pathThrough?_eq_none _ (.inr hle)
  have hall := pathThrough?_append (nodes.drop index) hfront
  rw [List.take_append_drop, List.drop_eq_getElem_cons hlt, pathThrough?, h] at hall
  exact hall

/-- What is below a node lies inside. -/
theorem contains_follow (nested : ∀ node ∈ c.node.preorder, node.Nested)
    (h : c.follow? path = some d) : c.span.contains d.span = true := by
  induction path generalizing c with
  | nil =>
    cases h
    exact Span.contains_self _
  | cons index path ih =>
    obtain ⟨child, hchild, hd⟩ := Option.bind_eq_some_iff.1 h
    have hmem := List.mem_of_getElem? (child?_eq_some_iff.1 hchild).1
    have hinside := nested _ c.node.mem_preorder_self _ hmem
    refine Span.contains_trans hinside (ih (fun node hnode => nested node ?_) hd)
    exact Node.mem_preorder_trans hnode (Node.child_mem_preorder_self hmem)

/-- The search finds what the path leads through. -/
theorem pathTo?_follow (nested : ∀ node ∈ c.node.preorder, node.Nested)
    (h : c.follow? path = some d) :
    pathTo? d.rank d.span c.rank c.node = some ((c.along path).map fun a => (a.rank, a.node)) := by
  induction path generalizing c with
  | nil =>
    cases h
    exact pathTo?_self ..
  | cons index path ih =>
    have hinside := contains_follow nested h
    have hlt := rank_lt_of_follow h
    obtain ⟨child, hchild, hd⟩ := Option.bind_eq_some_iff.1 h
    obtain ⟨hnode, -, hrank⟩ := child?_eq_some_iff.1 hchild
    have hmem := List.mem_of_getElem? hnode
    have htrail := ih (fun node hbelow => nested node
      (Node.mem_preorder_trans hbelow (Node.child_mem_preorder_self hmem))) hd
    rw [hrank] at htrail
    have hle := (rank_follow hd).1
    rw [along_cons hchild]
    rw [pathTo?_of_contains (Nat.ne_of_lt hlt) hinside,
      pathThrough?_eq_some hnode (hrank ▸ hle) htrail]
    rfl

/-- The ancestors of a place are what the path from the root leads through. -/
theorem ancestors_follow {tree : Tree} (nested : ∀ node ∈ tree.root.preorder, node.Nested)
    (h : tree.rootCursor.follow? path = some d) : d.ancestors = tree.rootCursor.along path := by
  have htree : d.tree = tree := tree_follow h
  have hpath : pathTo? d.rank d.span 0 tree.root = _ := pathTo?_follow nested h
  rw [ancestors, htree, hpath, Option.getD_some, List.map_map]
  refine (List.map_congr_left fun a hmem => ?_).trans (List.map_id _)
  have hsame : a.tree = tree := tree_of_mem_along hmem
  change (⟨tree, a.rank, a.node⟩ : Cursor) = a
  rw [← hsame]

end Search

end Cursor

end Justfile
