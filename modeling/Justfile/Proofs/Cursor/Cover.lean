import Justfile.Proofs.Cursor.Relatives

/-!
# The node that covers a span

The search by place goes down through the first child that is wanted, and never back. Where wanted nodes
lie inside of wanted nodes only, and no two siblings are wanted, it ends at the deepest wanted node, and
all the others are on its path (`Cursor.deepest_spec`). Siblings in a row do not share any text, so this is
the case for nodes that contain a span with text in it: the search finds the smallest one
(`nodeCovering?_smallest`).
-/

set_option autoImplicit false

namespace Justfile

namespace Cursor

/-! ## Going down -/

/-- No two of the siblings are wanted. -/
def AtMostOne (wanted : Node → Bool) (nodes : Forest) : Prop :=
  ∀ (first second : Nat) (a b : Node), nodes[first]? = some a → nodes[second]? = some b →
    wanted a = true → wanted b = true → first = second

section Deepest

variable {wanted : Node → Bool} {c d : Cursor} {path : List Nat}

theorem deepestAmong?_eq (wanted : Node → Bool) (tree : Tree) (rank : Nat) (nodes : Forest) :
    deepestAmong? wanted rank nodes =
      ((placeList tree rank nodes).find? fun child => wanted child.node).map
        fun child => deepest wanted child.rank child.node := by
  induction nodes generalizing rank with
  | nil => rfl
  | cons node rest ih =>
    rw [deepestAmong?, placeList, List.find?_cons]
    cases hwanted : wanted node with
    | true => rfl
    | false => exact ih _

/-- The search stops where no child is wanted, and goes on to the first one otherwise. -/
theorem deepest_eq (wanted : Node → Bool) (c : Cursor) :
    deepest wanted c.rank c.node =
      ((c.children.find? fun child => wanted child.node).map
        fun child => deepest wanted child.rank child.node).getD (c.rank, c.node) := by
  rw [children, ← deepestAmong?_eq]
  obtain ⟨tree, rank, ⟨field, kind, span, nodes⟩⟩ := c
  rfl

/-- What is wanted below a node is wanted nowhere but below a wanted child. -/
theorem wanted_of_follow
    (closed : ∀ node ∈ c.node.preorder, ∀ child ∈ node.children, wanted child = true →
      wanted node = true)
    (h : c.follow? path = some d) (hd : wanted d.node = true) : wanted c.node = true := by
  induction path generalizing c with
  | nil =>
    cases h
    exact hd
  | cons index path ih =>
    obtain ⟨child, hchild, hbelow⟩ := Option.bind_eq_some_iff.1 h
    have hmem := List.mem_of_getElem? (child?_eq_some_iff.1 hchild).1
    refine closed _ c.node.mem_preorder_self _ hmem (ih (fun node hnode => closed node ?_) hbelow)
    exact Node.mem_preorder_trans hnode (Node.child_mem_preorder_self hmem)

/-- The search ends at a wanted node, and the path to it leads through all the others. -/
theorem deepest_spec (c : Cursor)
    (unique : ∀ node ∈ c.node.preorder, AtMostOne wanted node.children)
    (closed : ∀ node ∈ c.node.preorder, ∀ child ∈ node.children, wanted child = true →
      wanted node = true)
    (hc : wanted c.node = true) :
    ∃ path d, deepest wanted c.rank c.node = (d.rank, d.node) ∧ c.follow? path = some d ∧
      wanted d.node = true ∧
        ∀ path' e, c.follow? path' = some e → wanted e.node = true → path' <+: path := by
  have hbelow : ∀ {index child}, c.child? index = some child →
      ∀ node ∈ child.node.preorder, node ∈ c.node.preorder := fun hchild node hnode =>
    Node.mem_preorder_trans hnode
      (Node.child_mem_preorder_self (List.mem_of_getElem? (child?_eq_some_iff.1 hchild).1))
  -- A path to a wanted node leads through a wanted child.
  have hthrough : ∀ {index path' e}, c.follow? (index :: path') = some e → wanted e.node = true →
      ∃ child, c.child? index = some child ∧ wanted child.node = true ∧
        child.follow? path' = some e := by
    intro index path' e he hwanted
    obtain ⟨child, hchild, he⟩ := Option.bind_eq_some_iff.1 he
    exact ⟨child, hchild,
      wanted_of_follow (fun node hnode => closed node (hbelow hchild node hnode)) he hwanted, he⟩
  rw [deepest_eq]
  cases hfind : c.children.find? fun child => wanted child.node with
  | none =>
    refine ⟨[], c, rfl, rfl, hc, fun path' e he hwanted => ?_⟩
    cases path' with
    | nil => exact List.nil_prefix
    | cons index path' =>
      obtain ⟨child, hchild, hone, -⟩ := hthrough he hwanted
      exact absurd hone (List.find?_eq_none.1 hfind child (mem_children_iff.2 ⟨index, hchild⟩))
  | some child =>
    have hone : wanted child.node = true := by simpa using List.find?_some hfind
    have hmem := List.mem_of_find?_eq_some hfind
    have hlt := count_lt_of_mem_children hmem
    obtain ⟨index, hchild⟩ := mem_children_iff.1 hmem
    obtain ⟨path, d, hdeepest, hpath, hd, hall⟩ := deepest_spec child
      (fun node hnode => unique node (hbelow hchild node hnode))
      (fun node hnode => closed node (hbelow hchild node hnode)) hone
    refine ⟨index :: path, d, hdeepest, (follow?_cons_of_child hchild path).trans hpath, hd, ?_⟩
    intro path' e he hwanted
    cases path' with
    | nil => exact List.nil_prefix
    | cons other path' =>
      obtain ⟨child', hchild', hone', he⟩ := hthrough he hwanted
      obtain rfl := unique _ c.node.mem_preorder_self other index _ _
        (child?_eq_some_iff.1 hchild').1 (child?_eq_some_iff.1 hchild).1 hone' hone
      cases hchild.symm.trans hchild'
      exact (List.prefix_cons_inj other).2 (hall path' e he hwanted)
termination_by c.node.count

end Deepest

end Cursor

/-! ## Spans with text in them -/

/-- Of siblings in a row each lies behind the ones before it. -/
theorem Node.Row.stop_le_start {start stop first second : Nat} {nodes : Forest} {a b : Node}
    (h : Row start nodes stop) (ordered : ∀ node ∈ nodes, node.span.start ≤ node.span.stop)
    (ha : nodes[first]? = some a) (hb : nodes[second]? = some b) (hlt : first < second) :
    a.span.stop ≤ b.span.start := by
  induction h generalizing first second with
  | nil => cases ha
  | @cons node rest start stop hstart hrow ih =>
    have hrest : ∀ other ∈ rest, other.span.start ≤ other.span.stop := fun other hmem =>
      ordered other (List.mem_cons_of_mem _ hmem)
    obtain ⟨second, rfl⟩ := Nat.exists_eq_succ_of_ne_zero (Nat.ne_zero_of_lt hlt)
    cases first with
    | zero =>
      obtain rfl := Option.some.inj ha
      exact ((hrow.bounds hrest).2 b (List.mem_of_getElem? hb)).1
    | succ first => exact ih hrest ha hb (Nat.lt_of_succ_lt_succ hlt)

/-- Below a place whose nodes are tiled, none starts within a leaf. -/
theorem Cursor.starts_outside_leaf {c a b : Cursor} {path path' : List Nat}
    (fits : ∀ node ∈ c.node.preorder, node.Tiled ∧ node.span.start ≤ node.span.stop)
    (ha : c.follow? path = some a) (hleaf : a.node.children = [])
    (hb : c.follow? path' = some b) :
    b.span.start ≤ a.span.start ∨ a.span.stop ≤ b.span.start := by
  have nested : ∀ {p : Cursor}, p.node ∈ c.node.preorder →
      ∀ node ∈ p.node.preorder, node.Nested := by
    intro p hp node hnode
    have hmem := Node.mem_preorder_trans hnode hp
    refine (fits node hmem).1.nested fun child hchild => ?_
    exact (fits child (Node.mem_preorder_trans (Node.child_mem_preorder_self hchild) hmem)).2
  -- The two paths are followed until they part; the children of one node stand in a row.
  induction path generalizing c path' with
  | nil =>
    cases ha
    cases path' with
    | nil =>
      cases hb
      exact .inl (Nat.le_refl _)
    | cons index path' =>
      obtain ⟨child, hchild, -⟩ := Option.bind_eq_some_iff.1 hb
      have hmem := List.mem_of_getElem? (child?_eq_some_iff.1 hchild).1
      rw [hleaf] at hmem
      cases hmem
  | cons index path ih =>
    cases path' with
    | nil =>
      have hinside := contains_follow (nested c.node.mem_preorder_self) ha
      cases hb
      exact .inl (Span.contains_iff.1 hinside).1
    | cons index' path' =>
      obtain ⟨child, hchild, ha⟩ := Option.bind_eq_some_iff.1 ha
      obtain ⟨child', hchild', hb⟩ := Option.bind_eq_some_iff.1 hb
      have hget := (child?_eq_some_iff.1 hchild).1
      have hget' := (child?_eq_some_iff.1 hchild').1
      have hbelow := Node.child_mem_preorder_self (List.mem_of_getElem? hget)
      have hbelow' := Node.child_mem_preorder_self (List.mem_of_getElem? hget')
      have hinside := Span.contains_iff.1 (contains_follow (nested hbelow) ha)
      have hinside' := Span.contains_iff.1 (contains_follow (nested hbelow') hb)
      have ordered : ∀ node ∈ c.node.children, node.span.start ≤ node.span.stop :=
        fun node hnode => (fits node (Node.child_mem_preorder_self hnode)).2
      have hrow := (fits c.node c.node.mem_preorder_self).1.row
        (List.ne_nil_of_mem (List.mem_of_getElem? hget))
      rcases Nat.lt_trichotomy index index' with hlt | rfl | hlt
      · have hapart := hrow.stop_le_start ordered hget hget' hlt
        exact .inr (Nat.le_trans hinside.2 (Nat.le_trans hapart hinside'.1))
      · cases hchild.symm.trans hchild'
        exact ih (fun node hnode => fits node (Node.mem_preorder_trans hnode hbelow)) ha hb
          fun hp => nested (Node.mem_preorder_trans hp hbelow)
      · have hapart := hrow.stop_le_start ordered hget' hget hlt
        have hordered := (fits b.node (Node.mem_preorder_trans
          (of_mem_descendants (mem_descendants_iff.2 ⟨path', hb⟩)).2 hbelow')).2
        exact .inl (Nat.le_trans hordered (Nat.le_trans hinside'.2 (Nat.le_trans hapart hinside.1)))

/-- No node of a tree starts within a leaf. -/
theorem starts_outside_leaf (limit : Nat) (source : Text) {leaf node : Node}
    (hleaf : leaf ∈ (parse limit source).root.leaves)
    (hnode : node ∈ (parse limit source).root.preorder) :
    node.span.start ≤ leaf.span.start ∨ leaf.span.stop ≤ node.span.start := by
  obtain ⟨hmem, hnil⟩ := List.mem_filter.1 hleaf
  have hplace : ∀ {other : Node}, other ∈ (parse limit source).root.preorder →
      ∃ path c, (parse limit source).rootCursor.follow? path = some c ∧ c.node = other := by
    intro other hother
    rw [show (parse limit source).root = (parse limit source).rootCursor.node from rfl,
      ← Cursor.map_node_descendants] at hother
    obtain ⟨c, hc, rfl⟩ := List.mem_map.1 hother
    obtain ⟨path, hpath⟩ := Cursor.mem_descendants_iff.1 hc
    exact ⟨path, c, hpath, rfl⟩
  obtain ⟨path, a, ha, rfl⟩ := hplace hmem
  obtain ⟨path', b, hb, rfl⟩ := hplace hnode
  exact Cursor.starts_outside_leaf (fun other hother => ⟨(fits_parse limit source other hother).tiled,
    (fits_parse limit source other hother).ordered⟩) ha (List.isEmpty_iff.1 hnil) hb

/-- No two siblings of a tree contain the same text. -/
theorem atMostOne_contains (limit : Nat) (source : Text) {span : Span}
    (hspan : span.start < span.stop) :
    ∀ node ∈ (parse limit source).root.preorder,
      Cursor.AtMostOne (fun n => n.span.contains span) node.children := by
  intro node hnode first second a b ha hb hcontains hcontains'
  have ordered : ∀ child ∈ node.children, child.span.start ≤ child.span.stop := fun child hchild =>
    (fits_parse limit source child
      (Node.mem_preorder_trans (Node.child_mem_preorder_self hchild) hnode)).ordered
  have hrow := (fits_parse limit source node hnode).tiled.row
    (List.ne_nil_of_mem (List.mem_of_getElem? ha))
  rw [Span.contains_iff] at hcontains hcontains'
  rcases Nat.lt_trichotomy first second with hlt | heq | hlt
  · have hapart := hrow.stop_le_start ordered ha hb hlt
    omega
  · exact heq
  · have hapart := hrow.stop_le_start ordered hb ha hlt
    omega

/-- A span inside of the source with text in it is covered by a node, and that is the deepest and smallest
one: exactly the nodes on the path to it cover the span, and all of them cover this node. -/
theorem nodeCovering?_smallest (limit : Nat) (source : Text) (span : Span)
    (hlt : span.start < span.stop) (hle : span.stop ≤ source.byteSize) :
    ∃ path c, (parse limit source).nodeCovering? span = some c ∧
      (parse limit source).rootCursor.follow? path = some c ∧
      ∀ path' d, (parse limit source).rootCursor.follow? path' = some d →
        (d.span.contains span = true ↔ path' <+: path) ∧
        (d.span.contains span = true → d.span.contains c.span = true) := by
  have nested := nested_parse limit source
  have hroot : (parse limit source).root.span.contains span = true := by
    obtain ⟨hderives, hrest⟩ := Grammar.derives_file limit source
    rw [(hderives.covers hrest (root_parse limit source)).1, Span.contains_iff]
    exact ⟨Nat.zero_le _, hle⟩
  obtain ⟨path, c, hdeepest, hpath, hc, hall⟩ :=
    Cursor.deepest_spec (parse limit source).rootCursor (atMostOne_contains limit source hlt)
      (fun node hnode child hchild => Span.contains_trans (nested node hnode child hchild)) hroot
  have htree : c.tree = parse limit source := Cursor.tree_follow hpath
  -- What is on the path to the node contains it.
  have hon : ∀ {path' d}, (parse limit source).rootCursor.follow? path' = some d → path' <+: path →
      d.span.contains c.span = true := by
    rintro path' d hd ⟨more, rfl⟩
    rw [Cursor.follow?_append, hd, Option.bind_some] at hpath
    have hmem : d.node ∈ (parse limit source).root.preorder :=
      (Cursor.of_mem_descendants (Cursor.mem_descendants_iff.2 ⟨path', hd⟩)).2
    exact Cursor.contains_follow (fun node hnode => nested node (Node.mem_preorder_trans hnode hmem))
      hpath
  refine ⟨path, c, ?_, hpath, fun path' d hd => ⟨⟨hall path' d hd, fun hmore => ?_⟩, fun h => ?_⟩⟩
  · unfold Tree.nodeCovering?
    rw [if_pos hroot]
    have hpair : Cursor.deepest (fun n => n.span.contains span) 0 (parse limit source).root =
        (c.rank, c.node) := hdeepest
    rw [hpair, ← htree]
  · exact Span.contains_trans (hon hd hmore) hc
  · exact hon hd (hall path' d hd h)

/-- A quote and the letter behind it: the smallest node that covers both is the string. -/
theorem nodeCovering?_smallest_string :
    5 < 7 ∧ 7 ≤ Text.byteSize "x := 'a'\n".toList ∧
    ∃ path c, (parse 2 "x := 'a'\n".toList).nodeCovering? ⟨5, 7⟩ = some c ∧ c.kind = .string ∧
      (parse 2 "x := 'a'\n".toList).rootCursor.follow? path = some c ∧
      ∀ path' d, (parse 2 "x := 'a'\n".toList).rootCursor.follow? path' = some d →
        (d.span.contains ⟨5, 7⟩ = true ↔ path' <+: path) := by
  have hsize : 7 ≤ Text.byteSize "x := 'a'\n".toList := by decide
  obtain ⟨path, c, hfound, hpath, hall⟩ :=
    nodeCovering?_smallest 2 "x := 'a'\n".toList ⟨5, 7⟩ (by decide) hsize
  have hkind : ((parse 2 "x := 'a'\n".toList).nodeCovering? ⟨5, 7⟩).map (·.kind) = some .string := by
    decide +kernel
  rw [hfound] at hkind
  exact ⟨by decide, hsize, path, c, hfound, Option.some.inj hkind, hpath,
    fun path' d hd => (hall path' d hd).1⟩

end Justfile
