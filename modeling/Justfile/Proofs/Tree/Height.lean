import Justfile.Proofs.Tree.Coverage
import Mathlib.Algebra.Group.Nat.Defs

/-!
# The height of trees

The limit on nested expressions is meant to bound the height of trees. It does, except for one thing:
an interpolation inside an error node is read whatever the limit is. So the height is bounded by
the limit and by the number of interpolations that lie inside error nodes on one path (`buried`).

Both are read off derivations, whose index bounds the height up to what interpolations inside error
nodes are allowed beyond it (`Derives.height_le`).
-/

set_option autoImplicit false

namespace Justfile

namespace Node

/-! ## Heights and depths -/

mutual
/-- The number of nodes on the longest path down from the node. -/
def height : Node → Nat
  | ⟨_, _, _, children⟩ => 1 + heightList children
/-- The greatest height of several trees. -/
def heightList : Forest → Nat
  | [] => 0
  | node :: rest => max (height node) (heightList rest)
end

mutual
/-- The greatest number of interpolations on a path down from the node that lie inside an error node.
The flag says whether the node itself does. -/
def buried (inError : Bool) : Node → Nat
  | ⟨_, kind, _, children⟩ =>
    (if inError && kind == .interpolation then 1 else 0) +
      buriedList (inError || kind == .error) children
/-- The greatest such number of several trees. -/
def buriedList (inError : Bool) : Forest → Nat
  | [] => 0
  | node :: rest => max (buried inError node) (buriedList inError rest)
end

@[simp] theorem heightList_nil : heightList [] = 0 := rfl

@[simp] theorem heightList_cons (node : Node) (rest : Forest) :
    heightList (node :: rest) = max node.height (heightList rest) := rfl

@[simp] theorem heightList_append (front back : Forest) :
    heightList (front ++ back) = max (heightList front) (heightList back) := by
  induction front with
  | nil => simp
  | cons node front ih => simp only [List.cons_append, heightList_cons, ih, Nat.max_assoc]

@[simp] theorem height_branch (field : Option Field) (kind : Kind) (children : Forest)
    (offset : Nat) : (branch field kind children offset).height = 1 + heightList children := rfl

@[simp] theorem height_leaf (field : Option Field) (kind : Kind) (span : Span) :
    (leaf field kind span).height = 1 := rfl

@[simp] theorem height_ofToken (field : Option Field) (token : Token) :
    (ofToken field token).height = 1 := rfl

@[simp] theorem buriedList_nil (inError : Bool) : buriedList inError [] = 0 := rfl

@[simp] theorem buriedList_cons (inError : Bool) (node : Node) (rest : Forest) :
    buriedList inError (node :: rest) = max (node.buried inError) (buriedList inError rest) := rfl

@[simp] theorem buriedList_append (inError : Bool) (front back : Forest) :
    buriedList inError (front ++ back) =
      max (buriedList inError front) (buriedList inError back) := by
  induction front with
  | nil => simp
  | cons node front ih => simp only [List.cons_append, buriedList_cons, ih, Nat.max_assoc]

theorem buried_branch (inError : Bool) (field : Option Field) (kind : Kind) (children : Forest)
    (offset : Nat) :
    (branch field kind children offset).buried inError =
      (if inError && kind == .interpolation then 1 else 0) +
        buriedList (inError || kind == .error) children := rfl

/-- Around other nodes than interpolations and error nodes nothing is counted. -/
theorem buried_plain (kind : Kind) (hinterpolation : (kind == .interpolation) = false)
    (herror : (kind == .error) = false) (inError : Bool) (field : Option Field) (children : Forest)
    (offset : Nat) :
    (branch field kind children offset).buried inError = buriedList inError children := by
  rw [buried_branch, hinterpolation, herror, Bool.and_false, Bool.or_false]
  exact Nat.zero_add _

mutual
/-- No node is deeper than the height. -/
theorem depth_lt_of_mem : ∀ (node : Node) (depth : Nat) (entry : Nat × Node),
    entry ∈ node.preorderDepth depth → entry.1 < depth + node.height
  | ⟨_, _, _, children⟩, depth, entry, hmem => by
    simp only [preorderDepth, List.mem_cons] at hmem
    simp only [height]
    rcases hmem with rfl | hmem
    · dsimp only
      omega
    · have hlt := depth_lt_of_mem_list children (depth + 1) entry hmem
      omega
/-- No node of several trees is deeper than the greatest height. -/
theorem depth_lt_of_mem_list : ∀ (nodes : Forest) (depth : Nat) (entry : Nat × Node),
    entry ∈ preorderDepthList depth nodes → entry.1 < depth + heightList nodes
  | [], _, _, hmem => absurd hmem List.not_mem_nil
  | node :: rest, depth, entry, hmem => by
    simp only [preorderDepthList, List.mem_append] at hmem
    simp only [heightList]
    rcases hmem with hmem | hmem
    · have hlt := depth_lt_of_mem node depth entry hmem
      omega
    · have hlt := depth_lt_of_mem_list rest depth entry hmem
      omega
end

mutual
/-- Some node is as deep as the height says. -/
theorem exists_depth_eq : ∀ (node : Node) (depth : Nat),
    ∃ entry ∈ node.preorderDepth depth, entry.1 + 1 = depth + node.height
  | ⟨field, kind, span, children⟩, depth => by
    simp only [height]
    rcases exists_depth_eq_list children (depth + 1) with hnone | ⟨entry, hmem, hdepth⟩
    · exact ⟨(depth, ⟨field, kind, span, children⟩), List.mem_cons_self, by rw [hnone]⟩
    · exact ⟨entry, List.mem_cons_of_mem _ hmem, by omega⟩
/-- Some node of several trees is as deep as the greatest height says, if there is any. -/
theorem exists_depth_eq_list : ∀ (nodes : Forest) (depth : Nat),
    heightList nodes = 0 ∨
      ∃ entry ∈ preorderDepthList depth nodes, entry.1 + 1 = depth + heightList nodes
  | [], _ => .inl rfl
  | node :: rest, depth => by
    obtain ⟨entry, hmem, hdepth⟩ := exists_depth_eq node depth
    simp only [heightList, preorderDepthList]
    right
    rcases exists_depth_eq_list rest depth with hnone | ⟨other, hother, hbelow⟩
    · exact ⟨entry, List.mem_append_left _ hmem, by omega⟩
    · rcases Nat.le_total node.height (heightList rest) with hle | hle
      · exact ⟨other, List.mem_append_right _ hother, by omega⟩
      · exact ⟨entry, List.mem_append_left _ hmem, by omega⟩
end

end Node

namespace Grammar

/-! ## Along a derivation -/

/-- Whether nodes in the place are inside an error node. -/
def Place.inError : Place → Bool
  | outside => false
  | error | inside => true

@[simp] theorem Place.inError_below (place : Place) : place.below.inError = place.inError := by
  cases place <;> rfl

/-- The node of a literal is at most two higher than its contents. -/
theorem height_literal (l : Literal) (field : Option Field) (token : Token) (contents : Forest)
    {ending : Forest} (hending : Node.heightList ending ≤ 1) (offset : Nat) :
    (l.node field (.ofToken none token) contents ending offset).height ≤
      2 + max 1 (Node.heightList contents) := by
  unfold Literal.node
  rw [Node.height_branch]
  cases l with
  | string dialect =>
    simp only [Literal.children]
    split
    · simp only [Node.heightList_cons, Node.heightList_append, Node.height_branch,
        Node.height_ofToken, Node.heightList_nil, List.cons_append]
      omega
    · simp only [Node.heightList_cons, Node.heightList_append, Node.height_ofToken,
        List.cons_append]
      omega
  | command indented =>
    cases contents with
    | nil =>
      simp only [Literal.children, List.isEmpty_nil, if_true, List.cons_append,
        List.nil_append, Node.heightList_cons, Node.height_ofToken, Node.heightList_nil]
      omega
    | cons node rest =>
      simp only [Literal.children, List.isEmpty_cons, Bool.false_eq_true, if_false,
        List.cons_append, List.nil_append, Node.heightList_cons, Node.height_ofToken,
        Node.height_branch]
      omega

/-- A literal has the interpolations of its contents. -/
theorem buriedList_le_literal (l : Literal) (inError : Bool) (field : Option Field) (opened : Node)
    (contents ending : Forest) (offset : Nat) :
    Node.buriedList inError contents ≤
      (l.node field opened contents ending offset).buried inError := by
  unfold Literal.node
  cases l with
  | string dialect =>
    rw [Node.buried_plain (Literal.string dialect).kind rfl rfl]
    simp only [Literal.children]
    split
    · simp only [Node.buriedList_cons, Node.buriedList_nil, List.cons_append]
      rw [Node.buried_plain .formatString rfl rfl]
      simp only [Node.buriedList_cons, Node.buriedList_append]
      omega
    · simp only [Node.buriedList_cons, Node.buriedList_append, List.cons_append]
      omega
  | command indented =>
    rw [Node.buried_plain (Literal.command indented).kind rfl rfl]
    cases contents with
    | nil => exact Nat.zero_le _
    | cons node rest =>
      simp only [Literal.children, List.isEmpty_cons, Bool.false_eq_true, if_false,
        List.cons_append, List.nil_append, Node.buriedList_cons]
      rw [Node.buried_plain .commandBody rfl rfl, Node.buriedList_cons]
      omega

/-- The index of a derivation bounds the height of its nodes, but for four levels with each
interpolation inside an error node. -/
theorem Derives.height_le {place : Place} {height : Nat} {s t : State} {nodes : Forest}
    (derives : Derives place height s nodes t) :
    Node.heightList nodes ≤ height + 4 * Node.buriedList place.inError nodes := by
  induction derives with
  | nil => exact Nat.zero_le _
  | append _ _ ih1 ih2 =>
    rw [Node.heightList_append, Node.buriedList_append]
    omega
  | within => exact Nat.zero_le _
  | token field _ _ _ hpos =>
    simp only [Node.heightList_cons, Node.heightList_nil, Node.height_ofToken]
    omega
  | keyword field word _ hpos =>
    simp only [Node.heightList_cons, Node.heightList_nil, Node.height_ofToken]
    omega
  | closingBraces _ _ _ _ hpos =>
    simp only [Node.heightList_cons, Node.heightList_nil, Node.height_leaf]
    omega
  | missing field expected hpos =>
    simp only [Node.heightList_cons, Node.heightList_nil, Node.height_leaf]
    omega
  | group field kind _ hlt hkind ih =>
    have hplain := Node.buried_plain kind (by cases kind <;> first | rfl | cases hkind)
      (by cases kind <;> first | rfl | cases hkind)
    simp only [Node.heightList_cons, Node.heightList_nil, Node.height_branch, Node.buriedList_cons,
      Node.buriedList_nil, hplain, Place.inError_below] at ih ⊢
    omega
  | body field _ hlt _ ih =>
    have hplain := Node.buried_plain .recipeBody rfl rfl
    simp only [Node.heightList_cons, Node.heightList_nil, Node.height_branch, Node.buriedList_cons,
      Node.buriedList_nil, hplain, Place.inError_below] at ih ⊢
    omega
  | number field offset _ hlt =>
    simp only [Node.heightList_cons, Node.heightList_nil, Node.height_branch, Node.height_ofToken]
    omega
  | @error place _ _ _ _ children field cause _ hlt _ ih =>
    have herror : ∀ offset, (Node.branch field .error children offset).buried place.inError =
        Node.buriedList true children := by
      intro offset
      rw [Node.buried_branch]
      cases place <;> exact Nat.zero_add _
    have hbelow : Place.error.inError = true := rfl
    rw [hbelow] at ih
    simp only [Node.heightList_cons, Node.heightList_nil, Node.height_branch, Node.buriedList_cons,
      Node.buriedList_nil, herror]
    omega
  | @interpolation place height outer _ _ children _ hlt _ ih =>
    -- Inside an error node the interpolation is counted, and pays for what exceeds the index.
    have hcount : ∀ offset, (Node.branch none .interpolation children offset).buried place.inError =
        place.credit / 4 + Node.buriedList place.inError children := by
      intro offset
      rw [Node.buried_branch]
      cases place <;> rfl
    have hcredit : place.credit = 4 * (place.credit / 4) := by cases place <;> rfl
    simp only [Node.heightList_cons, Node.heightList_nil, Node.height_branch, Node.buriedList_cons,
      Node.buriedList_nil, hcount, Place.inError_below] at ih ⊢
    omega
  | @literal place height outer s t u contents ending l field _ _ _ _ hending hpos hle ih =>
    have hlast : Node.heightList ending ≤ 1 := by
      cases hending with
      | closed => exact Nat.le_refl 1
      | reported => exact Nat.le_refl 1
      | silent => exact Nat.zero_le 1
    have hheight := height_literal l field s.step.1 contents hlast u.stream.offset
    have hburied := buriedList_le_literal l place.inError field (.ofToken none s.step.1) contents
      ending u.stream.offset
    simp only [Node.heightList_cons, Node.heightList_nil, Node.buriedList_cons,
      Node.buriedList_nil, Place.inError_below] at ih ⊢
    omega

/-- The height of an expression grows with the square of the limit. -/
theorem reach_eq (room : Nat) : reach room = 2 * (room * room) + 10 * room + 4 := by
  induction room with
  | zero => rfl
  | succ room ih =>
    rw [reach, ih, Nat.add_one_mul_add_one]
    omega

/-- The root around the nodes of a whole file. -/
theorem Derives.root_height_le {limit : Nat} {s t : State} {nodes : Forest}
    (derives : Derives .outside (fileReach limit) s nodes t) (field : Option Field) (offset : Nat) :
    (Node.branch field .sourceFile nodes offset).height ≤ 10 * (limit + 1) ^ 2 + 20 +
      4 * (Node.branch field .sourceFile nodes offset).buried false := by
  have hheight := derives.height_le
  have hplace : Place.outside.inError = false := rfl
  rw [hplace, fileReach, reach_eq] at hheight
  rw [Node.height_branch, Node.buried_plain .sourceFile rfl rfl, Nat.pow_two,
    Nat.add_one_mul_add_one]
  omega

end Grammar

/-- The height of a tree is bounded by the limit, but for interpolations inside error nodes. -/
theorem root_height_le (limit : Nat) (source : Text) :
    (parse limit source).root.height ≤
      10 * (limit + 1) ^ 2 + 20 + 4 * (parse limit source).root.buried false := by
  rw [root_parse]
  exact (Grammar.derives_file limit source).1.root_height_le none _

end Justfile
