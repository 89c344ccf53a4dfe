import Justfile.Proofs.Shape.Item
import Justfile.Proofs.Tree.Coverage

/-!
# The shape of trees

Two things that hold of every tree, however malformed its source is: every node follows the schema
of fields (`parse_followsSchema`), and only the root can start or end with trivia, so that all other
nodes reach from one significant token to another (`parse_trimmed`).
-/

set_option autoImplicit false

namespace Justfile

/-- Nothing that the schema asks for stands directly in a file. -/
theorem Node.regular_sourceFile {children : Forest} (hword : Node.word children = [])
    (offset : Nat) : (Node.branch none .sourceFile children offset).Regular where
  sparse := by
    change Node.Sparse (Node.word children)
    rw [hword]
    exact Node.sparse_nil
  schema := trivial
  body := nofun

/-- Every node of a tree has the fields that its kind asks for, whatever the source and the limit on
nested expressions are. -/
theorem parse_followsSchema (limit : Nat) (source : Text) :
    ∀ node ∈ (parse limit source).root.preorder, node.FollowsSchema := by
  obtain ⟨hconforms, hword⟩ := Grammar.run_conforms limit source
  intro node hmem
  rw [root_parse] at hmem
  rcases List.mem_cons.1 hmem with rfl | hmem
  · exact (Node.regular_sourceFile hword _).followsSchema
  · exact (hconforms node hmem).toRegular.followsSchema

/-- The value is missing, and still the assignment has a right side. -/
theorem followsSchema_missingValue :
    ∃ node ∈ (parse 1 "x:=".toList).root.preorder,
      node.kind = .assignment ∧ node.FollowsSchema := by
  have hexists : ∃ node ∈ (parse 1 "x:=".toList).root.preorder, node.kind = .assignment := by
    decide +kernel
  obtain ⟨node, hmem, hkind⟩ := hexists
  exact ⟨node, hmem, hkind, parse_followsSchema 1 _ node hmem⟩

/-! ## Trivia -/

namespace Node

/-- A leaf that other nodes start or end with: a token that is no trivia, or the mark of a place
where something is missing or wrong. -/
structure IsEdge (leaf : Node) : Prop where
  children : leaf.children = []
  notTrivia : leaf.kind.isTrivia = false
  kind : (∃ kind, leaf.kind = .ofToken kind) ∨
    ((leaf.kind = .missing ∨ leaf.kind = .error) ∧ leaf.span.start = leaf.span.stop)

/-- A node with all below it, as far as its edges go. -/
def Trimmed (node : Node) : Prop := ∀ below ∈ node.preorder, below.Conforms ∧ below.Tiled

theorem Trimmed.child {node child : Node} (h : node.Trimmed) (hchild : child ∈ node.children) :
    child.Trimmed :=
  fun below hbelow => h below (mem_preorder_trans hbelow (child_mem_preorder_self hchild))

/-- The first leaf of a node starts where the node does. -/
theorem Trimmed.first : ∀ {node : Node}, node.Trimmed →
    (node.children = [] → node.kind.isTrivia = false) →
    ∃ leaf, node.leaves.head? = some leaf ∧ leaf.IsEdge ∧ leaf.span.start = node.span.start
  | ⟨field, kind, span, []⟩, h, htrivia => by
    have hself := (h _ (mem_preorder_self _)).1
    exact ⟨⟨field, kind, span, []⟩, rfl, ⟨rfl, htrivia rfl, hself.leaf rfl⟩, rfl⟩
  | ⟨field, kind, span, first :: rest⟩, h, _ => by
    obtain ⟨hself, htiled⟩ := h _ (mem_preorder_self _)
    have hfirst : first.Trimmed := h.child List.mem_cons_self
    obtain ⟨leaf, hhead, hedge, hstart⟩ := Trimmed.first hfirst fun _ => hself.first first rfl
    refine ⟨leaf, ?_, hedge, hstart.trans (htiled.start first rest rfl).symm⟩
    rw [leaves_of_cons, preorderList_cons, List.filter_append]
    change (first.leaves ++ _).head? = some leaf
    rw [List.head?_append, hhead, Option.some_or]

/-- The last leaf of a node ends where the node does. -/
theorem Trimmed.last : ∀ {node : Node}, node.Trimmed →
    (node.children = [] → node.kind.isTrivia = false) →
    ∃ leaf, node.leaves.getLast? = some leaf ∧ leaf.IsEdge ∧ leaf.span.stop = node.span.stop
  | ⟨field, kind, span, []⟩, h, htrivia => by
    have hself := (h _ (mem_preorder_self _)).1
    exact ⟨⟨field, kind, span, []⟩, rfl, ⟨rfl, htrivia rfl, hself.leaf rfl⟩, rfl⟩
  | ⟨field, kind, span, first :: rest⟩, h, _ => by
    obtain ⟨hself, htiled⟩ := h _ (mem_preorder_self _)
    obtain ⟨front, last, hsplit⟩ := List.eq_nil_or_concat' (first :: rest) |>.resolve_left nofun
    have hmem : last ∈ first :: rest := hsplit ▸ List.mem_append_right _ List.mem_cons_self
    have hsome : (first :: rest).getLast? = some last := hsplit ▸ List.getLast?_concat
    have hlast : last.Trimmed := h.child hmem
    have hsmaller : sizeOf last < sizeOf (first :: rest) := List.sizeOf_lt_of_mem hmem
    obtain ⟨leaf, hleaf, hedge, hstop⟩ := Trimmed.last hlast fun _ => hself.last last hsome
    refine ⟨leaf, ?_, hedge, hstop.trans (htiled.stop front last hsplit).symm⟩
    rw [leaves_of_cons, hsplit, preorderList_append, List.filter_append, ← leaves_eq_filter,
      List.getLast?_append, hleaf, Option.some_or]
termination_by node => sizeOf node

end Node

/-- Below the root, no node has trivia as its first or its last child. So a node with children starts
with the first of its leaves and ends with the last one, and these are tokens that are no trivia or
mark a place without characters. -/
theorem parse_trimmed (limit : Nat) (source : Text) :
    ∀ node ∈ Node.preorderList (parse limit source).root.children,
      (∀ child, node.children.head? = some child ∨ node.children.getLast? = some child →
        child.kind.isTrivia = false) ∧
      (node.children ≠ [] →
        (∃ first, node.leaves.head? = some first ∧ first.IsEdge ∧
          first.span.start = node.span.start) ∧
        ∃ last, node.leaves.getLast? = some last ∧ last.IsEdge ∧
          last.span.stop = node.span.stop) := by
  obtain ⟨hconforms, -⟩ := Grammar.run_conforms limit source
  obtain ⟨-, htiled, -⟩ := parse_covers limit source
  rw [Node.preorder_eq_cons, root_parse, Node.children_branch] at htiled
  rw [root_parse, Node.children_branch]
  intro node hmem
  have hself := hconforms node hmem
  have htrimmed : node.Trimmed := by
    intro below hbelow
    have hinside := Node.mem_preorderList_trans hbelow hmem
    have hall := htiled below (List.mem_cons_of_mem _ hinside)
    exact ⟨hconforms below hinside, hall.1⟩
  constructor
  · rintro child (hfirst | hlast)
    · exact hself.first child hfirst
    · exact hself.last child hlast
  · intro hne
    exact ⟨htrimmed.first fun hnil => absurd hnil hne, htrimmed.last fun hnil => absurd hnil hne⟩

/-- The blank behind an assignment without a value stands outside it. -/
theorem trimmed_missingValue :
    ∃ node ∈ Node.preorderList (parse 1 "x:= ".toList).root.children,
      node.kind = .assignment ∧
      ∃ last, node.leaves.getLast? = some last ∧ last.IsEdge ∧
        last.span.stop = node.span.stop := by
  have hexists : ∃ node ∈ Node.preorderList (parse 1 "x:= ".toList).root.children,
      node.kind = .assignment ∧ node.children.isEmpty = false := by
    decide +kernel
  obtain ⟨node, hmem, hkind, hempty⟩ := hexists
  have hne : node.children ≠ [] := by
    rintro hnil
    rw [hnil] at hempty
    cases hempty
  exact ⟨node, hmem, hkind, ((parse_trimmed 1 _ node hmem).2 hne).2⟩

end Justfile
