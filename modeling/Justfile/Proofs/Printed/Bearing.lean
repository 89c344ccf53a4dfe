import Justfile.Cursor
import Justfile.Proofs.Printed.Layout
import Justfile.Proofs.Text
import Justfile.View

/-!
# Cursors at layouts

Views look at a tree through cursors. `Bears tree cs x` says that the siblings at the cursors are the
nodes of the layout `x`, at a place of the source where its text stands. Such siblings are taken
apart as the layout is put together, and the children of a group are siblings again; so kinds, fields
and texts of all cursors below are known from the layout.
-/

set_option autoImplicit false

namespace Justfile

namespace Cursor

theorem placeList_append (tree : Tree) (rank : Nat) (front back : Forest) :
    placeList tree rank (front ++ back) =
      placeList tree rank front ++ placeList tree (rank + Node.countList front) back := by
  induction front generalizing rank with
  | nil => rfl
  | cons node front ih =>
    simp only [List.cons_append, placeList, ih, Node.countList_cons, Nat.add_assoc]

end Cursor

/-- The siblings at the cursors are the nodes of the layout, where its text stands. -/
def Bears (tree : Tree) (cs : List Cursor) (x : Layout) : Prop :=
  ∃ pre post rank, tree.source = pre ++ (x.text ++ post) ∧
    cs = Cursor.placeList tree rank (x.nodes (Text.byteSize pre))

namespace Bears

variable {tree : Tree} {cs : List Cursor} {x y : Layout} {field : Option Field}

theorem empty (h : Bears tree cs .empty) : cs = [] := by
  obtain ⟨pre, post, rank, -, rfl⟩ := h
  rfl

theorem append (h : Bears tree cs (x ++ y)) :
    ∃ front back, cs = front ++ back ∧ Bears tree front x ∧ Bears tree back y := by
  obtain ⟨pre, post, rank, hsource, rfl⟩ := h
  rw [Layout.text_append] at hsource
  rw [Layout.nodes_append, Cursor.placeList_append]
  refine ⟨_, _, rfl, ⟨pre, y.text ++ post, rank, ?_, rfl⟩,
    ⟨pre ++ x.text, post, rank + Node.countList (x.nodes pre.byteSize), ?_, ?_⟩⟩
  · rw [hsource, List.append_assoc]
  · rw [hsource, List.append_assoc, List.append_assoc]
  · rw [Text.byteSize_append]

/-- A token is a single sibling with the characters of the token. -/
theorem leaf {kind : Token.Kind} {text : Text} (h : Bears tree cs (.leaf field kind text)) :
    ∃ c : Cursor, cs = [c] ∧ c.kind = .ofToken kind ∧ c.field = field ∧ c.text = text := by
  obtain ⟨pre, post, rank, hsource, rfl⟩ := h
  refine ⟨_, rfl, rfl, rfl, ?_⟩
  change (tree.source.slice? pre.byteSize (pre.byteSize + text.byteSize)).getD [] = text
  rw [hsource, Layout.text_leaf, Text.slice?_append]
  rfl

/-- A group is a single sibling with the layout below it. -/
theorem group {kind : Node.Kind} (h : Bears tree cs (.group field kind x)) :
    ∃ c : Cursor, cs = [c] ∧ c.kind = kind ∧ c.field = field ∧ Bears tree c.children x := by
  obtain ⟨pre, post, rank, hsource, rfl⟩ := h
  exact ⟨_, rfl, rfl, rfl, pre, post, rank + 1, hsource, rfl⟩

theorem mark {sign : Mark} (h : Bears tree cs (.mark sign)) :
    ∃ c : Cursor, cs = [c] ∧ c.kind = .token (.mark sign) ∧ c.field = none := by
  obtain ⟨c, rfl, hkind, hfield, -⟩ := leaf h
  exact ⟨c, rfl, hkind, hfield⟩

theorem keyword {word : Keyword} (h : Bears tree cs (.keyword word)) :
    ∃ c : Cursor, cs = [c] ∧ c.kind = .token (.keyword word) ∧ c.field = none := by
  obtain ⟨c, rfl, hkind, hfield, -⟩ := leaf h
  exact ⟨c, rfl, hkind, hfield⟩

theorem blank (h : Bears tree cs .blank) :
    ∃ c : Cursor, cs = [c] ∧ c.kind = .token .whitespace ∧ c.field = none := by
  obtain ⟨c, rfl, hkind, hfield, -⟩ := leaf h
  exact ⟨c, rfl, hkind, hfield⟩

end Bears

/-! ## Views of cursors with a known kind -/

namespace View

theorem of?_of_kind {kind : Node.Kind} {c : Cursor} (h : c.kind = kind) :
    of? [kind] c = some ⟨c, List.mem_singleton.2 h⟩ :=
  dif_pos (List.mem_singleton.2 h)

theorem of?_of_ne {kind : Node.Kind} {c : Cursor} (h : c.kind ≠ kind) : of? [kind] c = none :=
  dif_neg fun hmem => h (List.mem_singleton.1 hmem)

end View

end Justfile
