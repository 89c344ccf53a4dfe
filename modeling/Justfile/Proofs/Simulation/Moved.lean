import Justfile.Proofs.Diagnostic
import Justfile.Proofs.Simulation.Judgement
import Justfile.Sexp

/-!
# Trees with their offsets moved

What moving the offsets keeps: s-expressions show no offsets (`Sexp.lineOnto_move`), and reports are
sorted alike if no two of their starts change their order (`Report.sort_move`).
-/

set_option autoImplicit false

namespace Justfile

/-! ## Offsets that stay -/

theorem Grammar.map_moveReport_id (reports : List Report) : reports.map (moveReport id) = reports :=
  List.map_id reports

namespace Node

mutual
theorem move_id : ∀ node : Node, move id node = node
  | ⟨field, kind, span, children⟩ => by
    unfold move
    rw [moveList_id children]
    rfl
theorem moveList_id : ∀ nodes : Forest, moveList id nodes = nodes
  | [] => by simp
  | node :: rest => by rw [moveList_cons, move_id node, moveList_id rest]
end

end Node

/-! ## Reports -/

namespace Report

open Grammar (moveReport)

variable {place : Nat → Nat} {reports : List Report}

theorem insert_move {report : Report}
    (hplace : ∀ other ∈ reports, place report.span.start ≤ place other.span.start ↔
      report.span.start ≤ other.span.start) :
    insert (moveReport place report) (reports.map (moveReport place)) =
      (insert report reports).map (moveReport place) := by
  induction reports with
  | nil => rfl
  | cons other rest ih =>
    have hle : (moveReport place report).span.start ≤ (moveReport place other).span.start ↔
        report.span.start ≤ other.span.start := hplace other List.mem_cons_self
    rw [List.map_cons, insert, insert]
    simp only [hle]
    split
    · rfl
    · rw [ih fun later hmem => hplace later (List.mem_cons_of_mem _ hmem), List.map_cons]

/-- Reports that are moved keep their order, if their starts do. -/
theorem sort_move
    (hplace : ∀ report ∈ reports, ∀ other ∈ reports,
      place report.span.start ≤ place other.span.start ↔ report.span.start ≤ other.span.start) :
    sort (reports.map (moveReport place)) = (sort reports).map (moveReport place) := by
  induction reports with
  | nil => rfl
  | cons report rest ih =>
    have hrest := ih fun first hfirst second hsecond =>
      hplace first (List.mem_cons_of_mem _ hfirst) second (List.mem_cons_of_mem _ hsecond)
    rw [List.map_cons, sort, sort, hrest]
    refine insert_move fun other hmem => ?_
    exact hplace report List.mem_cons_self other
      (List.mem_cons_of_mem _ ((perm_sort rest).mem_iff.1 hmem))

end Report

/-! ## Trees -/

namespace Sexp

mutual
/-- Offsets are not shown. -/
theorem lineOnto_move (place : Nat → Nat) :
    ∀ (node : Node) (tail : Text), lineOnto (node.move place) tail = lineOnto node tail
  | ⟨_, _, _, children⟩, tail => by
    unfold Node.move lineOnto
    rw [linesOnto_move place children]
theorem linesOnto_move (place : Nat → Nat) :
    ∀ (nodes : Forest) (tail : Text), linesOnto (Node.moveList place nodes) tail = linesOnto nodes tail
  | [], tail => by rw [Node.moveList_nil]
  | node :: rest, tail => by
    rw [Node.moveList_cons, linesOnto, linesOnto, lineOnto_move place node, linesOnto_move place rest]
    cases node
    rfl
end

end Sexp

end Justfile
