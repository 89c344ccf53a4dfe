import Justfile.Diagnostic
import Justfile.Proofs.Position

/-!
# Diagnostics of reports

Diagnosing loses no report and makes up none: the diagnostics are the reports in the order of their
starts, each with the position of its start (`diagnose_eq`).
-/

set_option autoImplicit false

namespace Justfile.Report

/-- Reports in the order of their starts. -/
def Sorted (reports : List Report) : Prop :=
  reports.Pairwise fun first second => first.span.start ≤ second.span.start

/-- Inserting a report loses none. -/
theorem perm_insert (report : Report) (reports : List Report) :
    (insert report reports).Perm (report :: reports) := by
  induction reports with
  | nil => exact .refl _
  | cons other rest ih =>
    unfold insert
    split
    · exact .refl _
    · exact (ih.cons other).trans (.swap report other rest)

/-- A report goes behind those that start before it. -/
theorem sorted_insert {reports : List Report} (h : Sorted reports) (report : Report) :
    Sorted (insert report reports) := by
  induction reports with
  | nil => exact List.pairwise_singleton _ report
  | cons other rest ih =>
    obtain ⟨hfirst, hrest⟩ := List.pairwise_cons.1 h
    unfold insert
    split
    · next hle =>
      refine List.pairwise_cons.2 ⟨?_, h⟩
      intro later hmem
      rcases List.mem_cons.1 hmem with rfl | hmem
      · exact hle
      · exact Nat.le_trans hle (hfirst later hmem)
    · next hlt =>
      refine List.pairwise_cons.2 ⟨?_, ih hrest⟩
      intro later hmem
      rcases List.mem_cons.1 ((perm_insert report rest).mem_iff.1 hmem) with rfl | hmem
      · omega
      · exact hfirst later hmem

/-- Sorting loses no report. -/
theorem perm_sort (reports : List Report) : (sort reports).Perm reports := by
  induction reports with
  | nil => exact .refl _
  | cons report rest ih => exact (perm_insert report (sort rest)).trans (ih.cons report)

/-- Sorted reports come in the order of their starts. -/
theorem sorted_sort (reports : List Report) : Sorted (sort reports) := by
  induction reports with
  | nil => exact .nil
  | cons report rest ih => exact sorted_insert ih report

/-- The diagnostic of a report on a source. -/
def located (source : Text) (report : Report) : Diagnostic :=
  ⟨report.cause, report.span, (LineIndex.ofText source).position source report.span.start⟩

/-- Diagnostics are the sorted reports, each with the position of its start. -/
theorem diagnose_eq (source : Text) (reports : List Report) :
    diagnose source reports = (sort reports).map (located source) := by
  unfold diagnose
  dsimp only
  rw [LineIndex.readAll_eq_map rfl]
  induction sort reports with
  | nil => rfl
  | cons report rest ih =>
    rw [List.map_cons, List.map_cons, List.zip_cons_cons, List.map_cons, ih]
    rfl

end Justfile.Report
