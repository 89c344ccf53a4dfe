import Justfile.Proofs.Blank.Run
import Justfile.Proofs.Cursor.Cover
import Justfile.Proofs.Document
import Justfile.Proofs.Tree.Flaw

/-!
# The width of blanks does not matter

A leaf of white space that consists of blanks inside a line can be any other run of blanks: the tree is
shown as the same s-expression, and the diagnostics have the same causes in the same order
(`parse_respaced`).

The two sources differ in a gap, and the scanners of the two runs mirror each other across it
(`Gap.mirror`). The mirror is blind for bodies that are opened in front of the gap, but there are none.
-/

set_option autoImplicit false

namespace Justfile

open Text (byteSize)
open Justfile.Measure (isBlank)

namespace Gap

variable {g : Gap} {front back : Text} {spot : Option Text} {s t : Scanner}

/-- Where no line starts but at the start of the text proper, a scanner in front of the gap that stands
at the start of a line stands there. -/
theorem Like.offset_eq_base (h : g.Like front spot s t) (hline : front.getLast? ≠ some '\n')
    (hoffset : s.offset = byteSize front) (hstart : s.atLineStart = true) : s.offset = s.base := by
  have hspot := h.spot_of_offset.2 hoffset
  have hprevious : s.previous = front.getLast? := by
    have hstands := h.stands
    rw [hspot] at hstands
    generalize s.offset = offset, s.previous = previous at hstands ⊢
    generalize t.offset = offset', t.previous = previous' at hstands
    cases hstands with
    | ahead hfront => rw [hfront, List.append_nil]
  unfold Scanner.atLineStart at hstart
  rw [Bool.or_eq_true, beq_iff_eq, beq_iff_eq, hprevious] at hstart
  exact hstart.resolve_right hline

/-- Two scanners on both sides of a gap inside a line. If the gap is at the start of the text proper,
no body is open there. -/
def mirror (g : Gap) {front : Text} (hline : front.getLast? ≠ some '\n') : Mirror where
  place := g.place front
  like _ s t := (∃ spot, g.Like front spot s t) ∧
    (s.base = byteSize front → s.offset ≤ s.base → s.levels = [])
  clear token := token.kind = .indent → token.span.start ≠ byteSize front
  clear_of_ne_indent hne hkind := absurd hkind hne
  offset_eq h := by
    obtain ⟨⟨spot, h⟩, -⟩ := h
    exact h.stands.offset_eq
  mono _ h := h
  next := by
    rintro - s t mode wf ⟨⟨spot, h⟩, hlow⟩ - hlevels
    have htakes := Scanner.takes_next s mode
    have hstart : (s.next mode).1.span.start = s.offset := congrArg Span.start htakes.span_eq
    have htop : s.offset = byteSize front →
        mode = .bodyStart ∨ (mode = .body ∧ s.atLineStart = true) → s.top = 0 := by
      intro hoffset hmode
      apply Scanner.top_of_levels
      rcases hmode with hmode | ⟨-, hmode⟩
      · exact hlevels hmode
      · have hbase := h.offset_eq_base hline hoffset hmode
        exact hlow (hbase.symm.trans hoffset) (Nat.le_of_eq hbase)
    obtain ⟨hmirrors, hafter⟩ := h.next wf htop
    refine ⟨hmirrors, fun hclear => ⟨hafter fun hkind => hstart ▸ hclear hkind, ?_⟩⟩
    rw [(Scanner.step_next s mode).base_eq]
    intro hbase hle
    have hoffset := htakes.offset_eq
    have hbefore := hlow hbase (by omega)
    rcases (Scanner.step_next s mode).levels_cases wf with
      ⟨hlevel, -⟩ | ⟨-, width, htoken, -⟩ | ⟨-, -, closed, hpopped, -⟩
    · exact (Scanner.levels_next wf hlevel).1.trans hbefore
    · have hkind : (s.next mode).1.kind = .indent := congrArg Token.kind htoken
      have ready := ((Scanner.step_next s mode).indent_inv wf hkind).1
      have hfront := ready.base_le
      exact absurd (by omega) (hclear hkind)
    · rw [hbefore] at hpopped
      exact (List.append_eq_nil_iff.1 hpopped.symm).2

/-- At the start of the two sources the whole of their common front is ahead. -/
theorem like_ofText (hne : front ≠ []) (hfront : ∀ c ∈ front.getLast?, isBlank c = false)
    (hback : ∀ c ∈ back.head?, isBlank c = false) :
    g.Like front (some front) (.ofText (front ++ (g.old ++ back)))
      (.ofText (front ++ (g.new ++ back))) := by
  have hhead : ∀ run : Text, (front ++ (run ++ back)).head? = front.head? :=
    fun run => List.head?_append_of_ne_nil front hne
  have hstands : g.Stands front (some front) (byteSize []) ([] : Text).getLast? (byteSize [])
      ([] : Text).getLast? := .ahead rfl
  refine Even.like ⟨.ahead hfront hback, hstands, ?_, ?_, rfl, rfl, rfl, rfl, rfl, rfl, nofun⟩ rfl
    rfl
  · unfold Scanner.ofText
    rw [hhead, hhead]
  · unfold Scanner.ofText
    rw [hhead]
    dsimp only
    split
    · next hmark =>
      -- The byte order mark is the first character in front of the gap.
      obtain ⟨rest, hrest⟩ := List.head?_eq_some_iff.1 (eq_of_beq hmark)
      rw [hrest, Text.byteSize_cons]
      exact Nat.le_add_right _ _
    · exact Nat.zero_le _

end Gap

/-! ## Trees -/

/-- Reports start at nodes of the tree, and so not within a leaf. -/
theorem report_outside_leaf (limit : Nat) (source : Text) {leaf : Node}
    (hleaf : leaf ∈ (parse limit source).root.leaves) {report : Report}
    (hreport : report ∈ (Grammar.run limit source).2.reports) :
    report.span.start ≤ leaf.span.start ∨ leaf.span.stop ≤ report.span.start := by
  obtain ⟨marks, hmarks⟩ := (Grammar.derives_file limit source).1.marked
  obtain ⟨reports, hreports, hperm⟩ := hmarks.reports
  rw [hreports, show (Grammar.State.ofText source).reports = [] from rfl, List.append_nil] at hreport
  obtain ⟨mark, hmark, rfl⟩ := List.mem_map.1 (hperm.mem_iff.1 hreport)
  have hflaw : mark.1 ∈ (parse limit source).root.flaws false := by
    rw [flaws_root_parse, ← hmarks.flaws]
    exact List.mem_map_of_mem hmark
  exact starts_outside_leaf limit source hleaf (Node.mem_preorder_of_mem_flaws hflaw)

/-- Two sources that differ in a gap, where the first one has a leaf of white space. -/
theorem parse_of_gap (limit : Nat) {front old new back : Text} {leaf : Node}
    (hleaf : leaf ∈ (parse limit (front ++ (old ++ back))).root.leaves)
    (hkind : leaf.kind = .token .whitespace)
    (hspan : leaf.span = ⟨byteSize front, byteSize front + byteSize old⟩)
    (hold : ∀ c ∈ old, isBlank c = true) (hfront : front ≠ [])
    (hline : front.getLast? ≠ some '\n') (hne : new ≠ []) (hnew : ∀ c ∈ new, isBlank c = true) :
    Sexp.ofTree (parse limit (front ++ (new ++ back))) =
        Sexp.ofTree (parse limit (front ++ (old ++ back))) ∧
      (parse limit (front ++ (new ++ back))).diagnostics.map
          (fun d => (d.cause.code, d.cause.message)) =
        (parse limit (front ++ (old ++ back))).diagnostics.map
          fun d => (d.cause.code, d.cause.message) := by
  obtain ⟨hold_ne, hedge, hedge', hclear⟩ :=
    Grammar.blanks_of_leaf limit hleaf hkind hspan hold hfront hline
  obtain ⟨g, rfl, rfl⟩ : ∃ g : Gap, g.old = old ∧ g.new = new :=
    ⟨⟨old, new, hold_ne, hne, hold, hnew⟩, rfl, rfl⟩
  have hlike : (g.mirror hline).like Grammar.Context.outer.remembers (.ofText (front ++ (g.old ++ back)))
      (.ofText (front ++ (g.new ++ back))) :=
    ⟨⟨_, Gap.like_ofText hfront hedge hedge'⟩, fun _ _ => rfl⟩
  obtain ⟨hnodes, hreports, hoffset⟩ := (g.mirror hline).run hlike hclear
  have hplace : (g.mirror hline).place = g.place front := rfl
  rw [hplace] at hnodes hreports hoffset
  refine ⟨?_, ?_⟩
  · have hroot : (parse limit (front ++ (g.new ++ back))).root =
        (parse limit (front ++ (g.old ++ back))).root.move (g.place front) := by
      rw [root_parse, root_parse, Node.move_branch, hnodes, hoffset]
    unfold Sexp.ofTree Sexp.line
    rw [hroot, Sexp.lineOnto_move]
  · have houtside : ∀ report ∈ (Grammar.run limit (front ++ (g.old ++ back))).2.reports.reverse,
        g.Outside front report.span.start := by
      intro report hmem
      have hout := report_outside_leaf limit _ hleaf (List.mem_reverse.1 hmem)
      rwa [hspan] at hout
    have hsort := Report.sort_move fun report hmem other hmem' =>
      Gap.place_le_iff (houtside report hmem) (houtside other hmem')
    rw [diagnostics_parse, diagnostics_parse, hreports, ← List.map_reverse, hsort, List.map_map,
      List.map_map, List.map_map]
    exact List.map_congr_left fun _ _ => rfl

/-- The source with another text in the place of a span. -/
def Text.splice (source : Text) (span : Span) (text : Text) : Text :=
  Span.text ⟨0, span.start⟩ source ++ (text ++ Span.text ⟨span.stop, source.byteSize⟩ source)

/-- A stretch is what stands between its ends, with something in front of it and something behind it. -/
theorem Text.stretch_text (front middle back : Text) :
    Span.text ⟨byteSize front, byteSize front + byteSize middle⟩ (front ++ (middle ++ back)) = middle ∧
      Span.text ⟨0, byteSize front⟩ (front ++ (middle ++ back)) = front ∧
      Span.text ⟨byteSize front + byteSize middle, byteSize (front ++ (middle ++ back))⟩
        (front ++ (middle ++ back)) = back := by
  have hmiddle := slice?_append front middle back
  have hfront := slice?_append [] front (middle ++ back)
  have hback := slice?_append (front ++ middle) back []
  rw [byteSize_nil, Nat.zero_add, List.nil_append] at hfront
  rw [List.append_nil, List.append_assoc, byteSize_append, Nat.add_assoc] at hback
  simp only [Span.text, hmiddle, hfront, byteSize_append, hback, Option.getD_some, and_self]

/-- The width of blanks inside a line makes no difference. In the place of a leaf of white space that
consists of blanks, and stands neither at the start of the source nor behind a line feed, there can be any
other run of blanks: the tree is shown as the same s-expression, and the diagnostics have the same codes
and messages in the same order. -/
theorem parse_respaced (limit : Nat) (source : Text) {leaf : Node}
    (hleaf : leaf ∈ (parse limit source).root.leaves) (hkind : leaf.kind = .token .whitespace)
    (hold : ∀ c ∈ leaf.text source, isBlank c = true) (hstart : leaf.span.start ≠ 0)
    (hline : (Span.text ⟨0, leaf.span.start⟩ source).getLast? ≠ some '\n') {blanks : Text}
    (hne : blanks ≠ []) (hblanks : ∀ c ∈ blanks, isBlank c = true) :
    Sexp.ofTree (parse limit (source.splice leaf.span blanks)) = Sexp.ofTree (parse limit source) ∧
      (parse limit (source.splice leaf.span blanks)).diagnostics.map
          (fun d => (d.cause.code, d.cause.message)) =
        (parse limit source).diagnostics.map fun d => (d.cause.code, d.cause.message) := by
  have fits := fits_parse limit source leaf (List.mem_filter.1 hleaf).1
  obtain ⟨front, old, back, hsource, hfront, hback⟩ := fits.start.split fits.stop fits.ordered
  have hspan : leaf.span = ⟨byteSize front, byteSize front + byteSize old⟩ := by
    rw [← hback, ← hfront]
  subst hsource
  obtain ⟨hmiddle, hahead, hbehind⟩ := Text.stretch_text front old back
  unfold Node.text at hold
  unfold Text.splice
  rw [hspan] at hold hstart hline ⊢
  rw [hmiddle] at hold
  rw [hahead] at hline ⊢
  rw [hbehind]
  exact parse_of_gap limit hleaf hkind hspan hold (fun hnil => hstart (by rw [hnil]; rfl)) hline hne
    hblanks

/-- Two spaces in front of a missing value become a tab. -/
theorem parse_respaced_missingValue :
    (∃ leaf ∈ (parse 2 "x :=  )\n".toList).root.leaves, leaf.kind = .token .whitespace ∧
      leaf.span = ⟨4, 6⟩) ∧
    Text.splice "x :=  )\n".toList ⟨4, 6⟩ "\t".toList = "x :=\t)\n".toList ∧
    (parse 2 "x :=  )\n".toList).diagnostics.map (·.cause.code) =
      ["missing_token", "unexpected_token"] ∧
    Sexp.ofTree (parse 2 (Text.splice "x :=  )\n".toList ⟨4, 6⟩ "\t".toList)) =
      Sexp.ofTree (parse 2 "x :=  )\n".toList) ∧
    (parse 2 (Text.splice "x :=  )\n".toList ⟨4, 6⟩ "\t".toList)).diagnostics.map
        (fun d => (d.cause.code, d.cause.message)) =
      (parse 2 "x :=  )\n".toList).diagnostics.map fun d => (d.cause.code, d.cause.message) := by
  have hleaf : ∃ leaf ∈ (parse 2 "x :=  )\n".toList).root.leaves,
      leaf.kind = .token .whitespace ∧ leaf.span = ⟨4, 6⟩ := by decide +kernel
  refine ⟨hleaf, by decide, by decide +kernel, ?_⟩
  obtain ⟨leaf, hmem, hkind, hspan⟩ := hleaf
  have hold : ∀ c ∈ leaf.text "x :=  )\n".toList, isBlank c = true := by
    unfold Node.text
    rw [hspan]
    exact List.all_eq_true.1 (by decide)
  have hline : (Span.text ⟨0, leaf.span.start⟩ "x :=  )\n".toList).getLast? ≠ some '\n' := by
    rw [hspan]
    decide
  rw [← hspan]
  exact parse_respaced 2 "x :=  )\n".toList hmem hkind hold (by rw [hspan]; exact nofun) hline
    (by decide) (List.all_eq_true.1 (by decide))

end Justfile
