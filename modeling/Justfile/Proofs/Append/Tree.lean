import Justfile.Proofs.Append.LastLine
import Justfile.Proofs.Append.Shifted
import Justfile.Proofs.Position.Line

/-!
# Trees of joined texts

A text whose tree has no diagnostics and ends with a line leaves nothing behind that a second text could
notice: the parser stands between two items again. So the tree of both texts, one behind the other, has the
items of the first and then those of the second, further on by the size of the first, and the diagnostics
are those of the second (`parse_append`).

The run on both texts follows the run on the first one to its end (`file_joined`), and from there the run
on the second one (`items_shifted`).
-/

set_option autoImplicit false

namespace Justfile

open Justfile.Measure (StartsItem)
open Text (byteSize)

namespace Grammar

variable {limit bound : Nat} {source more : Text}

/-! ## The start of the second text -/

theorem front_of_startsItem (h : StartsItem source) :
    Scanner.isItemStart (State.ofText source).front = true := by
  have hstep : Scanner.isItemStart (State.ofText source).step.1.kind = true := by
    change Scanner.isItemStart ((Scanner.ofText source).next .normal).1.kind = true
    rw [(Scanner.ready_ofText h).next_eq]
    exact Scanner.kind_normal h
  have flush : (State.ofText source).stream.Flush := by
    change (State.ofText source).stream.isTrivia (State.ofText source).step.1.kind = false
    generalize (State.ofText source).step.1.kind = kind at hstep
    unfold Scanner.isItemStart at hstep
    split at hstep <;> first | rfl | cases hstep
  rw [front_eq_step (Scanner.wellFormed_ofText source), (flushed_of_flush flush).2]
  exact hstep

/-- No shebang line is looked for in front of an item: the file is made of items only. -/
theorem file_of_startsItem (h : StartsItem source) (rules : Rules) :
    file rules (.ofText source) = items rules rules.budget (.ofText source) := by
  have hfront := front_of_startsItem h
  have hne : (State.ofText source).front ≠ .shebangStart := by
    intro hshebang
    rw [hshebang] at hfront
    cases hfront
  have hnone : fileShebang rules (.ofText source) = ([], .ofText source) := by
    unfold fileShebang
    change (if ((State.ofText source).front == Token.Kind.shebangStart) = true then
      shebang rules none >>= fun line => lineEnd rules >>= fun ending => pure (line ++ ending)
      else pure [] : Parse Forest) (.ofText source) = _
    rw [beq_eq_false_iff_ne.2 hne]
    rfl
  rw [file_eq, hnone]
  rfl

/-! ## Runs -/

/-- From a scanner that is shifted on, the items of the second text are read. -/
theorem items_shifted (limit : Nat) (hmore : StartsItem more) {size : Nat} {t : State}
    (like : Scanner.Shifted size Context.outer.remembers (.ofText more) t.scanner)
    (wf : t.scanner.WellFormed) (governs : Context.outer.Governs t.stream) (hdepth : t.depth = 0)
    (hreports : t.reports = []) {extra : Nat} (hbound : budgetFor more.length ≤ bound)
    (hextra : budgetFor more.length ≤ extra) :
    (items (.tie limit bound) extra t).1 = Node.moveList (shift size) (run limit more).1 ∧
      (items (.tie limit bound) extra t).2.reports =
        (run limit more).2.reports.map (moveReport (shift size)) := by
  have lawful := (Scanner.shifted size).lawful
  have pairs := lawful.pairs_tie (Nat.le_refl limit) (.inl rfl) hbound
  have hlast := exhausted_run limit more
  rw [run_eq, file_of_startsItem hmore] at hlast ⊢
  obtain ⟨-, hfollows⟩ := lawful.items (c := .outer) rfl rfl pairs rfl hextra
    ((Scanner.shifted size).inv_ofText more)
  obtain ⟨-, hrun⟩ := hfollows ⟨hlast, fun _ _ => trivial⟩
  obtain ⟨hnodes, -, -, -, -, hmoved⟩ := hrun t ⟨like, wf, governs, hdepth, hreports⟩
  exact ⟨hnodes, hmoved⟩

/-- The state behind the first text is one that the second one can be read from. -/
theorem like_joined (hmore : StartsItem more) {s t : State} (hinv : (joined more).inv .outer s)
    (hrel : (joined more).rel .outer s t) (hrest : s.scanner.rest = []) (hlive : s.exhausted = false) :
    Scanner.Shifted s.scanner.offset Context.outer.remembers (.ofText more) t.scanner ∧
      t.scanner.WellFormed := by
  have ready : s.scanner.Ready :=
    hinv.1.1.ready_of_nil hrest (pendingDedents_joined hinv hlive)
  have hlevels : s.scanner.levels = [] := (hinv.1.2.2 hlive).phase.1
  rw [hrel.1]
  refine ⟨hinv.2.1.shifted ready hrest hlevels hmore ?_ ?_, ?_⟩
  · rintro (hliteral | hmode)
    · cases hliteral
    · cases hmode
  · rintro (hbodies | hmode)
    · exact hbodies rfl
    · cases hmode
  · exact Scanner.wellFormed_of_undecided ready.queued ready.base_le ready.pendingFault

/-- The run on both texts makes the nodes of the first one, and then those of the second one; only those
are reported on. -/
theorem run_append (hmore : StartsItem more) (plain : Plain limit source) :
    (run limit (source ++ more)).1 =
        (run limit source).1 ++ Node.moveList (shift (byteSize source)) (run limit more).1 ∧
      (run limit (source ++ more)).2.reports =
        (run limit more).2.reports.map (moveReport (shift (byteSize source))) := by
  -- A budget for both texts, of which the first one uses up no more than its own.
  have hbudget : budgetFor (source ++ more).length ≤ budgetFor source.length + budgetFor more.length := by
    unfold budgetFor
    rw [List.length_append]
    omega
  have pairs := (lawful_joined hmore).pairs_tie (Nat.le_refl limit) (.inl rfl)
    (Nat.le_add_right (budgetFor source.length) (budgetFor more.length))
  have hsound := plain.sound
  have hends := plain.ends
  rw [run_eq] at hsound hends
  obtain ⟨hinv, t, count, hcount, hrel, hfile⟩ := file_joined hmore plain.lines pairs hsound hends
  rw [← run_eq] at hinv hrel hfile
  obtain ⟨extra, hextra⟩ : ∃ extra, budgetFor source.length + budgetFor more.length = count + extra :=
    Nat.exists_eq_add_of_le (Nat.le_trans hcount (Nat.le_add_right _ _))
  have hle : budgetFor more.length ≤ extra := by
    have hcount' : count ≤ budgetFor source.length := hcount
    omega
  obtain ⟨like, wf⟩ := like_joined hmore hinv hrel (derives_file limit source).2
    (exhausted_run limit source)
  rw [offset_run] at like
  obtain ⟨hnodes, hreports⟩ := items_shifted limit hmore like wf hrel.2.1
    (hrel.2.2.1.trans (depth_run limit source)) (hrel.2.2.2.trans plain.reports)
    (Nat.le_add_left (budgetFor more.length) (budgetFor source.length)) hle
  obtain ⟨hsame, hsame', -⟩ := Mirror.file_of_budget_le limit (source ++ more) hbudget
  rw [← hsame, ← hsame', hfile extra hextra, hnodes, hreports]
  exact ⟨rfl, rfl⟩

end Grammar

/-! ## Positions -/

namespace Position

/-- The position so many lines further down. -/
def below (lines : Nat) (p : Position) : Position := ⟨p.line + lines, p.column⟩

theorem after_below (lines : Nat) (p : Position) (text : Text) (offset : Nat) :
    (p.below lines).after text offset = (p.after text offset).below lines := by
  induction text generalizing p offset with
  | nil => rfl
  | cons c text ih =>
    have hadvance : (p.below lines).advance c = (p.advance c).below lines := by
      unfold advance below
      split
      · rw [Nat.add_right_comm]
      · rfl
    rw [after, after, hadvance, ih]
    split
    · rfl
    · rfl

/-- A text that ends with a line is counted in lines. -/
theorem foldl_advance_of_isLines {text : Text} (h : Text.IsLines text) :
    text.foldl advance ⟨1, 1⟩ = below (text.count '\n') ⟨1, 1⟩ := by
  obtain ⟨front, rfl⟩ := h.exists_front
  rw [List.foldl_append, List.count_append, List.count_singleton_self]
  change Position.mk ((front.foldl advance ⟨1, 1⟩).line + 1) 1 = _
  rw [line_foldl_advance, Nat.add_assoc]
  rfl

end Position

/-- The position of a place in the second of two texts. -/
theorem LineIndex.position_append {front : Text} (h : Text.IsLines front) (back : Text) (offset : Nat) :
    (ofText (front ++ back)).position (front ++ back) (shift (byteSize front) offset) =
      ((ofText back).position back offset).below (front.count '\n') := by
  rw [position_eq_after, position_eq_after, shift, Nat.add_comm, Position.after_append_add,
    Position.foldl_advance_of_isLines h, Position.after_below]

/-! ## Trees -/

/-- The diagnostic with a text in front. -/
def Diagnostic.behind (front : Text) (d : Diagnostic) : Diagnostic :=
  ⟨d.cause, d.span.move (shift (byteSize front)), d.position.below (front.count '\n')⟩

theorem located_append {front : Text} (h : Text.IsLines front) (back : Text) (report : Report) :
    (Grammar.moveReport (shift (byteSize front)) report).located (front ++ back) =
      (report.located back).behind front := by
  unfold Report.located Diagnostic.behind Grammar.moveReport Span.move
  dsimp only
  rw [LineIndex.position_append h]

theorem children_root_parse (limit : Nat) (source : Text) :
    (parse limit source).root.children = (Grammar.run limit source).1 := by
  rw [root_parse, Node.branch]

/-- Parsing goes item by item. If the tree of the first text has no diagnostics, and its last leaf with
characters is the end of a line, and an item starts the second text, well-formed or not, then the tree of
both has the nodes of the first text and then those of the second one, further on by the bytes of the first
text. The diagnostics are those of the second text, further on by as many bytes and lines. -/
theorem parse_append (limit : Nat) (front back : Text)
    (hclean : (parse limit front).diagnostics = [])
    (hlast : ((parse limit front).root.leaves.filter (!·.span.isEmpty)).getLast?.map Node.kind =
      some (.token .newline))
    (hback : ∃ c ∈ back.head?, c.isAlpha = true ∨ c = '_' ∨ c = '@' ∨ c = '[') :
    (parse limit (front ++ back)).root.children =
        (parse limit front).root.children ++
          Node.moveList (· + byteSize front) (parse limit back).root.children ∧
      (parse limit (front ++ back)).diagnostics =
        (parse limit back).diagnostics.map (Diagnostic.behind front) := by
  have plain := Grammar.plain_of_tree hclean hlast
  have hstarts : StartsItem back := by
    obtain ⟨c, hhead, hc⟩ := hback
    refine ⟨c, hhead, ?_⟩
    rcases hc with hc | rfl | rfl | rfl
    · simp [Measure.startsItem, Measure.startsIdentifier, hc]
    · rfl
    · rfl
    · rfl
  obtain ⟨hnodes, hreports⟩ := Grammar.run_append hstarts plain
  have hsort : Report.sort
        ((Grammar.run limit back).2.reports.reverse.map (Grammar.moveReport (shift (byteSize front)))) =
      (Report.sort (Grammar.run limit back).2.reports.reverse).map
        (Grammar.moveReport (shift (byteSize front))) :=
    Report.sort_move fun _ _ _ _ => Nat.add_le_add_iff_right
  constructor
  · rw [children_root_parse, children_root_parse, children_root_parse, hnodes]
  · rw [diagnostics_parse, diagnostics_parse, hreports, ← List.map_reverse, hsort, List.map_map,
      List.map_map]
    exact List.map_congr_left fun report _ => located_append plain.lines back report

/-- A recipe with a body, and behind it a recipe with a number among its parameters. -/
theorem parse_append_recipes :
    ∃ front back : Text, front = "a:\n echo\n".toList ∧ back = "@b x 1:\n".toList ∧
      (parse 2 front).diagnostics = [] ∧
      ((parse 2 front).root.leaves.filter (!·.span.isEmpty)).getLast?.map Node.kind =
        some (.token .newline) ∧
      (parse 2 back).diagnostics.length = 2 ∧
      (parse 2 (front ++ back)).root.children =
          (parse 2 front).root.children ++
            Node.moveList (· + byteSize front) (parse 2 back).root.children ∧
        (parse 2 (front ++ back)).diagnostics =
          (parse 2 back).diagnostics.map (Diagnostic.behind front) := by
  have hclean : (parse 2 "a:\n echo\n".toList).diagnostics = [] := by decide +kernel
  have hlast : ((parse 2 "a:\n echo\n".toList).root.leaves.filter
      (!·.span.isEmpty)).getLast?.map Node.kind = some (.token .newline) := by decide +kernel
  have hcount : (parse 2 "@b x 1:\n".toList).diagnostics.length = 2 := by decide +kernel
  have hstart : ∃ c ∈ ("@b x 1:\n".toList).head?, c.isAlpha = true ∨ c = '_' ∨ c = '@' ∨ c = '[' :=
    ⟨'@', rfl, .inr (.inr (.inl rfl))⟩
  exact ⟨_, _, rfl, rfl, hclean, hlast, hcount, parse_append 2 _ _ hclean hlast hstart⟩

end Justfile
