import Justfile.Proofs.Crlf.Scanner
import Justfile.Proofs.Reading.File
import Justfile.Proofs.Simulation.Action
import Justfile.Proofs.Simulation.Item
import Justfile.Proofs.Simulation.Moved

/-!
# Line endings do not matter

A text without carriage returns is read, and the same text with one in front of every line feed. The
second run is in the image of the state of the first one throughout (`otherEndings`). So the trees
differ in their offsets only: they are shown as the same s-expression, and their diagnostics have the
same causes at the same lines and columns (`parse_crlf`).
-/

set_option autoImplicit false

namespace Justfile

namespace Grammar

/-! ## The simulation -/

/-- The state at the same place of the text with carriage returns. -/
def State.crlf (place : Nat → Nat) (s : State) : State :=
  { s with
    stream := s.stream.crlf place
    reports := s.reports.map (moveReport place)
    consumed := s.consumed.map (Token.crlf place) }

@[simp] theorem State.stream_crlf (place : Nat → Nat) (s : State) :
    (s.crlf place).stream = s.stream.crlf place := rfl

@[simp] theorem State.reports_crlf (place : Nat → Nat) (s : State) :
    (s.crlf place).reports = s.reports.map (moveReport place) := rfl

@[simp] theorem State.offset_crlf (place : Nat → Nat) (s : State) :
    (s.crlf place).stream.offset = place s.stream.offset := rfl

/-- A run on a source without carriage returns, and the run on that source with one in front of every
line feed. -/
def otherEndings (source : Text) : Simulation where
  place := source.crlfPlace
  inv c s := s.scanner.WellFormed ∧ c.Governs s.stream ∧ s.scanner.On source
  rel c s t := t = s.crlf source.crlfPlace ∧ c.Governs s.stream
  calm s := s.exhausted = false
  wide s := s.exhausted = false
  live s := s.exhausted = false
  peer s := s.exhausted = false

section OtherEndings

variable {source : Text} {c e : Context} {s : State}

/-- A production is tracked by itself if it takes images to images. -/
theorem otherEndings_tracks {p : Parse Forest}
    (hgoverns : e.mode = c.mode ∧ e.nesting = c.nesting ∧ e.lineBound = c.lineBound)
    (honward : s.scanner.WellFormed → Onward s (p s).2)
    (hon : s.scanner.WellFormed → s.scanner.On source → (p s).2.scanner.On source)
    (himage : s.scanner.WellFormed → s.scanner.On source →
      p (s.crlf source.crlfPlace) =
        (Node.moveList source.crlfPlace (p s).1, (p s).2.crlf source.crlfPlace)) :
    (otherEndings source).Tracks c (fun s => s.exhausted = false) (otherEndings source).moved
      (fun _ => e) (fun _ s => s.exhausted = false) s p p := by
  rintro ⟨hwf, hgov, hs⟩
  have onward := honward hwf
  obtain ⟨hmode, hnesting, hlineBound⟩ := onward.governs hgov
  obtain ⟨hmode', hnesting', hlineBound'⟩ := hgoverns
  have governs : e.Governs (p s).2.stream :=
    ⟨hmode.trans hmode'.symm, hnesting.trans hnesting'.symm, hlineBound.trans hlineBound'.symm⟩
  refine ⟨⟨onward.wellFormed hwf, governs, hon hwf hs⟩, fun hpost => ?_⟩
  refine ⟨onward.exhausted.symm.trans hpost, ?_⟩
  rintro t ⟨rfl, -⟩
  rw [himage hwf hs]
  exact ⟨rfl, rfl, governs⟩

theorem moveList_ofToken (place : Nat → Nat) (tokens : List Token) :
    Node.moveList place (tokens.map (.ofToken none)) =
      (tokens.map (Token.crlf place)).map (.ofToken none) := by
  induction tokens with
  | nil => simp
  | cons token tokens ih =>
    rw [List.map_cons, Node.moveList_cons, ih]
    simp [Node.ofToken, Token.crlf, Span.move]

theorem front_crlf (wf : s.scanner.WellFormed) (hs : s.scanner.On source) :
    (s.crlf source.crlfPlace).front = s.front := by
  unfold State.front
  rw [State.stream_crlf, Stream.nth_crlf hs wf 0]
  rfl

theorem flushed_on (wf : s.scanner.WellFormed) (hs : s.scanner.On source) :
    s.flushed.scanner.On source :=
  Scanner.On.run (Stream.takeTrivia_spec wf).1 hs

theorem flushed_crlf (wf : s.scanner.WellFormed) (hs : s.scanner.On source) :
    (s.crlf source.crlfPlace).flushed = s.flushed.crlf source.crlfPlace := by
  have htrivia := Stream.takeTrivia_crlf hs wf
  unfold State.flushed Stream.flushed
  rw [State.stream_crlf, htrivia]
  simp [State.crlf]

theorem trivia_crlf (wf : s.scanner.WellFormed) (hs : s.scanner.On source) :
    trivia (s.crlf source.crlfPlace) =
      (Node.moveList source.crlfPlace (trivia s).1, (trivia s).2.crlf source.crlfPlace) := by
  have htrivia := Stream.takeTrivia_crlf hs wf
  rw [trivia_eq, trivia_eq, flushed_crlf wf hs, moveList_ofToken]
  rw [State.stream_crlf, htrivia]

/-- Taking the image of a token. -/
theorem take_crlf (token : Token) (scanner : Scanner) (place : Nat → Nat) :
    (s.take token scanner).crlf place = (s.crlf place).take (token.crlf place) (scanner.crlf place) := by
  unfold State.take
  have hkind : (token.crlf place).kind = token.kind := rfl
  rw [hkind]
  cases token.kind <;> rfl

theorem bumpAs_crlf (wf : s.scanner.WellFormed) (hs : s.scanner.On source)
    (hne : s.front ≠ .endOfInput) (field : Option Field) (kind : Option Token.Kind) :
    bumpAs field kind (s.crlf source.crlfPlace) =
      (Node.moveList source.crlfPlace (bumpAs field kind s).1,
        (bumpAs field kind s).2.crlf source.crlfPlace) := by
  have htrivia := Stream.takeTrivia_crlf hs wf
  have hflushed := flushed_crlf wf hs
  have hwf := (trimmed_flushed wf).wellFormed wf
  have hstep := (flushed_on wf hs).next_crlf hwf s.flushed.stream.mode
  have hne' : (s.crlf source.crlfPlace).front ≠ .endOfInput := by
    rw [front_crlf wf hs]
    exact hne
  have hstep' : (s.flushed.crlf source.crlfPlace).step =
      Scanner.imageOf source.crlfPlace s.flushed.step := hstep
  rw [bumpAs_eq field kind s hne, bumpAs_eq field kind _ hne', hflushed, hstep']
  rw [State.stream_crlf, htrivia]
  refine Prod.ext ?_ ?_
  · dsimp only
    rw [Node.moveList_append, moveList_ofToken, Node.moveList_cons, Node.moveList_nil]
    simp [Scanner.imageOf, Token.crlf, Node.ofToken, Span.move]
  · dsimp only
    rw [take_crlf]
    rfl

theorem bumpAs_on (wf : s.scanner.WellFormed) (hs : s.scanner.On source)
    (hne : s.front ≠ .endOfInput) (field : Option Field) (kind : Option Token.Kind) :
    (bumpAs field kind s).2.scanner.On source := by
  rw [bumpAs_eq field kind s hne]
  exact (flushed_on wf hs).next s.flushed.stream.mode

theorem closeBraces_on (wf : s.scanner.WellFormed) (hs : s.scanner.On source) :
    (closeBraces s).2.scanner.On source := by
  rw [closeBraces_eq]
  split
  · next hat =>
    rw [bumpGlued_eq hat]
    exact ((flushed_on wf hs).next s.stream.mode).next s.stream.mode
  · exact hs

theorem closeBraces_crlf (wf : s.scanner.WellFormed) (hs : s.scanner.On source) :
    closeBraces (s.crlf source.crlfPlace) =
      (Node.moveList source.crlfPlace (closeBraces s).1,
        (closeBraces s).2.crlf source.crlfPlace) := by
  have hglued : (s.crlf source.crlfPlace).stream.atGlued (.mark .braceR) (.mark .braceR) =
      s.stream.atGlued (.mark .braceR) (.mark .braceR) := Stream.atGlued_crlf hs wf _ _
  rw [closeBraces_eq, closeBraces_eq, hglued]
  split
  · next hat =>
    have htrivia := Stream.takeTrivia_crlf hs wf
    have hflushed := flushed_crlf wf hs
    have hwf := (trimmed_flushed wf).wellFormed wf
    have hon := flushed_on wf hs
    have hfirst : (s.flushed.crlf source.crlfPlace).step =
        Scanner.imageOf source.crlfPlace s.flushed.step := hon.next_crlf hwf s.stream.mode
    have hsecond := (hon.next s.stream.mode).next_crlf (hwf.next s.stream.mode) s.stream.mode
    rw [bumpGlued_eq hat, bumpGlued_eq (hglued.trans hat), hflushed, hfirst]
    have hsecond' : (Scanner.imageOf source.crlfPlace s.flushed.step).2.next
        (s.crlf source.crlfPlace).stream.mode =
          Scanner.imageOf source.crlfPlace (s.flushed.step.2.next s.stream.mode) := hsecond
    rw [hsecond', State.stream_crlf, htrivia]
    refine Prod.ext ?_ ?_
    · dsimp only
      rw [Node.moveList_append, moveList_ofToken, Node.moveList_cons, Node.moveList_nil]
      simp [Scanner.imageOf, Token.crlf, Span.move]
    · dsimp only
      rw [take_crlf]
      simp [Scanner.imageOf, Token.crlf]
  · refine Prod.ext ?_ rfl
    change _ = Node.moveList source.crlfPlace [.leaf none .missing (.empty s.stream.offset)]
    rw [Node.moveList_cons, Node.move_leaf, Node.moveList_nil]
    rfl

/-- What is found ahead in the two texts. -/
theorem alike_nth (wf : s.scanner.WellFormed) (hs : s.scanner.On source) (n : Nat) :
    (otherEndings source).Alike c (s.stream.nth n) ((s.crlf source.crlfPlace).stream.nth n) := by
  have himage : (s.crlf source.crlfPlace).stream.nth n = (s.stream.nth n).crlf source.crlfPlace :=
    Stream.nth_crlf hs wf n
  rw [himage]
  exact ⟨rfl, fun _ => rfl, fun hkind => Text.crlf_of_not_mem (Stream.isWord_nth wf n hkind)⟩

/-- Single tokens are tracked, whatever they do to the levels. -/
theorem otherEndings_bump (hgoverns : e.mode = c.mode ∧ e.nesting = c.nesting ∧
      e.lineBound = c.lineBound) (hne : s.front ≠ .endOfInput) (field : Option Field)
    (kind : Option Token.Kind) :
    (otherEndings source).Tracks c (fun s => s.exhausted = false) (otherEndings source).moved
      (fun _ => e) (fun _ s => s.exhausted = false) s (bumpAs field kind) (bumpAs field kind) :=
  otherEndings_tracks hgoverns (fun h => onward_bumpAs h hne field kind)
    (fun h hs => bumpAs_on h hs hne field kind) (fun h hs => bumpAs_crlf h hs hne field kind)

theorem lawful_otherEndings (source : Text) : (otherEndings source).Lawful where
  wellFormed h := h.1
  governs h := h.2.1
  governs_rel h := h.1 ▸ ⟨h.2.mode, h.2.nesting, h.2.lineBound⟩
  depth h := by rw [h.1]; rfl
  offset h := by rw [h.1]; rfl
  inv_within _ _ h := ⟨h.1, ⟨rfl, rfl, rfl⟩, h.2.2⟩
  rel_within _ h := ⟨by rw [h.1]; rfl, rfl, rfl, rfl⟩
  inv_opened h := ⟨h.1, ⟨h.2.1.mode, h.2.1.nesting, h.2.1.lineBound⟩, h.2.2⟩
  rel_opened h := ⟨h.1, h.2.mode, h.2.nesting, h.2.lineBound⟩
  inv_report _ _ h := h
  rel_report _ _ h := ⟨by rw [h.1]; rfl, h.2⟩
  inv_spent _ h := ⟨h.1, ⟨h.2.1.mode, h.2.1.nesting, h.2.1.lineBound⟩, h.2.2⟩
  -- One condition stands for all of them: the budget lasts.
  calm_of_wide := id
  wide_of_live := id
  live_of_peer := id
  calm_within := id
  wide_within := id
  live_atDepth := id
  not_calm_spent h := by cases h
  peer_of_report h := h
  peer_of_reported _ h := h
  live_of_calm _ h _ _ _ := h
  live_of_wide _ h _ _ := h
  live_of_midLine _ _ h _ _ _ := h
  peer_of_next h _ _ := h
  peer_of_trimmed h _ _ := h
  -- The other state is the image of the first, token by token.
  token h _ hrel := by
    rw [hrel.1]
    exact alike_nth h.1 h.2.2 0
  second h _ _ hrel := by
    rw [hrel.1]
    exact alike_nth h.1 h.2.2 1
  third {c s t} h _ _ hrel := by rw [hrel.1, (alike_nth (c := c) h.1 h.2.2 2).kind]
  front_body h _ _ _ hrel := by rw [hrel.1]; exact front_crlf h.1 h.2.2
  indent h _ _ hrel := by rw [hrel.1, front_crlf h.1 h.2.2]
  trivia := otherEndings_tracks ⟨rfl, rfl, rfl⟩ onward_flushed flushed_on trivia_crlf
  bump field _ hne := otherEndings_bump ⟨rfl, rfl, rfl⟩ hne field none
  keyword {c s} _ _ hfront := by
    have hne : s.front ≠ .endOfInput := by
      rw [hfront]
      exact nofun
    exact otherEndings_bump (c := c) ⟨rfl, rfl, rfl⟩ hne none _
  open_literal {c s} field hopens :=
    otherEndings_bump (c := c) (e := c.opened) ⟨rfl, rfl, rfl⟩
      (ne_endOfInput_of_opensLiteral hopens) field none
  open_body {c s} hfront _ _ := by
    have hne : s.front ≠ .endOfInput := by
      rw [hfront]
      exact nofun
    refine Simulation.Tracks.openBody
      (otherEndings_bump (c := c) (e := c.withBodies 1) ⟨rfl, rfl, rfl⟩ hne none none)
      (fun u h => ⟨h.1, ⟨rfl, h.2.1.nesting, h.2.1.lineBound⟩, h.2.2⟩) ?_ fun _ => id
    rintro u t ⟨rfl, h⟩
    exact ⟨rfl, rfl, h.nesting, h.lineBound⟩
  close_body {c s} hfront _ _ := by
    have hne : s.front ≠ .endOfInput := by
      rw [hfront]
      exact nofun
    exact otherEndings_bump (c := c) (e := c.withBodies 0) ⟨rfl, rfl, rfl⟩ hne none none
  end_body _ _ _ h := ⟨⟨h.1, ⟨h.2.1.mode, h.2.1.nesting, h.2.1.lineBound⟩, h.2.2⟩,
    fun _ hrel => ⟨hrel.1, hrel.2.mode, hrel.2.nesting, hrel.2.lineBound⟩⟩
  close_braces _ := otherEndings_tracks ⟨rfl, rfl, rfl⟩ onward_closeBraces closeBraces_on
    closeBraces_crlf

end OtherEndings

/-! ## Runs -/

/-- A run on the text with carriage returns ends in the image of the state. -/
theorem run_crlf (limit : Nat) {source : Text} (h : '\r' ∉ source) :
    run limit source.crlf =
      (Node.moveList source.crlfPlace (run limit source).1,
        (run limit source).2.crlf source.crlfPlace) := by
  have hbudget : budgetFor source.length ≤ budgetFor source.crlf.length := by
    have hlength := Text.length_le_length_crlf source
    unfold budgetFor
    omega
  have pairs := (lawful_otherEndings source).pairs_tie (Nat.le_refl limit) (.inl rfl) hbudget
  have governs : Context.outer.Governs (State.ofText source).stream := ⟨rfl, rfl, rfl⟩
  have hstart : State.ofText source.crlf = (State.ofText source).crlf source.crlfPlace := by
    have hscanner := Scanner.ofText_crlf source
    simp only [State.ofText, Stream.ofText, State.crlf, Stream.crlf, hscanner, List.map_nil]
  have hfile := (lawful_otherEndings source).file (c := .outer) (s := .ofText source) rfl rfl pairs
    rfl
  obtain ⟨-, hrun⟩ := hfile ⟨Scanner.wellFormed_ofText source, governs, Scanner.on_ofText h⟩
  have hlast := exhausted_run limit source
  rw [run_eq] at hlast
  obtain ⟨-, hrel⟩ := hrun hlast
  obtain ⟨hnodes, hstate, -⟩ := hrel (.ofText source.crlf) ⟨hstart, governs⟩
  rw [run_eq, run_eq]
  generalize file (.tie limit (budgetFor source.length)) (.ofText source) = first at hnodes hstate ⊢
  generalize file (.tie limit (budgetFor source.crlf.length)) (.ofText source.crlf) = second
    at hnodes hstate ⊢
  exact Prod.ext hnodes hstate

end Grammar

/-! ## Positions -/

/-- Counting up to the end of what became of a stretch counts the characters of the stretch. -/
theorem Position.after_crlf (p : Position) {text : Text} (h : '\r' ∉ text) (offset : Nat) :
    p.after text.crlf (text.crlfPlace offset) = p.after text offset := by
  induction text generalizing p offset with
  | nil => rfl
  | cons c rest ih =>
    rcases Text.plain_cases h with hnil | ⟨rest', heq, hrest⟩ | ⟨d, rest', heq, hc, hreturn, hrest⟩
    · cases hnil
    · cases heq
      cases offset with
      | zero => rw [Text.crlfPlace_zero, after_zero, after_zero]
      | succ offset =>
        have hplace : Text.crlfPlace ('\n' :: rest) (offset + 1) =
            Text.crlfPlace rest offset + 2 := by
          have hfeed : ¬offset + 1 < '\n'.utf8Size := Nat.not_lt.2 (Nat.le_add_left 1 offset)
          rw [Text.crlfPlace, if_neg hfeed, Nat.add_comm]
          rfl
        rw [hplace, Text.crlf_newline, after, after, after]
        exact ih _ hrest offset
    · cases heq
      rw [Text.crlf_cons hc, Text.crlfPlace, Text.crlf_cons hc, Text.crlf_nil]
      rw [Text.byteSize_cons, Text.byteSize_nil, Nat.add_zero]
      by_cases hzero : offset = 0
      · subst hzero
        rw [if_pos c.utf8Size_pos, after_zero, after_zero]
      · rw [after, after, if_neg hzero]
        by_cases hinside : offset < c.utf8Size
        · rw [if_pos hinside, if_neg hzero, Nat.sub_eq_zero_of_le (Nat.le_of_lt hinside),
            after_zero, after_zero]
        · have hsize := c.utf8Size_pos
          rw [if_neg hinside, if_neg (by omega), Nat.add_sub_cancel_left]
          exact ih _ hrest _

theorem position_crlf {source : Text} (h : '\r' ∉ source) (offset : Nat) :
    (LineIndex.ofText source.crlf).position source.crlf (source.crlfPlace offset) =
      (LineIndex.ofText source).position source offset := by
  rw [LineIndex.position_eq_after, LineIndex.position_eq_after, Position.after_crlf _ h]

/-! ## Trees -/

/-- What is wrong, and where, but for the offsets. -/
def Diagnostic.summary (d : Diagnostic) : Cause × Position := (d.cause, d.position)

/-- How its lines end makes no difference to a source: the tree is shown as the same s-expression,
and the diagnostics have the same causes, in the same order, at the same lines and columns. -/
theorem parse_crlf (limit : Nat) {source : Text} (h : '\r' ∉ source) :
    Sexp.ofTree (parse limit source.crlf) = Sexp.ofTree (parse limit source) ∧
      (parse limit source.crlf).diagnostics.map Diagnostic.summary =
        (parse limit source).diagnostics.map Diagnostic.summary := by
  have hrun := Grammar.run_crlf limit h
  refine ⟨?_, ?_⟩
  · have hroot : (parse limit source.crlf).root =
        (parse limit source).root.move source.crlfPlace := by
      rw [root_parse, root_parse, hrun, Node.move_branch, Grammar.State.offset_crlf]
    unfold Sexp.ofTree Sexp.line
    rw [hroot, Sexp.lineOnto_move]
  · have hreports : (Grammar.run limit source.crlf).2.reports =
        (Grammar.run limit source).2.reports.map (Grammar.moveReport source.crlfPlace) := by
      rw [hrun, Grammar.State.reports_crlf]
    rw [diagnostics_parse, diagnostics_parse, hreports, ← List.map_reverse,
      Report.sort_move fun _ _ _ _ => Text.crlfPlace_le_iff source _ _]
    simp only [List.map_map]
    apply List.map_congr_left
    intro report _
    simp only [Function.comp_apply, Diagnostic.summary, Report.located, Grammar.moveReport]
    rw [show (report.span.move source.crlfPlace).start = source.crlfPlace report.span.start from rfl,
      position_crlf h]

/-- A recipe with a body, and an assignment whose value is missing: the faults are on the third line of
both texts. -/
theorem parse_crlf_recipe :
    '\r' ∉ "a:\n  b\nx := )\n".toList ∧
    Text.crlf "a:\n  b\nx := )\n".toList = "a:\r\n  b\r\nx := )\r\n".toList ∧
    (parse 2 "a:\n  b\nx := )\n".toList).diagnostics.map (·.position) = [⟨3, 6⟩, ⟨3, 6⟩] ∧
    Sexp.ofTree (parse 2 (Text.crlf "a:\n  b\nx := )\n".toList)) =
      Sexp.ofTree (parse 2 "a:\n  b\nx := )\n".toList) ∧
    (parse 2 (Text.crlf "a:\n  b\nx := )\n".toList)).diagnostics.map Diagnostic.summary =
      (parse 2 "a:\n  b\nx := )\n".toList).diagnostics.map Diagnostic.summary :=
  ⟨by decide, by decide, by decide +kernel, parse_crlf 2 (by decide)⟩

end Justfile
