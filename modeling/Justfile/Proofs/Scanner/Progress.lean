import Justfile.Proofs.Scanner.Step

/-!
# Progress of the scanner

Steps keep a scanner well-formed (`WellFormed.next`), and every step but the one at the end of the
input lowers its `work` (`work_next_lt`). Tokens without characters are what makes this more than a
count of characters: an `indent` is paid for by the deeper line it stands in front of, a `dedent` by
the level it closes, and an unterminated literal at the very end by the flag it sets.

Later proofs ask a step one of a few questions, and each has an answer of its own: what a token that
tells of lines, levels or the end of the input comes from (`Step.layout_cases`), what is left to do where
no characters are (`Step.cases_of_rest_nil`), what becomes of queued pieces (`Step.queued_cases`), and
what a step uses up (`Step.taking_cases`). The end of the input is given only where nothing is left
(`Step.endOfInput_inv`).
-/

set_option autoImplicit false

namespace Justfile.Scanner

/-! ## Well-formed scanners -/

theorem wellFormed_ofText (source : Text) : (ofText source).WellFormed := by
  refine ⟨?_, ?_, ?_, ?_⟩
  · intro piece hp
    cases hp
  · exact Nat.zero_le _
  · intro hlt
    refine ⟨rfl, ?_⟩
    cases source with
    | nil => simp [ofText] at hlt
    | cons c rest =>
      refine ⟨c, rest, rfl, ?_⟩
      by_cases hc : c = byteOrderMark
      · simp [ofText, hc]
      · simp [ofText, hc]
  · intro fault hf
    cases hf

/-- Nothing has to be there for a scanner that has decided nothing. -/
theorem wellFormed_of_undecided {s : Scanner} (queued : s.queued = []) (base : s.base ≤ s.offset)
    (fault : s.pendingFault = none) : s.WellFormed := by
  refine ⟨?_, ?_, ?_, ?_⟩
  · rw [queued]
    intro piece hp
    cases hp
  · rw [queued]
    exact Nat.zero_le _
  · intro hlt
    omega
  · rw [fault]
    intro f hf
    cases hf

theorem Ready.wellFormed {s : Scanner} (ready : s.Ready) : s.WellFormed :=
  wellFormed_of_undecided ready.queued ready.base_le ready.pendingFault

/-- Behind the signs of a shebang line the rest of that line is queued. -/
@[simp]
theorem shebang_queued (s : Scanner) :
    s.shebang.2.queued = Interpreter.pieces ((s.rest.take (Measure.line s.rest)).drop 2) := rfl

@[simp]
theorem shebang_rest (s : Scanner) : s.shebang.2.rest = s.rest.drop 2 := rfl

/-- The queued pieces of a shebang line lie on that line. -/
theorem wellFormed_shebang {s : Scanner} (base : s.base ≤ s.offset) (fault : s.pendingFault = none) :
    s.shebang.2.WellFormed := by
  have hcuts := Interpreter.cuts_pieces ((s.rest.take (Measure.line s.rest)).drop 2)
  have hbase : s.base ≤ s.shebang.2.offset := Nat.le_trans base (Nat.le_add_right _ _)
  refine ⟨hcuts.pos, ?_, ?_, ?_⟩
  · have htotal := hcuts.total_add
    simp only [shebang, emit, List.length_drop, List.length_take, List.length_nil] at htotal ⊢
    omega
  · intro hlt
    exact absurd hlt (Nat.not_lt.2 hbase)
  · intro f hf
    have hnone : s.shebang.2.pendingFault = none := fault
    rw [hnone] at hf
    cases hf

/-- Taking the first queued piece leaves the others where they are. -/
theorem wellFormed_piece {s : Scanner} (wf : s.WellFormed) {kind : Token.Kind} {size : Nat}
    {queued : List Interpreter.Piece} (hq : s.queued = (kind, size) :: queued) :
    ({ s with queued := queued }.emit kind size).2.WellFormed := by
  refine ⟨?_, ?_, ?_, ?_⟩
  · intro piece hp
    exact wf.pieces piece (by rw [hq]; exact List.mem_cons_of_mem _ hp)
  · have hfits := wf.fits
    rw [hq] at hfits
    simp only [Interpreter.total, emit, List.length_drop] at hfits ⊢
    omega
  · -- The byte order mark comes before any queue.
    intro hlt
    have hbase : s.base ≤ s.offset := by
      apply Nat.le_of_not_lt
      intro hbefore
      have hnil := (wf.mark hbefore).1
      rw [hq] at hnil
      cases hnil
    exact absurd hlt (Nat.not_lt.2 (Nat.le_trans hbase (Nat.le_add_right _ _)))
  · intro fault hf
    have hnil := (wf.fault fault hf).1
    rw [hq] at hnil
    cases hnil

theorem wellFormed_byteOrderMark {s : Scanner} (wf : s.WellFormed) (hbase : s.offset < s.base) :
    (s.emit .whitespace 1).2.WellFormed := by
  obtain ⟨hq, c, rest, hrest, hle⟩ := wf.mark hbase
  refine wellFormed_of_undecided hq ?_ ?_
  · simpa [emit, hrest] using hle
  · cases hf : s.pendingFault with
    | none => exact hf
    | some fault =>
      have := (wf.fault fault hf).2.1
      omega

/-- A step leaves the scanner well-formed. -/
theorem Step.wellFormed {s : Scanner} {mode : Mode} {out : Token × Scanner} (wf : s.WellFormed)
    (step : s.Step mode out) : out.2.WellFormed := by
  have hemit : ∀ {t : Scanner} {kind : Token.Kind} {size : Nat}, t.queued = [] → t.base ≤ t.offset →
      t.pendingFault = none → (t.emit kind size).2.WellFormed := fun hq hb hf =>
    wellFormed_of_undecided hq (Nat.le_trans hb (Nat.le_add_right _ _)) hf
  cases step with
  | piece hq => exact wellFormed_piece wf hq
  | byteOrderMark _ hbase => exact wellFormed_byteOrderMark wf hbase
  | furtherDedent => exact ⟨wf.pieces, wf.fits, wf.mark, wf.fault⟩
  | mismatch hq hb => exact hemit hq hb rfl
  | endOfInput => exact wf
  | plain _ _ ready => exact hemit ready.queued ready.base_le ready.pendingFault
  | shebang _ _ ready => exact wellFormed_shebang ready.base_le ready.pendingFault
  | opens ready => exact hemit ready.queued ready.base_le ready.pendingFault
  | closes ready => exact hemit ready.queued ready.base_le ready.pendingFault
  | unterminated ready => exact hemit ready.queued ready.base_le ready.pendingFault
  | indent ready => exact wellFormed_of_undecided ready.queued ready.base_le ready.pendingFault
  | lastDedent ready => exact wellFormed_of_undecided ready.queued ready.base_le ready.pendingFault
  | dedentTo ready _ _ hline =>
    refine ⟨wf.pieces, wf.fits, wf.mark, ?_⟩
    intro fault hf
    refine ⟨ready.queued, ready.base_le, hline, ?_⟩
    change (if _ = _ then s.pendingFault else some _) = some fault at hf
    split at hf
    · rw [ready.pendingFault] at hf
      cases hf
    · cases hf
      exact ⟨_, _, _, rfl⟩

theorem WellFormed.next {s : Scanner} (wf : s.WellFormed) (mode : Mode) :
    (s.next mode).2.WellFormed :=
  (step_next s mode).wellFormed wf

/-! ## Lines, levels and the end of the input -/

/-- The first queued piece is there to be taken. -/
theorem ne_nil_of_queued {s : Scanner} (wf : s.WellFormed) {kind : Token.Kind} {size : Nat}
    {queued : List Interpreter.Piece} (hq : s.queued = (kind, size) :: queued) :
    s.rest ≠ [] ∧ 0 < size ∧ Interpreter.isPieceKind kind = true := by
  obtain ⟨hpos, hkind⟩ := wf.pieces (kind, size) (by rw [hq]; exact List.mem_cons_self)
  have hfits := wf.fits
  rw [hq] at hfits
  simp only [Interpreter.total] at hfits
  refine ⟨?_, hpos, hkind⟩
  intro hnil
  rw [hnil, List.length_nil] at hfits
  omega

/-- The kinds that tell of lines and levels and of the end of the input. No mode gives one of them
for the characters that it reads. -/
def isLayoutKind : Token.Kind → Bool
  | .indent | .dedent | .endOfInput | .shebangStart => true
  | .errorRecovery (.dedentMismatch ..) => true
  | _ => false

theorem isLayoutKind_of_isPieceKind {kind : Token.Kind}
    (h : Interpreter.isPieceKind kind = true) : isLayoutKind kind = false := by
  unfold isLayoutKind
  split <;> first | rfl | cases h

theorem isLayoutKind_of_admits {mode : Mode} {kind : Token.Kind} (h : mode.admits kind = true) :
    isLayoutKind kind = false := by
  unfold isLayoutKind
  split <;> first | rfl | (cases mode <;> cases h)

theorem isLayoutKind_of_opensLiteral {kind : Token.Kind} (h : kind.opensLiteral = true) :
    isLayoutKind kind = false := by
  unfold isLayoutKind
  split <;> first | rfl | cases h

/-- What gives a token of these kinds. -/
theorem Step.layout_cases {s : Scanner} {mode : Mode} {out : Token × Scanner} (wf : s.WellFormed)
    (step : s.Step mode out) (hkind : isLayoutKind out.1.kind = true) :
    (s.Ready ∧ s.rest = [] ∧ (mode.fault?.isSome = true → s.literalClosed = true) ∧
      out = (s.mark .endOfInput, s)) ∨
    (s.Ready ∧ mode = .bodyStart ∧ s.top < Measure.indentation s.rest ∧
      out = (s.mark .indent (some (Measure.indentation s.rest)),
        { s with levels := Measure.indentation s.rest :: s.levels, firstBodyLine := true })) ∨
    out.1.kind = .dedent ∨
    (∃ fault, s.pendingFault = some fault ∧ out =
      { s with pendingFault := none }.emit (.errorRecovery fault) (Measure.line s.rest)) ∨
    ∃ content first, s.Ready ∧ s.rest ≠ [] ∧
      (mode = .body ∨ (mode.fault? = none ∧ s.offset = s.base)) ∧
      ['#', '!'].isPrefixOf s.rest = true ∧
      out = { s with lineContent := content, firstBodyLine := first }.shebang := by
  cases step with
  | endOfInput ready hrest hflag => exact .inl ⟨ready, hrest, hflag, rfl⟩
  | indent ready hmode hdeeper => exact .inr (.inl ⟨ready, hmode, hdeeper, rfl⟩)
  | furtherDedent => exact .inr (.inr (.inl rfl))
  | lastDedent => exact .inr (.inr (.inl rfl))
  | dedentTo => exact .inr (.inr (.inl rfl))
  | mismatch _ _ _ hfault => exact .inr (.inr (.inr (.inl ⟨_, hfault, rfl⟩)))
  | shebang content first ready hne hwhere hsigns =>
    exact .inr (.inr (.inr (.inr ⟨content, first, ready, hne, hwhere, hsigns, rfl⟩)))
  -- The others are characters that are read, and those have kinds of their own.
  | piece hqueued =>
    have hpiece := (ne_nil_of_queued wf hqueued).2.2
    cases (isLayoutKind_of_isPieceKind hpiece).symm.trans hkind
  | plain _ _ _ _ _ hadmits => cases (isLayoutKind_of_admits hadmits).symm.trans hkind
  | opens _ _ _ hopens => cases (isLayoutKind_of_opensLiteral hopens).symm.trans hkind
  | closes _ _ _ hcloses => cases mode <;> cases hcloses <;> cases hkind
  | unterminated _ hfault => cases mode <;> cases hfault <;> cases hkind
  | byteOrderMark => cases hkind

/-- The end of the input is given only where nothing is left, and changes nothing. Inside a
literal it is given only when the flag is set. -/
theorem Step.endOfInput_inv {s : Scanner} {mode : Mode} {out : Token × Scanner} (wf : s.WellFormed)
    (step : s.Step mode out) (hkind : out.1.kind = .endOfInput) :
    s.rest = [] ∧ out.2 = s ∧ (mode.fault?.isSome = true → s.literalClosed = true) := by
  rcases step.layout_cases wf (by rw [hkind]; rfl) with ⟨-, hrest, hflag, rfl⟩ | ⟨-, -, -, rfl⟩ |
    hdedent | ⟨fault, -, rfl⟩ | ⟨content, first, -, -, -, -, rfl⟩
  · exact ⟨hrest, rfl, hflag⟩
  · cases hkind
  · cases hdedent.symm.trans hkind
  · cases hkind
  · cases hkind

/-- Nothing is decided ahead where the end of the input is given. -/
theorem Step.ready_of_endOfInput {s : Scanner} {mode : Mode} {out : Token × Scanner}
    (wf : s.WellFormed) (step : s.Step mode out) (hkind : out.1.kind = .endOfInput) : s.Ready := by
  rcases step.layout_cases wf (by rw [hkind]; rfl) with ⟨ready, -⟩ | ⟨ready, -⟩ | hdedent |
    ⟨fault, -, rfl⟩ | ⟨content, first, ready, -⟩
  · exact ready
  · exact ready
  · cases hdedent.symm.trans hkind
  · cases hkind
  · exact ready

/-- Where nothing is left or decided, the input ends, a literal is reported, or a body is closed. -/
theorem Step.cases_of_rest_nil {s : Scanner} {mode : Mode} {out : Token × Scanner}
    (step : s.Step mode out) (ready : s.Ready) (hrest : s.rest = []) :
    out = (s.mark .endOfInput, s) ∨
    (∃ fault, mode.fault? = some fault ∧
      out = s.closeLiteral (.errorRecovery fault) s.rest.length) ∨
    (mode = .body ∧ ∃ width levels, s.levels = width :: levels ∧
      out = ({ s with levels := levels }.dedent, { s with levels := levels })) := by
  cases step with
  | endOfInput => exact .inl rfl
  | unterminated _ hfault => exact .inr (.inl ⟨_, hfault, rfl⟩)
  | lastDedent _ hmode _ hlevels => exact .inr (.inr ⟨hmode, _, _, hlevels, rfl⟩)
  | piece hqueued =>
    rw [ready.queued] at hqueued
    cases hqueued
  | byteOrderMark _ hbase => exact absurd hbase (Nat.not_lt.2 ready.base_le)
  | furtherDedent _ _ hcount =>
    rw [ready.pendingDedents] at hcount
    cases hcount
  | mismatch _ _ _ hfault =>
    rw [ready.pendingFault] at hfault
    cases hfault
  | plain _ _ _ hne => exact absurd hrest hne
  | shebang _ _ _ hne => exact absurd hrest hne
  | opens _ hne => exact absurd hrest hne
  | closes _ hne => exact absurd hrest hne
  | indent _ _ hdeeper =>
    rw [hrest] at hdeeper
    cases hdeeper
  | dedentTo _ _ _ hline =>
    rw [hrest] at hline
    cases hline

/-! ## Characters that are read -/

/-- Identifiers and line breaks come from what a mode reads, and from nothing else. -/
theorem Step.admits_inv {s : Scanner} {mode : Mode} {out : Token × Scanner} (wf : s.WellFormed)
    (step : s.Step mode out) (hkind : out.1.kind = .identifier ∨ out.1.kind = .newline) :
    s.Ready ∧ mode.admits out.1.kind = true := by
  cases step with
  | plain _ _ ready _ _ hadmits => exact ⟨ready, hadmits⟩
  | @piece kind _ _ hqueued =>
    have hpiece := (ne_nil_of_queued wf hqueued).2.2
    change kind = _ ∨ kind = _ at hkind
    rcases hkind with rfl | rfl <;> cases hpiece
  | @opens kind _ _ _ _ hopens =>
    change kind = _ ∨ kind = _ at hkind
    rcases hkind with rfl | rfl <;> cases hopens
  | @closes kind _ _ _ _ hcloses =>
    change kind = _ ∨ kind = _ at hkind
    rcases hkind with rfl | rfl <;> cases mode <;> cases hcloses
  | _ => rcases hkind with hkind | hkind <;> cases hkind

/-! ## Pieces that are queued -/

/-- What becomes of queued pieces: none are left, the first one is taken, or a shebang line
starts. -/
theorem Step.queued_cases {s : Scanner} {mode : Mode} {out : Token × Scanner}
    (step : s.Step mode out) :
    out.2.queued = [] ∨
    (∃ kind size queued, s.queued = (kind, size) :: queued ∧
      out = { s with queued := queued }.emit kind size) ∨
    ∃ content first, ['#', '!'].isPrefixOf s.rest = true ∧
      out = { s with lineContent := content, firstBodyLine := first }.shebang := by
  cases step with
  | piece hqueued => exact .inr (.inl ⟨_, _, _, hqueued, rfl⟩)
  | shebang content first _ _ _ hsigns => exact .inr (.inr ⟨content, first, hsigns, rfl⟩)
  | byteOrderMark hqueued => exact .inl hqueued
  | furtherDedent hqueued => exact .inl hqueued
  | mismatch hqueued => exact .inl hqueued
  | endOfInput ready => exact .inl ready.queued
  | plain _ _ ready => exact .inl ready.queued
  | opens ready => exact .inl ready.queued
  | closes ready => exact .inl ready.queued
  | unterminated ready => exact .inl ready.queued
  | indent ready => exact .inl ready.queued
  | lastDedent ready => exact .inl ready.queued
  | dedentTo ready => exact .inl ready.queued

/-! ## What a step uses up -/

/-- A step takes characters, unless it stands at the end of the input, reports a literal there, or
opens or closes a body. -/
theorem Step.taking_cases {s : Scanner} {mode : Mode} {out : Token × Scanner} (wf : s.WellFormed)
    (step : s.Step mode out) :
    (∃ (t : Scanner) (kind : Token.Kind) (size : Nat), t.rest = s.rest ∧ s.rest ≠ [] ∧
      t.levels = s.levels ∧ t.pendingDedents = s.pendingDedents ∧ 0 < size ∧
      out = t.emit kind size) ∨
    out = (s.mark .endOfInput, s) ∨
    (∃ fault, s.rest = [] ∧ s.literalClosed = false ∧
      out = s.closeLiteral (.errorRecovery fault) s.rest.length) ∨
    (s.Ready ∧ s.top < Measure.indentation s.rest ∧
      out = (s.mark .indent (some (Measure.indentation s.rest)),
        { s with levels := Measure.indentation s.rest :: s.levels, firstBodyLine := true })) ∨
    (∃ count, s.pendingDedents = count + 1 ∧ out = (s.dedent, { s with pendingDedents := count })) ∨
    (∃ width levels, s.rest = [] ∧ s.levels = width :: levels ∧
      out = ({ s with levels := levels }.dedent, { s with levels := levels })) ∨
    (Measure.indentation s.rest < s.top ∧ out = s.dedentTo (Measure.indentation s.rest)) := by
  cases step with
  | @piece kind size queued hqueued =>
    obtain ⟨hne, hpos, -⟩ := ne_nil_of_queued wf hqueued
    exact .inl ⟨{ s with queued := queued }, kind, size, rfl, hne, rfl, rfl, hpos, rfl⟩
  | byteOrderMark _ hbase =>
    obtain ⟨-, c, rest, hrest, -⟩ := wf.mark hbase
    exact .inl ⟨s, _, _, rfl, by simp [hrest], rfl, rfl, Nat.one_pos, rfl⟩
  | mismatch _ _ _ hfault =>
    -- A mismatch is only pending in front of a line with contents.
    have hline := (wf.fault _ hfault).2.2.1
    have hne : s.rest ≠ [] := by
      intro hnil
      rw [hnil] at hline
      cases hline
    exact .inl ⟨{ s with pendingFault := none }, _, _, rfl, hne, rfl, rfl, hline, rfl⟩
  | plain content first _ hne hpos =>
    exact .inl ⟨{ s with lineContent := content, firstBodyLine := first }, _, _, rfl, hne, rfl, rfl,
      hpos, rfl⟩
  | shebang content first _ hne =>
    exact .inl ⟨{ s with lineContent := content, firstBodyLine := first, queued := _ }, _, _, rfl,
      hne, rfl, rfl, Nat.two_pos, rfl⟩
  | opens _ hne hpos =>
    exact .inl ⟨{ s with literalClosed := false }, _, _, rfl, hne, rfl, rfl, hpos, rfl⟩
  | closes _ hne hpos =>
    exact .inl ⟨{ s with literalClosed := true }, _, _, rfl, hne, rfl, rfl, hpos, rfl⟩
  | unterminated _ _ hflag =>
    -- The rest of the input is taken, if there is any.
    by_cases hrest : s.rest = []
    · exact .inr (.inr (.inl ⟨_, hrest, hflag hrest, rfl⟩))
    · exact .inl ⟨{ s with literalClosed := true }, _, _, rfl, hrest, rfl, rfl,
        List.length_pos_iff.2 hrest, rfl⟩
  | endOfInput => exact .inr (.inl rfl)
  | indent ready _ hdeeper => exact .inr (.inr (.inr (.inl ⟨ready, hdeeper, rfl⟩)))
  | furtherDedent _ _ hcount => exact .inr (.inr (.inr (.inr (.inl ⟨_, hcount, rfl⟩))))
  | lastDedent _ _ hrest hlevels =>
    exact .inr (.inr (.inr (.inr (.inr (.inl ⟨_, _, hrest, hlevels, rfl⟩)))))
  | dedentTo _ _ hwidth => exact .inr (.inr (.inr (.inr (.inr (.inr ⟨hwidth, rfl⟩)))))

/-! ## Work -/

/-- What a deeper line in front of the scanner counts: it can open a body without a character. -/
def owedIndent (s : Scanner) : Nat :=
  if s.pendingFault = none ∧ s.top < Measure.indentation s.rest then 2 else 0

/-- What a literal that is neither closed nor reported counts. -/
def owedReport (s : Scanner) : Nat := if s.literalClosed then 0 else 1

/-- What is still to be done, as a bound on the number of tokens to come. -/
def work (s : Scanner) : Nat :=
  4 * s.rest.length + s.levels.length + s.pendingDedents + s.owedIndent + s.owedReport

theorem owedIndent_le (s : Scanner) : s.owedIndent ≤ 2 := by
  unfold owedIndent
  split <;> omega

theorem owedReport_le (s : Scanner) : s.owedReport ≤ 1 := by
  unfold owedReport
  split <;> omega

theorem work_ofText_le (source : Text) : (ofText source).work ≤ 4 * source.length + 3 := by
  have hindent := (ofText source).owedIndent_le
  have hreport := (ofText source).owedReport_le
  have hrest : (ofText source).rest = source := rfl
  have hlevels : (ofText source).levels = [] := rfl
  have hpending : (ofText source).pendingDedents = 0 := rfl
  unfold work
  rw [hrest, hlevels, hpending, List.length_nil]
  omega

/-- A character outweighs all that the scanner remembers apart from levels. -/
theorem work_emit_lt {s t : Scanner} {kind : Token.Kind} {size : Nat} (rest : t.rest = s.rest)
    (hne : s.rest ≠ []) (levels : t.levels = s.levels)
    (pending : t.pendingDedents = s.pendingDedents) (hpos : 0 < size) :
    (t.emit kind size).2.work < s.work := by
  have hlen : 0 < s.rest.length := List.length_pos_iff.2 hne
  have hdrop : (t.emit kind size).2.rest.length = s.rest.length - size := by
    simp [emit, rest]
  have hlevels : (t.emit kind size).2.levels = s.levels := levels
  have hpending : (t.emit kind size).2.pendingDedents = s.pendingDedents := pending
  have hindent := (t.emit kind size).2.owedIndent_le
  have hreport := (t.emit kind size).2.owedReport_le
  unfold work
  rw [hdrop, hlevels, hpending]
  omega

/-- An `indent` is paid for by the deeper line in front of which it stands. -/
theorem work_indent_lt {s : Scanner} (ready : s.Ready)
    (hdeeper : s.top < Measure.indentation s.rest) :
    work { s with levels := Measure.indentation s.rest :: s.levels, firstBodyLine := true } <
      s.work := by
  have hbefore : s.owedIndent = 2 := if_pos ⟨ready.pendingFault, hdeeper⟩
  have hafter : owedIndent { s with
      levels := Measure.indentation s.rest :: s.levels, firstBodyLine := true } = 0 :=
    if_neg fun h => Nat.lt_irrefl _ h.2
  unfold work
  rw [hbefore, hafter]
  simp only [owedReport, List.length_cons]
  omega

/-- A line that is less indented than its body closes at least that one. -/
theorem length_dropWhile_lt {s : Scanner} {width : Nat} (h : width < s.top) :
    (s.levels.dropWhile (width < ·)).length < s.levels.length := by
  cases hlevels : s.levels with
  | nil => simp [top, hlevels] at h
  | cons first more =>
    have hfirst : width < first := by simpa [top, hlevels] using h
    have hle := (List.dropWhile_sublist (width < ·) (l := more)).length_le
    simp only [List.dropWhile_cons, hfirst, decide_true, if_true, List.length_cons]
    omega

/-- Closing bodies is paid for by their levels: after it the line is either as wide as a level or
at fault, so that it opens no body. -/
theorem work_dedentTo_lt {s : Scanner} (hwidth : Measure.indentation s.rest < s.top) :
    (s.dedentTo (Measure.indentation s.rest)).2.work < s.work := by
  have hkept := length_dropWhile_lt hwidth
  have hafter : (s.dedentTo (Measure.indentation s.rest)).2.owedIndent = 0 := by
    refine if_neg ?_
    rintro ⟨hfault, htop⟩
    change (if _ = _ then s.pendingFault else some _) = none at hfault
    split at hfault
    · next heq => exact absurd htop (Nat.not_lt.2 (Nat.le_of_eq heq))
    · cases hfault
  have hpending : (s.dedentTo (Measure.indentation s.rest)).2.pendingDedents =
      s.levels.length - (s.levels.dropWhile (Measure.indentation s.rest < ·)).length - 1 := rfl
  have hlevels : (s.dedentTo (Measure.indentation s.rest)).2.levels =
      s.levels.dropWhile (Measure.indentation s.rest < ·) := rfl
  have hrest : (s.dedentTo (Measure.indentation s.rest)).2.rest = s.rest := rfl
  have hreport : (s.dedentTo (Measure.indentation s.rest)).2.owedReport = s.owedReport := rfl
  unfold work
  rw [hafter, hpending, hlevels, hrest, hreport]
  omega

/-- Every step but the one at the end of the input lowers the work. -/
theorem Step.work_lt {s : Scanner} {mode : Mode} {out : Token × Scanner} (wf : s.WellFormed)
    (step : s.Step mode out) (hkind : out.1.kind ≠ .endOfInput) : out.2.work < s.work := by
  rcases step.taking_cases wf with ⟨t, kind, size, hrest, hne, hlevels, hpending, hpos, rfl⟩ | rfl |
    ⟨fault, hrest, hopen, rfl⟩ | ⟨ready, hdeeper, rfl⟩ | ⟨count, hcount, rfl⟩ |
    ⟨width, levels, hrest, hlevels, rfl⟩ | ⟨hwidth, rfl⟩
  · exact work_emit_lt hrest hne hlevels hpending hpos
  · exact absurd rfl hkind
  · -- Nothing is taken; the flag pays.
    simp [work, owedIndent, owedReport, closeLiteral, emit, hrest, hopen, Measure.indentation]
  · exact work_indent_lt ready hdeeper
  · have hindent : owedIndent { s with pendingDedents := count } = s.owedIndent := rfl
    have hreport : owedReport { s with pendingDedents := count } = s.owedReport := rfl
    unfold work
    rw [hindent, hreport, hcount]
    exact Nat.add_lt_add_right (Nat.add_lt_add_right (Nat.add_lt_add_left (Nat.lt_succ_self _) _) _) _
  · simp [work, owedIndent, owedReport, hrest, hlevels, Measure.indentation]
  · exact work_dedentTo_lt hwidth

theorem work_next_lt {s : Scanner} (wf : s.WellFormed) {mode : Mode}
    (hkind : (s.next mode).1.kind ≠ .endOfInput) : (s.next mode).2.work < s.work :=
  (step_next s mode).work_lt wf hkind

theorem work_next_le {s : Scanner} (wf : s.WellFormed) (mode : Mode) :
    (s.next mode).2.work ≤ s.work := by
  by_cases hkind : (s.next mode).1.kind = .endOfInput
  · exact Nat.le_of_eq (congrArg work ((step_next s mode).endOfInput_inv wf hkind).2.1)
  · exact Nat.le_of_lt (work_next_lt wf hkind)

/-! ## Tokens with characters -/

/-- The kinds of tokens that can be without characters. -/
def canBeEmpty : Token.Kind → Bool
  | .indent | .dedent | .endOfInput | .errorRecovery _ => true
  | _ => false

theorem rest_emit_lt {s t : Scanner} {kind : Token.Kind} {size : Nat} (rest : t.rest = s.rest)
    (hne : s.rest ≠ []) (hpos : 0 < size) :
    (t.emit kind size).2.rest.length < s.rest.length := by
  have hlen : 0 < s.rest.length := List.length_pos_iff.2 hne
  simp only [emit, rest, List.length_drop]
  omega

/-- A token of any other kind takes a character. -/
theorem Step.rest_lt {s : Scanner} {mode : Mode} {out : Token × Scanner} (wf : s.WellFormed)
    (step : s.Step mode out) (hkind : canBeEmpty out.1.kind = false) :
    out.2.rest.length < s.rest.length := by
  rcases step.taking_cases wf with ⟨t, kind, size, hrest, hne, -, -, hpos, rfl⟩ | rfl |
    ⟨fault, -, -, rfl⟩ | ⟨-, -, rfl⟩ | ⟨count, -, rfl⟩ | ⟨width, levels, -, -, rfl⟩ | ⟨-, rfl⟩
  · exact rest_emit_lt hrest hne hpos
  all_goals cases hkind

theorem rest_next_le (s : Scanner) (mode : Mode) :
    (s.next mode).2.rest.length ≤ s.rest.length := by
  have htakes := congrArg List.length (takes_next s mode).text_append_rest
  rw [List.length_append] at htakes
  omega

/-! ## What a step leaves behind -/

theorem Step.base_eq {s : Scanner} {mode : Mode} {out : Token × Scanner} (step : s.Step mode out) :
    out.2.base = s.base := by
  cases step <;> rfl

/-- The character taken last is the last one of the token, if it has any. -/
theorem Step.previous_eq {s : Scanner} {mode : Mode} {out : Token × Scanner}
    (step : s.Step mode out) : out.2.previous = out.1.text.getLast?.or s.previous := by
  cases step <;> rfl

/-- Most tokens have characters. -/
theorem text_next_ne_nil {s : Scanner} {mode : Mode} (wf : s.WellFormed)
    (hkind : canBeEmpty (s.next mode).1.kind = false) : (s.next mode).1.text ≠ [] := by
  intro hnil
  have hlt := (step_next s mode).rest_lt wf hkind
  have hrest := (takes_next s mode).text_append_rest
  rw [hnil, List.nil_append] at hrest
  rw [hrest] at hlt
  exact Nat.lt_irrefl _ hlt

end Justfile.Scanner
