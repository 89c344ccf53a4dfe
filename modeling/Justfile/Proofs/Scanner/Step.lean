import Justfile.Proofs.Scanner.Extent
import Justfile.Token.Tiling

/-!
# Steps of the scanner

What one step of the scanner can do, said once (`Scanner.Step`, `step_next`): every later fact about
the scanner is a case analysis on `Step` and never opens the scanner again. What a scanner has
decided ahead of the characters is said apart (`ahead_cases`), in the order in which it is taken.

The steps are those of a well-formed scanner (`WellFormed`): the queued pieces of a shebang line
lie within what is left, the byte order mark is still there while it is to be taken, and a line
that fits no level has a character. A scanner at the start of a source is well-formed, and steps
keep it so (`WellFormed.next`).
-/

set_option autoImplicit false

namespace Justfile

/-! ## Kinds that a mode can give -/

namespace Token.Kind

/-- The kinds with characters that items and expressions are made of, literals apart. -/
def isItemLevel : Kind → Bool
  | whitespace | comment | lineContinuation | newline | number | identifier | mark _ => true
  | errorRecovery (.unexpectedCharacter _) => true
  | _ => false

/-- The kinds with characters that body lines are made of, shebang lines apart. -/
def isBodyLevel : Kind → Bool
  | whitespace | newline | linePrefix | text | interpolationOpen => true
  | _ => false

/-- Whether the token opens a literal. -/
def opensLiteral : Kind → Bool
  | stringOpen _ | commandOpen _ => true
  | _ => false

end Token.Kind

namespace Mode

/-- The kinds of the tokens that leave what the scanner remembers of literals and levels as it
is. -/
def admits : Mode → Token.Kind → Bool
  | normal | bodyStart => Token.Kind.isItemLevel
  | body => Token.Kind.isBodyLevel
  | stringContent _ => fun kind =>
    kind == .stringContent || kind == .escapeSequence || kind == .interpolationOpen
  | commandContent _ => fun kind => kind == .commandContent || kind == .interpolationOpen

/-- The token that closes the literal whose contents are read. -/
def closing? : Mode → Option Token.Kind
  | stringContent dialect => some (.stringClose dialect)
  | commandContent indented => some (.commandClose indented)
  | _ => none

/-- The fault of the literal whose contents are read, when it is not closed. -/
def fault? : Mode → Option Fault
  | stringContent _ => some .unterminatedString
  | commandContent _ => some .unterminatedCommand
  | _ => none

end Mode

namespace Scanner

/-- Nothing is decided ahead: the next token depends on the mode and the characters. -/
structure Ready (s : Scanner) : Prop where
  queued : s.queued = []
  base_le : s.base ≤ s.offset
  pendingDedents : s.pendingDedents = 0
  pendingFault : s.pendingFault = none

theorem Ready.next_eq {s : Scanner} (ready : s.Ready) (mode : Mode) :
    s.next mode = match mode with
      | .normal => s.normal
      | .bodyStart => s.bodyStart
      | .body => s.body
      | .stringContent dialect => s.stringContent dialect
      | .commandContent indented => s.commandContent indented := by
  have hbase : ¬s.offset < s.base := Nat.not_lt.2 ready.base_le
  cases mode <;>
    simp only [next, ready.queued, hbase, if_false, ready.pendingDedents, ready.pendingFault]

section Decided

variable {s : Scanner} {mode : Mode}

theorem next_of_queued {kind : Token.Kind} {size : Nat} {queued : List Interpreter.Piece}
    (hqueued : s.queued = (kind, size) :: queued) :
    s.next mode = { s with queued := queued }.emit kind size := by
  simp only [next, hqueued]

theorem next_of_lt_base (hqueued : s.queued = []) (hbase : s.offset < s.base) :
    s.next mode = s.emit .whitespace 1 := by
  simp only [next, hqueued, hbase, if_true]

theorem next_of_pendingDedents (hqueued : s.queued = []) (hbase : s.base ≤ s.offset) {count : Nat}
    (hpending : s.pendingDedents = count + 1) :
    s.next mode = (s.dedent, { s with pendingDedents := count }) := by
  simp only [next, hqueued, Nat.not_lt.2 hbase, if_false, hpending]

theorem next_of_pendingFault (hqueued : s.queued = []) (hbase : s.base ≤ s.offset)
    (hpending : s.pendingDedents = 0) {fault : Fault} (hfault : s.pendingFault = some fault) :
    s.next mode =
      { s with pendingFault := none }.emit (.errorRecovery fault) (Measure.line s.rest) := by
  simp only [next, hqueued, Nat.not_lt.2 hbase, if_false, hpending, hfault]

/-- What is decided ahead, in the order in which it is taken. -/
theorem ahead_cases (s : Scanner) :
    (∃ kind size queued, s.queued = (kind, size) :: queued) ∨
    (s.queued = [] ∧ s.offset < s.base) ∨
    (s.queued = [] ∧ s.base ≤ s.offset ∧ ∃ count, s.pendingDedents = count + 1) ∨
    (s.queued = [] ∧ s.base ≤ s.offset ∧ s.pendingDedents = 0 ∧
      ∃ fault, s.pendingFault = some fault) ∨
    s.Ready := by
  cases hqueued : s.queued with
  | cons piece queued => exact .inl ⟨piece.1, piece.2, queued, rfl⟩
  | nil =>
    by_cases hbase : s.offset < s.base
    · exact .inr (.inl ⟨rfl, hbase⟩)
    have hbase := Nat.le_of_not_lt hbase
    cases hpending : s.pendingDedents with
    | succ count => exact .inr (.inr (.inl ⟨rfl, hbase, count, rfl⟩))
    | zero =>
      cases hfault : s.pendingFault with
      | some fault => exact .inr (.inr (.inr (.inl ⟨rfl, hbase, rfl, fault, rfl⟩)))
      | none => exact .inr (.inr (.inr (.inr ⟨hqueued, hbase, hpending, hfault⟩)))

end Decided

/-- A scanner that can occur: what is decided ahead is there to be taken. -/
structure WellFormed (s : Scanner) : Prop where
  pieces : ∀ piece ∈ s.queued, 0 < piece.2 ∧ Interpreter.isPieceKind piece.1 = true
  fits : Interpreter.total s.queued ≤ s.rest.length
  mark : s.offset < s.base →
    s.queued = [] ∧ ∃ c rest, s.rest = c :: rest ∧ s.base ≤ s.offset + c.utf8Size
  fault : ∀ fault, s.pendingFault = some fault →
    s.queued = [] ∧ s.base ≤ s.offset ∧ 0 < Measure.line s.rest ∧
      ∃ body enclosing found, fault = .dedentMismatch body enclosing found

/-- What a step can do. The memory of a body line (`content`, `first`) may change with any token
of that line. -/
inductive Step (s : Scanner) (mode : Mode) : Token × Scanner → Prop
  /-- A piece of a shebang line that was decided before. -/
  | piece {kind : Token.Kind} {size : Nat} {queued : List Interpreter.Piece} :
      s.queued = (kind, size) :: queued → Step s mode ({ s with queued := queued }.emit kind size)
  | byteOrderMark : s.queued = [] → s.offset < s.base → Step s mode (s.emit .whitespace 1)
  /-- A body that was closed together with a deeper one. -/
  | furtherDedent {count : Nat} :
      s.queued = [] → s.base ≤ s.offset → s.pendingDedents = count + 1 →
      Step s mode (s.dedent, { s with pendingDedents := count })
  /-- The line that fits no level. -/
  | mismatch {fault : Fault} :
      s.queued = [] → s.base ≤ s.offset → s.pendingDedents = 0 → s.pendingFault = some fault →
      Step s mode
        ({ s with pendingFault := none }.emit (.errorRecovery fault) (Measure.line s.rest))
  /-- The end of the input. Contents of a literal end there only when the flag is set. -/
  | endOfInput :
      s.Ready → s.rest = [] → (mode.fault?.isSome = true → s.literalClosed = true) →
      Step s mode (s.mark .endOfInput, s)
  | plain {kind : Token.Kind} {size : Nat} (content : Option Nat) (first : Bool) :
      s.Ready → s.rest ≠ [] → 0 < size → mode.admits kind = true →
      Step s mode ({ s with lineContent := content, firstBodyLine := first }.emit kind size)
  | shebang (content : Option Nat) (first : Bool) :
      s.Ready → s.rest ≠ [] → mode = .body ∨ (mode.fault? = none ∧ s.offset = s.base) →
      ['#', '!'].isPrefixOf s.rest = true →
      Step s mode { s with lineContent := content, firstBodyLine := first }.shebang
  | opens {kind : Token.Kind} {size : Nat} :
      s.Ready → s.rest ≠ [] → 0 < size → kind.opensLiteral = true →
      mode = .normal ∨ mode = .bodyStart → Step s mode (s.openLiteral kind size)
  | closes {kind : Token.Kind} {size : Nat} :
      s.Ready → s.rest ≠ [] → 0 < size → mode.closing? = some kind →
      Step s mode (s.closeLiteral kind size)
  | unterminated {fault : Fault} :
      s.Ready → mode.fault? = some fault → (s.rest = [] → s.literalClosed = false) →
      Step s mode (s.closeLiteral (.errorRecovery fault) s.rest.length)
  | indent :
      s.Ready → mode = .bodyStart → s.top < Measure.indentation s.rest →
      Step s mode (s.mark .indent (some (Measure.indentation s.rest)),
        { s with levels := Measure.indentation s.rest :: s.levels, firstBodyLine := true })
  /-- The end of the input closes a body. -/
  | lastDedent {width : Nat} {levels : List Nat} :
      s.Ready → mode = .body → s.rest = [] → s.levels = width :: levels →
      Step s mode ({ s with levels := levels }.dedent, { s with levels := levels })
  | dedentTo :
      s.Ready → mode = .body → Measure.indentation s.rest < s.top → 0 < Measure.line s.rest →
      Step s mode (s.dedentTo (Measure.indentation s.rest))

/-! ## Every step is one of these -/

section Modes

variable {s : Scanner}

/-- Item-level tokens, in the two modes that read them. -/
theorem step_normalToken {c : Char} {rest : Text} {mode : Mode} (ready : s.Ready)
    (hrest : s.rest = c :: rest) (hmode : mode = .normal ∨ mode = .bodyStart)
    (hline : Measure.newline? (c :: rest) = none) : s.Step mode (s.normalToken c) := by
  have hne : s.rest ≠ [] := by simp [hrest]
  have hplain : ∀ {kind : Token.Kind} {size : Nat}, 0 < size → kind.isItemLevel = true →
      s.Step mode (s.emit kind size) := by
    intro kind size hpos hkind
    refine .plain s.lineContent s.firstBodyLine ready hne hpos ?_
    rcases hmode with rfl | rfl <;> exact hkind
  unfold normalToken
  split
  · next hblank =>
    rw [hrest]
    exact hplain (Measure.blanks_pos hblank hline) rfl
  · split
    · rw [hrest]
      exact hplain (Measure.line_pos hline) rfl
    · split
      · split
        · next hcont => exact hplain (Measure.continuation?_pos hcont) rfl
        · exact hplain Nat.one_pos rfl
      · split
        · next dialect _ => exact .opens ready hne dialect.opening_length_pos rfl hmode
        · dsimp only
          split
          · exact .opens ready hne (Measure.commandDelimiter_length_pos _) rfl hmode
          · split
            · next hdigit =>
              rw [hrest]
              exact hplain (Measure.number_pos hdigit) rfl
            · split
              · next hstart =>
                rw [hrest]
                exact hplain (Measure.identifier_pos hstart) rfl
              · split
                · next sign _ => exact hplain sign.length_pos rfl
                · exact hplain Nat.one_pos rfl

theorem step_normal {mode : Mode} (ready : s.Ready)
    (hmode : mode = .normal ∨ mode = .bodyStart) : s.Step mode s.normal := by
  have hfault : mode.fault? = none := by rcases hmode with rfl | rfl <;> rfl
  unfold normal
  split
  · next hrest =>
    refine .endOfInput ready hrest fun h => ?_
    rw [hfault] at h
    cases h
  · next c rest hrest =>
    have hne : s.rest ≠ [] := by simp [hrest]
    split
    · next hshebang =>
      simp only [Bool.and_eq_true, beq_iff_eq] at hshebang
      exact .shebang s.lineContent s.firstBodyLine ready hne (.inr ⟨hfault, hshebang.1⟩)
        (hrest ▸ hshebang.2)
    · split
      · next hnew =>
        refine .plain s.lineContent s.firstBodyLine ready hne (Measure.newline?_pos hnew) ?_
        rcases hmode with rfl | rfl <;> rfl
      · next hnew => exact step_normalToken ready hrest hmode hnew

theorem step_unterminated {mode : Mode} {fault : Fault} (ready : s.Ready)
    (hfault : mode.fault? = some fault) : s.Step mode (s.unterminated fault) := by
  unfold Scanner.unterminated
  split
  · next h =>
    simp only [Bool.and_eq_true, List.isEmpty_iff] at h
    exact .endOfInput ready h.2 fun _ => h.1
  · next h =>
    refine .unterminated ready hfault fun hrest => ?_
    simpa [hrest] using h

/-- Contents of a literal: at least one unit, or everything that is left. -/
theorem step_content {mode : Mode} {kind : Token.Kind} {fault : Fault}
    {unit? : Text → Option Nat} (ready : s.Ready) (hrest : s.rest ≠ [])
    (hfault : mode.fault? = some fault) (hkind : mode.admits kind = true)
    (hunit : (unit? s.rest).isSome = true) : s.Step mode (s.content kind fault unit?) := by
  unfold content
  dsimp only
  split
  · exact step_unterminated ready hfault
  · obtain ⟨c, rest, hcons⟩ := List.exists_cons_of_ne_nil hrest
    rw [hcons] at hunit
    have hpos := Measure.run_pos hunit
    rw [← hcons] at hpos
    exact .plain s.lineContent s.firstBodyLine ready hrest hpos hkind

theorem step_stringContent (ready : s.Ready) (d : Dialect) :
    s.Step (.stringContent d) (s.stringContent d) := by
  unfold stringContent
  split
  · next hclose =>
    exact .closes ready (ne_nil_of_isPrefixOf d.closing_length_pos hclose) d.closing_length_pos rfl
  · next hclose =>
    split
    · exact step_unterminated ready rfl
    · next hempty =>
      have hne : s.rest ≠ [] := fun h => hempty (by rw [h]; rfl)
      split
      · next size hescape =>
        refine .plain s.lineContent s.firstBodyLine ready hne ?_ rfl
        split at hescape
        · exact Measure.escape?_pos hescape
        · cases hescape
      · next hescape =>
        split
        · exact .plain s.lineContent s.firstBodyLine ready hne (by decide) rfl
        · next hopen =>
          refine step_content ready hne rfl rfl ?_
          exact Measure.stringUnit?_isSome (Bool.eq_false_iff.2 hclose) hescape
            (Bool.eq_false_iff.2 hopen)

theorem step_commandContent (ready : s.Ready) (indented : Bool) :
    s.Step (.commandContent indented) (s.commandContent indented) := by
  have hpos := Measure.commandDelimiter_length_pos indented
  unfold commandContent
  dsimp only
  split
  · next hclose => exact .closes ready (ne_nil_of_isPrefixOf hpos hclose) hpos rfl
  · next hclose =>
    split
    · exact step_unterminated ready rfl
    · next hempty =>
      have hne : s.rest ≠ [] := fun h => hempty (by rw [h]; rfl)
      split
      · exact .plain s.lineContent s.firstBodyLine ready hne (by decide) rfl
      · next hopen =>
        refine step_content ready hne rfl rfl ?_
        exact Measure.commandUnit?_isSome (Bool.eq_false_iff.2 hclose) (Bool.eq_false_iff.2 hopen)

theorem step_bodyStart (ready : s.Ready) : s.Step .bodyStart s.bodyStart := by
  unfold bodyStart
  split
  · next size hsize =>
    refine .plain s.lineContent s.firstBodyLine ready ?_ (Nat.succ_pos size) rfl
    intro hrest
    simp [hrest, Measure.blankLines, Measure.blankLinesFrom] at hsize
  · dsimp only
    split
    · next h =>
      simp only [Bool.and_eq_true, decide_eq_true_eq] at h
      exact .indent ready rfl h.1
    · exact step_normal ready (.inr rfl)

/-- The contents of a body line, whatever is remembered of the line. -/
theorem step_bodyContent (content : Option Nat) (first : Bool) (ready : s.Ready)
    (hne : s.rest ≠ []) :
    s.Step .body { s with lineContent := content, firstBodyLine := first }.bodyContent := by
  unfold bodyContent
  dsimp only
  split
  · next hnew => exact .plain content first ready hne (Measure.newline?_pos hnew) rfl
  · next hnew =>
    split
    · exact .plain content first ready hne (by decide) rfl
    · next hopen =>
      refine .plain content first ready hne ?_ rfl
      obtain ⟨c, rest, hcons⟩ := List.exists_cons_of_ne_nil hne
      have hunit := Measure.bodyUnit?_isSome hnew (Bool.eq_false_iff.2 hopen)
      rw [hcons] at hunit ⊢
      exact Measure.run_pos hunit

theorem step_bodyLine (content : Option Nat) (ready : s.Ready) (hne : s.rest ≠ []) :
    s.Step .body { s with lineContent := content }.bodyLine := by
  unfold bodyLine
  dsimp only
  split
  · split
    · next hopens =>
      exact .shebang none false ready hne (.inl rfl) (Bool.and_eq_true_iff.1 hopens).2
    · split
      · next hprefix => exact .plain none false ready hne (Measure.linePrefix?_pos hprefix) rfl
      · exact step_bodyContent none false ready hne
  · exact step_bodyContent content s.firstBodyLine ready hne

theorem step_body (ready : s.Ready) : s.Step .body s.body := by
  unfold body
  split
  · next hempty =>
    have hrest := List.isEmpty_iff.1 hempty
    split
    · exact .endOfInput ready hrest nofun
    · next hlevels => exact .lastDedent ready rfl hrest hlevels
  · next hempty =>
    have hne : s.rest ≠ [] := fun h => hempty (by rw [h]; rfl)
    split
    · dsimp only
      split
      · split
        · next hwidth => exact .plain s.lineContent s.firstBodyLine ready hne hwidth rfl
        · exact step_bodyLine s.lineContent ready hne
      · next hend =>
        split
        · next hwidth =>
          exact .dedentTo ready rfl hwidth
            (Measure.line_pos_of_indentation (Bool.eq_false_iff.2 hend))
        · split
          · next htop => exact .plain _ s.firstBodyLine ready hne htop rfl
          · exact step_bodyLine _ ready hne
    · exact step_bodyLine s.lineContent ready hne

end Modes

/-- Every step is one of those that `Step` lists. -/
theorem step_next (s : Scanner) (mode : Mode) : s.Step mode (s.next mode) := by
  rcases s.ahead_cases with ⟨kind, size, queued, hqueued⟩ | ⟨hqueued, hbase⟩ |
    ⟨hqueued, hbase, count, hcount⟩ | ⟨hqueued, hbase, hcount, fault, hfault⟩ | ready
  · rw [next_of_queued hqueued]
    exact .piece hqueued
  · rw [next_of_lt_base hqueued hbase]
    exact .byteOrderMark hqueued hbase
  · rw [next_of_pendingDedents hqueued hbase hcount]
    exact .furtherDedent hqueued hbase hcount
  · rw [next_of_pendingFault hqueued hbase hcount hfault]
    exact .mismatch hqueued hbase hcount hfault
  · rw [ready.next_eq]
    cases mode with
    | normal => exact step_normal ready (.inl rfl)
    | bodyStart => exact step_bodyStart ready
    | body => exact step_body ready
    | stringContent d => exact step_stringContent ready d
    | commandContent indented => exact step_commandContent ready indented

end Scanner

end Justfile
