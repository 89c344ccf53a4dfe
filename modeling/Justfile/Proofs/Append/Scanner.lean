import Justfile.Proofs.Append.Measure
import Justfile.Proofs.Scanner.Level
import Justfile.Proofs.Scanner.Line

/-!
# Scanning joined texts

A scanner whose text ends with a line feed is compared with the same scanner on a text that goes on
behind it (`followed`). Both give the same token, and are again such a pair behind it. There are two
exceptions (`Extends`): in a body, text whose last line is continued runs into what follows; and a
literal that is not closed is at fault in the first text only.
-/

set_option autoImplicit false

namespace Justfile.Scanner

open Text (IsLines)
open Justfile.Measure

variable {s : Scanner} {more : Text}

/-- The scanner with more text behind what is left. -/
def followed (s : Scanner) (more : Text) : Scanner := { s with rest := s.rest ++ more }

/-- The token and the scanner after it, with more text behind what is left. -/
def follow (more : Text) (out : Token × Scanner) : Token × Scanner := (out.1, out.2.followed more)

/-! ## Single tokens -/

theorem emit_followed {size : Nat} (hle : size ≤ s.rest.length) (more : Text) (kind : Token.Kind) :
    (s.followed more).emit kind size = follow more (s.emit kind size) := by
  unfold emit follow followed
  simp only [List.take_append_of_le_length hle, List.drop_append_of_le_length hle]

theorem openLiteral_followed {size : Nat} (hle : size ≤ s.rest.length) (more : Text)
    (kind : Token.Kind) : (s.followed more).openLiteral kind size = follow more (s.openLiteral kind size) :=
  emit_followed (s := { s with literalClosed := false }) hle more kind

theorem closeLiteral_followed {size : Nat} (hle : size ≤ s.rest.length) (more : Text)
    (kind : Token.Kind) :
    (s.followed more).closeLiteral kind size = follow more (s.closeLiteral kind size) :=
  emit_followed (s := { s with literalClosed := true }) hle more kind

theorem dedentTo_followed (s : Scanner) (width : Nat) (more : Text) :
    (s.followed more).dedentTo width = follow more (s.dedentTo width) := rfl

section Lines

variable (hlines : IsLines s.rest)
include hlines

theorem one_le_of_isLines : 1 ≤ s.rest.length := List.length_pos_iff.2 hlines.ne_nil

theorem shebang_followed (hsigns : ['#', '!'].isPrefixOf s.rest = true) (more : Text) :
    (s.followed more).shebang = follow more s.shebang := by
  have htake : (s.rest ++ more).take (line s.rest) = s.rest.take (line s.rest) :=
    List.take_append_of_le_length (line_le s.rest)
  have hemit := emit_followed (s := { s with
    queued := Interpreter.pieces ((s.rest.take (line s.rest)).drop 2) })
    (length_le_of_isPrefixOf hsigns) more .shebangStart
  unfold shebang
  rw [show (s.followed more).rest = s.rest ++ more from rfl, line_sealed hlines, htake]
  exact hemit

theorem normalToken_followed (c : Char) (more : Text) :
    (s.followed more).normalToken c = follow more (s.normalToken c) := by
  have hone := one_le_of_isLines hlines
  have hrest : (s.followed more).rest = s.rest ++ more := rfl
  unfold normalToken unexpected
  rw [hrest, blanks_sealed hlines, line_sealed hlines, continuation?_sealed hlines,
    Dialect.detect?_stops.sealed hlines, isPrefixOf_sealed (any_commandDelimiter true) hlines,
    number_stops.sealed hlines, identifier_stops.sealed hlines, Mark.detect?_stops.sealed hlines]
  split
  · exact emit_followed (blanks_le _) more _
  · split
    · exact emit_followed (line_le _) more _
    · split
      · split
        · next hsize => exact emit_followed (continuation?_le hsize) more _
        · exact emit_followed hone more _
      · split
        · next hdialect => exact openLiteral_followed (Dialect.opening_length_le hdialect) more _
        · dsimp only
          split
          · refine openLiteral_followed ?_ more _
            cases hindented : (commandDelimiter true).isPrefixOf s.rest with
            | true => exact length_le_of_isPrefixOf hindented
            | false => exact hone
          · split
            · exact emit_followed (number_le _) more _
            · split
              · exact emit_followed (identifier_le _) more _
              · split
                · next hsign => exact emit_followed (Mark.length_le hsign) more _
                · exact emit_followed hone more _

theorem normal_followed (more : Text) : (s.followed more).normal = follow more s.normal := by
  obtain ⟨c, rest, hrest⟩ := List.exists_cons_of_ne_nil hlines.ne_nil
  have hsigns := signs_sealed hlines more
  have hline := newline?_sealed hlines more
  have hfollowed : (s.followed more).rest = c :: (rest ++ more) := by
    change s.rest ++ more = _
    rw [hrest, List.cons_append]
  rw [hrest, List.cons_append] at hsigns hline
  unfold normal
  rw [hfollowed, hrest]
  dsimp only
  rw [hsigns, hline]
  change (if (s.offset == s.base && _) then _ else _) = _
  split
  · next hshebang =>
    rw [← hrest] at hshebang
    exact shebang_followed hlines (Bool.and_eq_true_iff.1 hshebang).2 more
  · split
    · next hsize =>
      rw [← hrest] at hsize
      exact emit_followed (newline?_le hsize) more _
    · exact normalToken_followed hlines c more

theorem bodyStart_followed (hmore : StartsItem more) :
    (s.followed more).bodyStart = follow more s.bodyStart := by
  have hlt := indentation_lt hlines
  have hrest : (s.followed more).rest = s.rest ++ more := rfl
  unfold bodyStart
  rw [hrest, blankLines_append hmore hlines]
  split
  · next size hsize =>
    have hle := blankLines_le s.rest
    rw [hsize] at hle
    exact emit_followed hle more _
  · dsimp only
    rw [indentation_sealed hlines, List.drop_append_of_le_length (Nat.le_of_lt hlt),
      atLineEnd_append (hlines.drop hlt)]
    change (if decide (s.top < _) && _ then _ else _) = _
    split
    · rfl
    · exact normal_followed hlines more

end Lines

/-! ## Tokens that reach the end -/

/-- Whether tokens of the kind are stepped over somewhere. -/
def isSkipped : Token.Kind → Bool
  | .newline => true
  | kind => kind.isTrivia

/-- What the same step gives with more text behind what is left. -/
inductive Extends (mode : Mode) (more : Text) (out : Token × Scanner) : Token × Scanner → Prop
  | same : Extends mode more out (follow more out)
  /-- Text of a body whose last line is continued. -/
  | text {out' : Token × Scanner} : mode = .body → out.1.kind = .text → out.2.rest = [] →
      out'.1.kind = .text → Extends mode more out out'
  /-- Contents of a literal that is not closed. -/
  | fault {out' : Token × Scanner} : mode.fault?.isSome = true →
      out.1.kind.isErrorRecovery = true → isSkipped out'.1.kind = false → Extends mode more out out'

theorem Extends.of_eq {mode : Mode} {out out' : Token × Scanner} (h : out' = follow more out) :
    Extends mode more out out' :=
  h ▸ .same

theorem isSkipped_content {kind : Token.Kind} (hkind : isSkipped kind = false) (s : Scanner)
    (fault : Fault) (unit? : Text → Option Nat) :
    isSkipped (s.content kind fault unit?).1.kind = false := by
  unfold content unterminated
  dsimp only
  split
  · split <;> rfl
  · exact hkind

section Lines

variable (hlines : IsLines s.rest)
include hlines

theorem content_followed {mode : Mode} (hmode : mode.fault?.isSome = true) {unit? : Text → Option Nat}
    (hunit : Sealed unit?) {kind : Token.Kind} (hkind : isSkipped kind = false) (fault : Fault)
    (more : Text) :
    Extends mode more (s.content kind fault unit?) ((s.followed more).content kind fault unit?) := by
  by_cases hlt : run unit? s.rest < s.rest.length
  · have hsame := run_append_of_lt hunit hlines hlt more
    refine .of_eq ?_
    unfold content
    dsimp only
    rw [show (s.followed more).rest = s.rest ++ more from rfl, hsame,
      List.drop_append_of_le_length (Nat.le_of_lt hlt)]
    have hdrop := (hlines.drop hlt).ne_nil
    have hempty : (s.rest.drop (run unit? s.rest)).isEmpty = false := by simpa using hlt
    have hempty' : (s.rest.drop (run unit? s.rest) ++ more).isEmpty = false := by
      simp [hdrop]
    simp only [hempty, hempty', Bool.false_eq_true, if_false]
    exact emit_followed (Nat.le_of_lt hlt) more kind
  · have hend : (s.rest.drop (run unit? s.rest)).isEmpty = true := by simpa using hlt
    have hempty : s.rest.isEmpty = false := by simpa using hlines.ne_nil
    refine .fault hmode ?_ (isSkipped_content hkind _ fault unit?)
    unfold content unterminated
    simp [hend, hempty, closeLiteral, emit, Token.Kind.isErrorRecovery]

theorem stringContent_followed (d : Dialect) (more : Text) :
    Extends (.stringContent d) more (s.stringContent d) ((s.followed more).stringContent d) := by
  have hrest : (s.followed more).rest = s.rest ++ more := rfl
  have hempty : s.rest.isEmpty = false := by simpa using hlines.ne_nil
  have hempty' : (s.rest ++ more).isEmpty = false := by simp [hlines.ne_nil]
  unfold stringContent
  rw [hrest, isPrefixOf_sealed d.any_closing hlines, escape?_sealed hlines,
    opensInterpolation_stops.sealed hlines, hempty, hempty']
  split
  · next hclose => exact .of_eq (closeLiteral_followed (length_le_of_isPrefixOf hclose) more _)
  · simp only [Bool.false_eq_true, if_false]
    split
    · next size hescape =>
      refine .of_eq (emit_followed ?_ more _)
      split at hescape
      · exact escape?_le hescape
      · cases hescape
    · split
      · next hopen =>
        have hopen := (Bool.and_eq_true_iff.1 hopen).2
        exact .of_eq (emit_followed (length_of_opensInterpolation hopen) more _)
      · exact content_followed hlines rfl (stringUnit?_sealed d) rfl _ more

theorem commandContent_followed (indented : Bool) (more : Text) :
    Extends (.commandContent indented) more (s.commandContent indented)
      ((s.followed more).commandContent indented) := by
  have hrest : (s.followed more).rest = s.rest ++ more := rfl
  have hempty : s.rest.isEmpty = false := by simpa using hlines.ne_nil
  have hempty' : (s.rest ++ more).isEmpty = false := by simp [hlines.ne_nil]
  unfold commandContent
  dsimp only
  rw [hrest, isPrefixOf_sealed (any_commandDelimiter indented) hlines,
    opensInterpolation_stops.sealed hlines, hempty, hempty']
  split
  · next hclose => exact .of_eq (closeLiteral_followed (length_le_of_isPrefixOf hclose) more _)
  · simp only [Bool.false_eq_true, if_false]
    split
    · next hopen => exact .of_eq (emit_followed (length_of_opensInterpolation hopen) more _)
    · exact content_followed hlines rfl (commandUnit?_sealed indented) rfl _ more

theorem bodyContent_followed (more : Text) :
    Extends .body more s.bodyContent (s.followed more).bodyContent := by
  have hrest : (s.followed more).rest = s.rest ++ more := rfl
  unfold bodyContent
  rw [hrest, newline?_sealed hlines, opensInterpolation_stops.sealed hlines]
  split
  · next hsize => exact .of_eq (emit_followed (newline?_le hsize) more _)
  · split
    · next hopen => exact .of_eq (emit_followed (length_of_opensInterpolation hopen) more _)
    · by_cases hlt : run bodyUnit? s.rest < s.rest.length
      · rw [run_append_of_lt bodyUnit?_sealed hlines hlt]
        exact .of_eq (emit_followed (Nat.le_of_lt hlt) more _)
      · exact .text rfl rfl (List.drop_eq_nil_of_le (Nat.le_of_not_lt hlt)) rfl

theorem bodyLine_followed (more : Text) :
    Extends .body more s.bodyLine (s.followed more).bodyLine := by
  have hrest : (s.followed more).rest = s.rest ++ more := rfl
  unfold bodyLine
  dsimp only
  rw [hrest, signs_sealed hlines,
    linePrefix?_stops.sealed hlines]
  change Extends .body more _ (if s.lineContent == some s.offset then _ else _)
  split
  · change Extends .body more _ (if s.firstBodyLine && _ then _ else _)
    split
    · next hshebang =>
      exact .of_eq (shebang_followed (s := { s with lineContent := none, firstBodyLine := false })
        hlines (Bool.and_eq_true_iff.1 hshebang).2 more)
    · split
      · next hsize =>
        exact .of_eq (emit_followed (s := { s with lineContent := none, firstBodyLine := false })
          (linePrefix?_le hsize) more _)
      · exact bodyContent_followed (s := { s with lineContent := none, firstBodyLine := false })
          hlines more
  · exact bodyContent_followed hlines more

theorem body_followed (more : Text) : Extends .body more s.body (s.followed more).body := by
  have hlt := indentation_lt hlines
  have hrest : (s.followed more).rest = s.rest ++ more := rfl
  have hempty : s.rest.isEmpty = false := by simpa using hlines.ne_nil
  have hempty' : (s.rest ++ more).isEmpty = false := by simp [hlines.ne_nil]
  unfold body
  rw [hrest, hempty, hempty']
  dsimp only
  rw [indentation_sealed hlines, List.drop_append_of_le_length (Nat.le_of_lt hlt),
    atLineEnd_append (hlines.drop hlt)]
  simp only [Bool.false_eq_true, if_false]
  change Extends .body more _ (if s.atLineStart then _ else _)
  split
  · split
    · split
      · exact .of_eq (emit_followed (Nat.le_of_lt hlt) more _)
      · exact bodyLine_followed hlines more
    · change Extends .body more _ (if _ < s.top then _ else if 0 < s.top then _ else _)
      split
      · exact .of_eq (dedentTo_followed s _ more)
      · next hwide =>
        split
        · exact .of_eq (emit_followed (s := { s with lineContent := some (s.offset + s.top) })
            (Nat.le_trans (Nat.le_of_not_lt hwide) (Nat.le_of_lt hlt)) more _)
        · exact bodyLine_followed (s := { s with lineContent := some (s.offset + s.top) }) hlines more
  · exact bodyLine_followed hlines more

/-- The next token with more text behind what is left. -/
theorem next_followed (wf : s.WellFormed) (hmore : StartsItem more) (mode : Mode) :
    Extends mode more (s.next mode) ((s.followed more).next mode) := by
  rcases s.ahead_cases with ⟨kind, size, queued, hqueued⟩ | ⟨hqueued, hbase⟩ |
    ⟨hqueued, hbase, count, hpending⟩ | ⟨hqueued, hbase, hpending, fault, hfault⟩ | ready
  · have hfits := wf.fits
    rw [hqueued, Interpreter.total] at hfits
    rw [next_of_queued hqueued, next_of_queued (s := s.followed more) hqueued]
    exact .of_eq (emit_followed (s := { s with queued := queued })
      (Nat.le_trans (Nat.le_add_right _ _) hfits) more _)
  · rw [next_of_lt_base hqueued hbase, next_of_lt_base (s := s.followed more) hqueued hbase]
    exact .of_eq (emit_followed (one_le_of_isLines hlines) more _)
  · rw [next_of_pendingDedents hqueued hbase hpending,
      next_of_pendingDedents (s := s.followed more) hqueued hbase hpending]
    exact .same
  · rw [next_of_pendingFault hqueued hbase hpending hfault,
      next_of_pendingFault (s := s.followed more) hqueued hbase hpending hfault,
      show (s.followed more).rest = s.rest ++ more from rfl, line_sealed hlines]
    exact .of_eq (emit_followed (s := { s with pendingFault := none }) (line_le _) more _)
  · have ready' : (s.followed more).Ready :=
      ⟨ready.queued, ready.base_le, ready.pendingDedents, ready.pendingFault⟩
    rw [ready.next_eq, ready'.next_eq]
    cases mode with
    | normal => exact .of_eq (normal_followed hlines more)
    | bodyStart => exact .of_eq (bodyStart_followed hlines hmore)
    | body => exact body_followed hlines more
    | stringContent d => exact stringContent_followed hlines d more
    | commandContent indented => exact commandContent_followed hlines indented more

end Lines

/-! ## Where the first text ends -/

/-- The scanner reads a text that ends with a line feed: the character taken last, when nothing is left.
What is decided ahead does not reach beyond the line, nor does what is remembered of it. -/
structure Fed (s : Scanner) : Prop where
  wellFormed : s.WellFormed
  stacked : s.Stacked
  lines : s.rest.getLast?.or s.previous = some '\n'
  mark : s.offset < s.base → s.rest.head? = some byteOrderMark
  queued : s.queued ≠ [] → Interpreter.total s.queued = line s.rest
  lineContent : ∀ start ∈ s.lineContent, start < s.offset + Text.byteSize s.rest

section Fed

variable {mode : Mode}

theorem fed_ofText {source : Text} (h : IsLines source) : (ofText source).Fed where
  wellFormed := wellFormed_ofText source
  stacked := stacked_ofText source
  lines := by
    change source.getLast?.or none = _
    rw [Option.or_none]
    exact h
  mark := by
    unfold ofText
    dsimp only
    split
    · next hmark => exact fun _ => eq_of_beq hmark
    · exact fun hlt => absurd hlt (Nat.not_lt_zero 0)
  queued := fun hne => absurd rfl hne
  lineContent := nofun

theorem Fed.isLines (fed : s.Fed) (hne : s.rest ≠ []) : IsLines s.rest := by
  have hlines := fed.lines
  rw [List.getLast?_eq_some_getLast hne, Option.some_or] at hlines
  exact (List.getLast?_eq_some_getLast hne).trans hlines

theorem Fed.previous (fed : s.Fed) (hrest : s.rest = []) : s.previous = some '\n' := by
  have hlines := fed.lines
  rwa [hrest, List.getLast?_nil, Option.none_or] at hlines

/-- What is decided ahead is the rest of a line. -/
theorem Step.total_queued_eq {out : Token × Scanner} (step : s.Step mode out)
    (hqueued : s.queued ≠ [] → Interpreter.total s.queued = line s.rest) :
    out.2.queued ≠ [] → Interpreter.total out.2.queued = line out.2.rest := by
  rcases step.queued_cases with hnil | ⟨kind, size, queued, heq, rfl⟩ | ⟨content, first, hsigns, rfl⟩
  · exact fun hne => absurd hnil hne
  · intro _
    have htotal := hqueued (heq ▸ List.cons_ne_nil _ _)
    rw [heq, Interpreter.total] at htotal
    have hline := @line_drop s.rest size (by omega)
    change Interpreter.total queued = line (s.rest.drop size)
    omega
  · obtain ⟨rest, hrest⟩ := List.isPrefixOf_iff_prefix.1 hsigns
    have hline : line s.rest = line rest + 2 := by
      rw [← hrest]
      rfl
    have hcuts := (Interpreter.cuts_pieces ((s.rest.take (line s.rest)).drop 2)).total_add
    have hdrop := @line_drop s.rest 2 (by omega)
    have hle := line_le s.rest
    rw [List.length_nil, Nat.add_zero, List.length_drop, List.length_take] at hcuts
    intro _
    rw [shebang_queued, shebang_rest]
    dsimp only
    omega

/-- The byte order mark is taken first. -/
theorem Step.base_le {out : Token × Scanner} (wf : s.WellFormed) (step : s.Step mode out) :
    out.2.base ≤ out.2.offset := by
  cases step with
  | piece hqueued =>
    have hbase : s.base ≤ s.offset := by
      by_contra hlt
      rw [(wf.mark (Nat.lt_of_not_le hlt)).1] at hqueued
      cases hqueued
    exact Nat.le_trans hbase (Nat.le_add_right _ _)
  | byteOrderMark _ hbase =>
    obtain ⟨-, c, rest, hrest, hle⟩ := wf.mark hbase
    simpa [emit, hrest] using hle
  | furtherDedent _ hbase => exact hbase
  | mismatch _ hbase => exact Nat.le_trans hbase (Nat.le_add_right _ _)
  | endOfInput ready => exact ready.base_le
  | plain _ _ ready => exact Nat.le_trans ready.base_le (Nat.le_add_right _ _)
  | shebang _ _ ready => exact Nat.le_trans ready.base_le (Nat.le_add_right _ _)
  | opens ready => exact Nat.le_trans ready.base_le (Nat.le_add_right _ _)
  | closes ready => exact Nat.le_trans ready.base_le (Nat.le_add_right _ _)
  | unterminated ready => exact Nat.le_trans ready.base_le (Nat.le_add_right _ _)
  | indent ready => exact ready.base_le
  | lastDedent ready => exact ready.base_le
  | dedentTo ready => exact ready.base_le

theorem Fed.next (fed : s.Fed) (mode : Mode) : (s.next mode).2.Fed := by
  have step := step_next s mode
  obtain ⟨htext, -, hoffset⟩ := takes_next s mode
  have hbytes : s.offset + Text.byteSize s.rest =
      (s.next mode).2.offset + Text.byteSize (s.next mode).2.rest := by
    rw [← htext, Text.byteSize_append, hoffset]
    omega
  refine ⟨fed.wellFormed.next mode, fed.stacked.step fed.wellFormed step, ?_, ?_,
    step.total_queued_eq fed.queued, ?_⟩
  · rw [step.previous_eq, ← Option.or_assoc, ← List.getLast?_append, htext]
    exact fed.lines
  · exact fun hlt => absurd (step.base_le fed.wellFormed) (Nat.not_le.2 hlt)
  · rw [← hbytes]
    intro start hstart
    rcases recalls_next s mode start hstart with hbefore | ⟨rfl, htop, hend, -⟩
    · exact fed.lineContent start hbefore
    · -- Behind the indentation there are further characters.
      have hbehind : 0 < Text.byteSize (s.rest.drop (Measure.indentation s.rest)) := by
        cases hdrop : s.rest.drop (Measure.indentation s.rest) with
        | nil =>
          rw [hdrop] at hend
          cases hend
        | cons c rest =>
          rw [Text.byteSize_cons]
          exact Nat.add_pos_left c.utf8Size_pos _
      have hsplit := congrArg Text.byteSize (List.take_append_drop (Measure.indentation s.rest) s.rest)
      rw [Text.byteSize_append, byteSize_take_of_le_indentation (Nat.le_refl _)] at hsplit
      omega

/-- Where nothing is left, nothing is decided ahead but the ends of bodies. -/
theorem WellFormed.ready_of_nil (wf : s.WellFormed) (hrest : s.rest = [])
    (hpending : s.pendingDedents = 0) : s.Ready := by
  have hqueued : s.queued = [] := by
    cases hq : s.queued with
    | nil => rfl
    | cons piece queued => exact absurd hrest (ne_nil_of_queued wf hq).1
  have hbase : s.base ≤ s.offset := by
    by_contra hlt
    obtain ⟨-, c, rest, hcons, -⟩ := wf.mark (Nat.lt_of_not_le hlt)
    rw [hrest] at hcons
    cases hcons
  refine ⟨hqueued, hbase, hpending, ?_⟩
  cases hfault : s.pendingFault with
  | none => rfl
  | some fault =>
    have hline := (wf.fault fault hfault).2.2.1
    rw [hrest] at hline
    cases hline

end Fed

/-! ## Where the second text starts -/

/-- The kinds of the tokens that the second text can start with, outside of bodies and literals. -/
def isItemStart : Token.Kind → Bool
  | .identifier | .stringOpen _ | .mark .atSign | .mark .bracketL => true
  | _ => false

theorem kind_normalToken {c : Char} {rest : Text} (hrest : s.rest = c :: rest)
    (hc : startsItem c = true) : isItemStart (s.normalToken c).1.kind = true := by
  have hne : ∀ {d : Char}, startsItem d = false → (c == d) = false :=
    fun hd => beq_eq_false_iff_ne.2 (ne_of_startsItem hc hd)
  unfold normalToken
  rw [hne (by decide), hne (by decide), hne (by decide), hne (by decide), hne (by decide),
    hne (by decide)]
  simp only [Bool.or_self, Bool.false_eq_true, if_false]
  split
  · rfl
  · by_cases hstart : startsIdentifier c = true
    · rw [not_isDigit_of_startsIdentifier hstart, hstart]
      rfl
    · have hsign : c = '@' ∨ c = '[' := by
        simpa [startsItem, hstart] using hc
      rcases hsign with rfl | rfl
      · rw [hrest]
        rfl
      · rw [hrest]
        rfl

theorem kind_normal (h : StartsItem s.rest) : isItemStart s.normal.1.kind = true := by
  obtain ⟨c, rest, hrest, hc⟩ := h.exists_cons
  have hsign : c ≠ '#' := ne_of_startsItem hc (by decide)
  have hsigns : ['#', '!'].isPrefixOf (c :: rest) = false := by
    simp [List.isPrefixOf, Ne.symm hsign]
  have hline := newline?_of_startsItem h
  rw [hrest] at hline
  unfold normal
  rw [hrest]
  dsimp only
  rw [hsigns, hline, Bool.and_false]
  exact kind_normalToken hrest hc

theorem kind_bodyStart (h : StartsItem s.rest) : isItemStart s.bodyStart.1.kind = true := by
  unfold bodyStart
  rw [show blankLines s.rest = 0 from blankLinesFrom_of_startsItem h 0 0]
  dsimp only
  rw [indentation_of_startsItem h, show decide (s.top < 0) = false from rfl, Bool.false_and]
  exact kind_normal h

theorem isSkipped_of_isItemStart {kind : Token.Kind} (h : isItemStart kind = true) :
    isSkipped kind = false := by
  unfold isItemStart at h
  split at h <;> first | rfl | cases h

theorem isSkipped_bodyLine (h : newline? s.rest = none) : isSkipped s.bodyLine.1.kind = false := by
  have hcontent : ∀ t : Scanner, t.rest = s.rest → isSkipped t.bodyContent.1.kind = false := by
    intro t ht
    unfold bodyContent
    rw [ht, h]
    dsimp only
    split <;> rfl
  unfold bodyLine
  dsimp only
  split
  · split
    · rfl
    · split
      · rfl
      · exact hcontent _ rfl
  · exact hcontent s rfl

theorem atLineEnd_of_startsItem {text : Text} (h : StartsItem text) : atLineEnd text = false := by
  have hline := newline?_of_startsItem h
  obtain ⟨c, rest, rfl, -⟩ := h.exists_cons
  unfold atLineEnd
  rw [hline]
  rfl

theorem isEmpty_of_startsItem {text : Text} (h : StartsItem text) : text.isEmpty = false := by
  obtain ⟨c, rest, rfl, -⟩ := h.exists_cons
  rfl

/-- In a body, a line that is not indented closes what is open. -/
theorem body_of_startsItem (h : StartsItem s.rest) :
    s.body = if s.atLineStart then
      if 0 < s.top then s.dedentTo 0 else { s with lineContent := some (s.offset + s.top) }.bodyLine
      else s.bodyLine := by
  unfold body
  dsimp only
  rw [isEmpty_of_startsItem h, indentation_of_startsItem h, List.drop_zero,
    atLineEnd_of_startsItem h]
  simp only [Bool.false_eq_true, if_false]
  split
  · split
    · rfl
    · rfl
  · rfl

theorem isSkipped_body (h : StartsItem s.rest) : isSkipped s.body.1.kind = false := by
  have hline := newline?_of_startsItem h
  rw [body_of_startsItem h]
  split
  · split
    · rfl
    · exact isSkipped_bodyLine (s := { s with lineContent := _ }) hline
  · exact isSkipped_bodyLine hline

/-- No token of the contents of a literal is stepped over. -/
theorem Ready.isSkipped_content {mode : Mode} (ready : s.Ready) (hmode : mode.fault?.isSome = true) :
    isSkipped (s.next mode).1.kind = false := by
  have step := step_next s mode
  generalize s.next mode = out at step
  cases step with
  | endOfInput => rfl
  | plain _ _ _ _ _ hadmits =>
    cases mode with
    | stringContent d =>
      simp only [Mode.admits, Bool.or_eq_true, beq_iff_eq] at hadmits
      rcases hadmits with (rfl | rfl) | rfl <;> rfl
    | commandContent indented =>
      simp only [Mode.admits, Bool.or_eq_true, beq_iff_eq] at hadmits
      rcases hadmits with rfl | rfl <;> rfl
    | _ => cases hmode
  | closes _ _ _ hcloses => cases mode <;> cases hcloses <;> rfl
  | opens _ _ _ hopens => rcases ‹mode = .normal ∨ _› with rfl | rfl <;> cases hmode
  | piece hqueued =>
    rw [ready.queued] at hqueued
    cases hqueued
  | byteOrderMark _ hbase => exact absurd ready.base_le (Nat.not_le.2 hbase)
  | furtherDedent => rfl
  | mismatch => rfl
  | shebang => rfl
  | unterminated => rfl
  | indent => rfl
  | lastDedent => rfl
  | dedentTo => rfl

/-- Where the first text ends, nothing is decided, and the second text is what is ahead. -/
theorem Fed.followed_starts (fed : s.Fed) (hmore : StartsItem more) (hrest : s.rest = [])
    (hpending : s.pendingDedents = 0) :
    s.Ready ∧ (s.followed more).Ready ∧ StartsItem (s.followed more).rest := by
  have ready := fed.wellFormed.ready_of_nil hrest hpending
  refine ⟨ready, ⟨ready.queued, ready.base_le, ready.pendingDedents, ready.pendingFault⟩, ?_⟩
  change StartsItem (s.rest ++ more)
  rwa [hrest]

/-- Where the first text ends, the second one starts with a token that is stepped over nowhere. -/
theorem Fed.isSkipped_followed (fed : s.Fed) (hmore : StartsItem more) (hrest : s.rest = [])
    (hpending : s.pendingDedents = 0) (mode : Mode) :
    isSkipped ((s.followed more).next mode).1.kind = false := by
  obtain ⟨-, ready', hmore'⟩ := fed.followed_starts hmore hrest hpending
  cases mode with
  | normal =>
    rw [ready'.next_eq]
    exact isSkipped_of_isItemStart (kind_normal hmore')
  | bodyStart =>
    rw [ready'.next_eq]
    exact isSkipped_of_isItemStart (kind_bodyStart hmore')
  | body =>
    rw [ready'.next_eq]
    exact isSkipped_body hmore'
  | stringContent d => exact ready'.isSkipped_content rfl
  | commandContent indented => exact ready'.isSkipped_content rfl

/-- Outside of bodies and literals, it starts with a token that an item can start with. -/
theorem Fed.isItemStart_followed (fed : s.Fed) (hmore : StartsItem more) (hrest : s.rest = [])
    (hpending : s.pendingDedents = 0) {mode : Mode} (hmode : mode = .normal ∨ mode = .bodyStart) :
    isItemStart ((s.followed more).next mode).1.kind = true := by
  obtain ⟨-, ready', hmore'⟩ := fed.followed_starts hmore hrest hpending
  rw [ready'.next_eq]
  rcases hmode with rfl | rfl
  · exact kind_normal hmore'
  · exact kind_bodyStart hmore'

/-- Where the first text ends, the second one closes a body as the end of the input does. -/
theorem Fed.dedent_followed (fed : s.Fed) (hmore : StartsItem more) (hrest : s.rest = [])
    (hpending : s.pendingDedents = 0) {width : Nat} (hlevels : s.levels = [width])
    (hwidth : 0 < width) : (s.followed more).next .body = follow more (s.next .body) := by
  obtain ⟨ready, ready', hmore'⟩ := fed.followed_starts hmore hrest hpending
  have hstart : (s.followed more).atLineStart = true := by
    change (s.offset == s.base || s.previous == some '\n') = true
    rw [fed.previous hrest, beq_self_eq_true, Bool.or_true]
  have htop : (s.followed more).top = width := by
    change s.levels.headD 0 = width
    rw [hlevels]
    rfl
  have hbody : s.body = ({ s with levels := [] }.dedent, { s with levels := [] }) := by
    unfold body
    rw [hrest, hlevels]
    rfl
  rw [ready'.next_eq, ready.next_eq]
  dsimp only
  rw [body_of_startsItem hmore', if_pos hstart, htop, if_pos hwidth, dedentTo_followed, hbody]
  unfold dedentTo
  simp [hlevels, hwidth, hpending]

end Justfile.Scanner
