import Justfile.Proofs.Scanner.Flag
import Justfile.Proofs.Text
import Mathlib.Data.List.Chain
import Mathlib.Data.List.Induction

/-!
# Runs of the scanner

A run asks the scanner for one token after another, each in a mode of the caller's choice
(`Scanner.scan`). What holds at the start and is kept by one step holds after every run
(`scan_induction`).

From it come the tiling of the source by the tokens of a run (`covers_scan`), the end of the input
as a state that no later step leaves (`AtEnd.scan`), and a bound on the number of tokens
(`countTokens_scan_add_le`). The bound counts three for each character: the character, an `indent` in
front of it and the `dedent` that pays the `indent` back. It is sharper than `work`, since a line that
has given its `indent` has spent what a later `indent` would cost.
-/

set_option autoImplicit false

namespace Justfile

open Text (IsBoundary)

namespace Text

theorem length_le_byteSize (text : Text) : text.length ≤ byteSize text := by
  induction text with
  | nil => exact Nat.le_refl _
  | cons c rest ih =>
    have hpos := c.utf8Size_pos
    rw [List.length_cons, byteSize_cons]
    omega

theorem IsBoundary.le {source : Text} {offset : Nat} (h : IsBoundary source offset) :
    offset ≤ byteSize source := by
  obtain ⟨front, back, rfl, rfl⟩ := h
  rw [byteSize_append]
  exact Nat.le_add_right _ _

end Text

namespace Scanner

variable {s : Scanner} {mode : Mode} {out : Token × Scanner}

/-! ## Runs -/

/-- The tokens for a list of modes, one token for each, and the scanner after them. -/
def scan (s : Scanner) : List Mode → List Token × Scanner
  | [] => ([], s)
  | mode :: modes =>
    let after := (s.next mode).2.scan modes
    ((s.next mode).1 :: after.1, after.2)

/-- A run in two parts. -/
theorem scan_append (s : Scanner) (front back : List Mode) :
    s.scan (front ++ back) =
      ((s.scan front).1 ++ ((s.scan front).2.scan back).1, ((s.scan front).2.scan back).2) := by
  induction front generalizing s with
  | nil => rfl
  | cons mode front ih => simp only [List.cons_append, scan, ih]

/-- What holds at the start and is kept by every step holds after every run. -/
theorem scan_induction {motive : List Token → Scanner → Prop} (wf : s.WellFormed)
    (start : motive [] s)
    (step : ∀ (tokens : List Token) (t : Scanner) (mode : Mode), t.WellFormed → motive tokens t →
      motive (tokens ++ [(t.next mode).1]) (t.next mode).2)
    (modes : List Mode) :
    (s.scan modes).2.WellFormed ∧ motive (s.scan modes).1 (s.scan modes).2 := by
  induction modes using List.reverseRecOn with
  | nil => exact ⟨wf, start⟩
  | append_singleton modes mode ih =>
    obtain ⟨hwf, hmotive⟩ := ih
    rw [scan_append]
    exact ⟨hwf.next mode, step _ _ mode hwf hmotive⟩

theorem WellFormed.scan (wf : s.WellFormed) (modes : List Mode) : (s.scan modes).2.WellFormed :=
  (scan_induction (motive := fun _ _ => True) wf trivial (fun _ _ _ _ _ => trivial) modes).1

/-! ## Tiles -/

/-- The tokens lie one after the other from the start of the source, between its characters. -/
structure Tiling (source : Text) (tokens : List Token) : Prop where
  start : ∀ first, tokens.head? = some first → first.span.start = 0
  adjacent : tokens.IsChain (fun before after => before.span.stop = after.span.start)
  boundary : ∀ token ∈ tokens, IsBoundary source token.span.start ∧
    IsBoundary source token.span.stop ∧ token.span.stop ≤ Text.byteSize source

/-- The tokens so far are the front of the source, and the scanner stands behind them. -/
structure Covers (source : Text) (tokens : List Token) (s : Scanner) : Prop where
  source_eq : tokens.flatMap Token.text ++ s.rest = source
  offset_eq : s.offset = Text.byteSize (tokens.flatMap Token.text)
  stop : ∀ last, tokens.getLast? = some last → last.span.stop = s.offset
  tiling : Tiling source tokens

theorem covers_ofText (source : Text) : Covers source [] (ofText source) := by
  refine ⟨rfl, rfl, ?_, ?_, .nil, ?_⟩
  · intro last hlast
    cases hlast
  · intro first hfirst
    cases hfirst
  · intro token htoken
    cases htoken

/-- The scanner stands between two characters of the source. -/
theorem Covers.isBoundary {source : Text} {tokens : List Token} (covers : Covers source tokens s) :
    IsBoundary source s.offset :=
  ⟨_, _, covers.source_eq.symm, covers.offset_eq⟩

/-- One more token is taken off the front of what is left, so it stands behind the others. -/
theorem Covers.take {source : Text} {tokens : List Token} (covers : Covers source tokens s)
    {step : Token × Scanner} (htakes : s.Takes step) :
    Covers source (tokens ++ [step.1]) step.2 := by
  have htext : (tokens ++ [step.1]).flatMap Token.text =
      tokens.flatMap Token.text ++ step.1.text := by
    simp
  have hsource : (tokens ++ [step.1]).flatMap Token.text ++ step.2.rest =
      source := by
    rw [htext, List.append_assoc, htakes.text_append_rest]
    exact covers.source_eq
  have hoffset : step.2.offset =
      Text.byteSize ((tokens ++ [step.1]).flatMap Token.text) := by
    rw [htext, Text.byteSize_append, ← covers.offset_eq]
    exact htakes.offset_eq
  have hboundary : IsBoundary source step.2.offset := ⟨_, _, hsource.symm, hoffset⟩
  refine ⟨hsource, hoffset, ?_, ?_, ?_, ?_⟩
  · intro last hlast
    rw [List.getLast?_concat] at hlast
    cases hlast
    rw [htakes.span_eq]
  · intro first hfirst
    cases tokens with
    | nil =>
      cases hfirst
      rw [htakes.span_eq]
      exact covers.offset_eq
    | cons token tokens =>
      exact covers.tiling.start first hfirst
  · apply List.isChain_append.2
    refine ⟨covers.tiling.adjacent, .singleton _, ?_⟩
    intro before hbefore after hafter
    rw [List.head?_cons, Option.mem_some_iff] at hafter
    subst hafter
    rw [htakes.span_eq]
    exact covers.stop before hbefore
  · intro token htoken
    rcases List.mem_append.1 htoken with htoken | htoken
    · exact covers.tiling.boundary token htoken
    · rw [List.mem_singleton] at htoken
      subst htoken
      rw [htakes.span_eq]
      exact ⟨covers.isBoundary, hboundary, hboundary.le⟩

theorem Covers.step {source : Text} {tokens : List Token} (covers : Covers source tokens s)
    (mode : Mode) : Covers source (tokens ++ [(s.next mode).1]) (s.next mode).2 :=
  covers.take (takes_next s mode)

/-- The tokens of a run tile the source. -/
theorem covers_scan (source : Text) (modes : List Mode) :
    Covers source ((ofText source).scan modes).1 ((ofText source).scan modes).2 :=
  (scan_induction (wellFormed_ofText source) (covers_ofText source)
    (fun _ _ mode _ covers => covers.step mode) modes).2

/-! ## The end of the input -/

/-- Nothing is left that the mode could give a token for. -/
structure AtEnd (s : Scanner) (mode : Mode) : Prop where
  ready : s.Ready
  rest : s.rest = []
  literal : mode.fault?.isSome = true → s.literalClosed = true
  levels : mode = .body → s.levels = []

theorem AtEnd.kind_next (atEnd : s.AtEnd mode) : (s.next mode).1.kind = .endOfInput := by
  obtain ⟨ready, hrest, hliteral, hlevels⟩ := atEnd
  rw [ready.next_eq]
  cases mode with
  | normal => simp [normal, hrest, mark]
  | bodyStart =>
    simp [bodyStart, hrest, Measure.blankLines, Measure.blankLinesFrom, Measure.indentation, normal,
      mark]
  | body => simp [body, hrest, hlevels rfl, mark]
  | stringContent dialect =>
    have hclosing : dialect.closing.isPrefixOf [] = false :=
      Bool.eq_false_iff.2 fun h => ne_nil_of_isPrefixOf dialect.closing_length_pos h rfl
    simp [stringContent, hrest, hclosing, Scanner.unterminated, hliteral rfl, mark]
  | commandContent indented =>
    have hclosing : (Measure.commandDelimiter indented).isPrefixOf [] = false :=
      Bool.eq_false_iff.2 fun h =>
        ne_nil_of_isPrefixOf (Measure.commandDelimiter_length_pos indented) h rfl
    simp [commandContent, hrest, hclosing, Scanner.unterminated, hliteral rfl, mark]

/-- Where a mode gives the end of the input, nothing is left for it. -/
theorem atEnd_of_endOfInput (wf : s.WellFormed) (hkind : (s.next mode).1.kind = .endOfInput) :
    s.AtEnd mode := by
  obtain ⟨hrest, -, hliteral⟩ := (step_next s mode).endOfInput_inv wf hkind
  have hready := (step_next s mode).ready_of_endOfInput wf hkind
  refine ⟨hready, hrest, hliteral, ?_⟩
  rintro rfl
  cases hlevels : s.levels with
  | nil => rfl
  | cons width levels =>
    -- An open body would be closed first.
    rw [hready.next_eq] at hkind
    simp [body, hrest, hlevels, Scanner.dedent, mark] at hkind

/-- No step leaves the end of the input, whatever its mode. -/
theorem AtEnd.step {other : Mode} (atEnd : s.AtEnd mode) (step : s.Step other out) :
    out.2.AtEnd mode := by
  obtain ⟨ready, hrest, hliteral, hlevels⟩ := atEnd
  rcases step.cases_of_rest_nil ready hrest with rfl | ⟨fault, -, rfl⟩ |
    ⟨-, width, levels, hcons, rfl⟩
  · exact ⟨ready, hrest, hliteral, hlevels⟩
  · refine ⟨⟨ready.queued, Nat.le_trans ready.base_le (Nat.le_add_right _ _), ready.pendingDedents,
      ready.pendingFault⟩, ?_, fun _ => rfl, hlevels⟩
    simp [closeLiteral, emit, hrest]
  · refine ⟨⟨ready.queued, ready.base_le, ready.pendingDedents, ready.pendingFault⟩, hrest,
      hliteral, ?_⟩
    intro hmode
    rw [hlevels hmode] at hcons
    cases hcons

theorem AtEnd.scan (atEnd : s.AtEnd mode) (later : List Mode) :
    (s.scan later).2.AtEnd mode :=
  (scan_induction (motive := fun _ t => t.AtEnd mode) atEnd.ready.wellFormed atEnd
    (fun _ t other _ h => h.step (step_next t other)) later).2

/-! ## The number of tokens -/

/-- What the blanks in front of the scanner still count. A line that can open no body any more, as
it has opened one or fits no level, counts nothing. -/
def saved (s : Scanner) : Nat :=
  if Measure.indentation s.rest = 0 ∨ (s.pendingFault = none ∧ s.top < Measure.indentation s.rest)
  then 2 else 0

/-- What the report of a last literal still counts. -/
def owedLast (s : Scanner) : Nat := if s.rest = [] ∧ s.literalClosed = true then 0 else 1

/-- A bound on the number of tokens to come, with two to spare. -/
def credit (s : Scanner) : Nat :=
  3 * s.rest.length + s.levels.length + s.pendingDedents + s.saved + s.owedLast

theorem saved_le (s : Scanner) : s.saved ≤ 2 := by
  unfold saved
  split <;> omega

theorem owedLast_le (s : Scanner) : s.owedLast ≤ 1 := by
  unfold owedLast
  split <;> omega

theorem owedLast_of_rest (h : s.rest ≠ []) : s.owedLast = 1 := if_neg fun hnil => h hnil.1

theorem two_le_credit (s : Scanner) : 2 ≤ s.credit := by
  unfold credit
  cases hrest : s.rest with
  | nil =>
    have hsaved : s.saved = 2 := if_pos (.inl (by rw [hrest]; rfl))
    omega
  | cons c rest =>
    rw [List.length_cons]
    omega

theorem credit_ofText_le (source : Text) :
    (ofText source).credit ≤ 3 * Text.byteSize source + 3 := by
  have hlength := Text.length_le_byteSize source
  have hsaved := (ofText source).saved_le
  have howed := (ofText source).owedLast_le
  have hrest : (ofText source).rest = source := rfl
  have hlevels : (ofText source).levels = [] := rfl
  have hpending : (ofText source).pendingDedents = 0 := rfl
  unfold credit
  rw [hrest, hlevels, hpending, List.length_nil]
  omega

/-- A character counts three, of which the blanks in front of it can have spent two. -/
theorem credit_emit_lt {t : Scanner} {kind : Token.Kind} {size : Nat} (rest : t.rest = s.rest)
    (hne : s.rest ≠ []) (levels : t.levels = s.levels)
    (pending : t.pendingDedents = s.pendingDedents) (hpos : 0 < size) :
    (t.emit kind size).2.credit < s.credit := by
  have hlen : 0 < s.rest.length := List.length_pos_iff.2 hne
  have hdrop : (t.emit kind size).2.rest.length = s.rest.length - size := by
    simp [emit, rest]
  have hlevels : (t.emit kind size).2.levels = s.levels := levels
  have hpending : (t.emit kind size).2.pendingDedents = s.pendingDedents := pending
  have hsaved := (t.emit kind size).2.saved_le
  have howed := (t.emit kind size).2.owedLast_le
  have hbefore := owedLast_of_rest hne
  unfold credit
  rw [hdrop, hlevels, hpending]
  omega

/-- An `indent` spends what the blanks behind it have saved. -/
theorem credit_indent_lt (ready : s.Ready) (hdeeper : s.top < Measure.indentation s.rest) :
    credit { s with levels := Measure.indentation s.rest :: s.levels, firstBodyLine := true } <
      s.credit := by
  have hbefore : s.saved = 2 := if_pos (.inr ⟨ready.pendingFault, hdeeper⟩)
  have hafter : saved { s with
      levels := Measure.indentation s.rest :: s.levels, firstBodyLine := true } = 0 := by
    apply if_neg
    rintro (hzero | ⟨-, hlt⟩)
    · exact absurd hzero (Nat.ne_of_gt (Nat.zero_lt_of_lt hdeeper))
    · exact Nat.lt_irrefl _ hlt
  unfold credit
  rw [hbefore, hafter]
  simp only [owedLast, List.length_cons]
  omega

/-- Closing bodies hands out one level, and the line in front gains nothing by it: it is as wide as
the level that is left, or at fault. -/
theorem credit_dedentTo_lt (hwidth : Measure.indentation s.rest < s.top) :
    (s.dedentTo (Measure.indentation s.rest)).2.credit < s.credit := by
  have hkept := length_dropWhile_lt hwidth
  have hsaved : (s.dedentTo (Measure.indentation s.rest)).2.saved ≤ s.saved := by
    unfold saved
    split
    · next hafter =>
      rcases hafter with hzero | ⟨hfault, htop⟩
      · exact Nat.le_of_eq (if_pos (.inl hzero)).symm
      · change (if _ = _ then s.pendingFault else some _) = none at hfault
        split at hfault
        · next heq => exact absurd htop (Nat.not_lt.2 (Nat.le_of_eq heq))
        · cases hfault
    · exact Nat.zero_le _
  have hpending : (s.dedentTo (Measure.indentation s.rest)).2.pendingDedents =
      s.levels.length - (s.levels.dropWhile (Measure.indentation s.rest < ·)).length - 1 := rfl
  have hlevels : (s.dedentTo (Measure.indentation s.rest)).2.levels =
      s.levels.dropWhile (Measure.indentation s.rest < ·) := rfl
  have hrest : (s.dedentTo (Measure.indentation s.rest)).2.rest = s.rest := rfl
  have howed : (s.dedentTo (Measure.indentation s.rest)).2.owedLast = s.owedLast := rfl
  unfold credit
  rw [hpending, hlevels, hrest, howed]
  omega

/-- Every step but the one at the end of the input lowers the credit. -/
theorem Step.credit_lt (wf : s.WellFormed) (step : s.Step mode out)
    (hkind : out.1.kind ≠ .endOfInput) : out.2.credit < s.credit := by
  rcases step.taking_cases wf with ⟨t, kind, size, hrest, hne, hlevels, hpending, hpos, rfl⟩ | rfl |
    ⟨fault, hrest, hopen, rfl⟩ | ⟨ready, hdeeper, rfl⟩ | ⟨count, hcount, rfl⟩ |
    ⟨width, levels, hrest, hlevels, rfl⟩ | ⟨hwidth, rfl⟩
  · exact credit_emit_lt hrest hne hlevels hpending hpos
  · exact absurd rfl hkind
  · -- Nothing is taken; the flag pays.
    simp [credit, saved, owedLast, closeLiteral, emit, hrest, hopen, Measure.indentation]
  · exact credit_indent_lt ready hdeeper
  · have hsaved : saved { s with pendingDedents := count } = s.saved := rfl
    have howed : owedLast { s with pendingDedents := count } = s.owedLast := rfl
    unfold credit
    rw [hsaved, howed, hcount]
    dsimp only
    omega
  · simp [credit, saved, owedLast, hrest, hlevels, Measure.indentation]
  · exact credit_dedentTo_lt hwidth

/-- The number of tokens in front of the end of the input. -/
def countTokens (tokens : List Token) : Nat := tokens.countP (·.kind != .endOfInput)

/-- The tokens of a run are paid for by credit. -/
theorem countTokens_scan_add_le (wf : s.WellFormed) (modes : List Mode) :
    countTokens (s.scan modes).1 + (s.scan modes).2.credit ≤ s.credit := by
  refine (scan_induction (motive := fun tokens t => countTokens tokens + t.credit ≤ s.credit) wf
    (Nat.le_of_eq (Nat.zero_add _)) ?_ modes).2
  intro tokens t mode hwf hle
  unfold countTokens at hle ⊢
  rw [List.countP_append, List.countP_singleton]
  by_cases hkind : (t.next mode).1.kind = .endOfInput
  · rw [((step_next t mode).endOfInput_inv hwf hkind).2.1, hkind]
    simpa using hle
  · have hlt := (step_next t mode).credit_lt hwf hkind
    split <;> omega

/-- However the modes are chosen, the tokens tile the source; the end of the input is given only
when all of it is taken, and then for good; and the number of other tokens is linear. -/
theorem scan_tiles_and_ends (source : Text) (modes : List Mode) :
    Tiling source ((ofText source).scan modes).1 ∧
    (∀ mode : Mode, (((ofText source).scan modes).2.next mode).1.kind = .endOfInput →
      ((ofText source).scan modes).1.flatMap Token.text = source ∧
      (((ofText source).scan modes).2.next mode).1.span = .empty (Text.byteSize source) ∧
      ∀ later : List Mode,
        (((((ofText source).scan modes).2.next mode).2.scan later).2.next mode).1.kind =
          .endOfInput) ∧
    countTokens ((ofText source).scan modes).1 ≤ 3 * Text.byteSize source + 1 := by
  have hcovers := covers_scan source modes
  have hwf := (wellFormed_ofText source).scan modes
  refine ⟨hcovers.tiling, ?_, ?_⟩
  · intro mode hkind
    have hend := atEnd_of_endOfInput hwf hkind
    have hsource : ((ofText source).scan modes).1.flatMap Token.text = source := by
      have hsource := hcovers.source_eq
      rwa [hend.rest, List.append_nil] at hsource
    refine ⟨hsource, ?_, fun later => ?_⟩
    · have hstays := ((step_next _ mode).endOfInput_inv hwf hkind).2.1
      rw [(takes_next _ mode).span_eq, hstays, hcovers.offset_eq, hsource]
      rfl
    · exact ((hend.step (step_next _ mode)).scan later).kind_next
  · have hcount := countTokens_scan_add_le (wellFormed_ofText source) modes
    have hstart := credit_ofText_le source
    have hspare := ((ofText source).scan modes).2.two_le_credit
    omega

end Scanner

end Justfile
