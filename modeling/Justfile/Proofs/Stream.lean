import Justfile.Proofs.Scanner.Flag
import Justfile.Token.Stream

/-!
# Looking ahead

What the stream finds ahead of a well-formed scanner. Skipping trivia is a run of the scanner over
trivia alone that stops in front of a token that is none (`skip_spec`): the fuel that bounds it never
runs out, because every piece of trivia has a character. So skipping twice is skipping once
(`skip_of_not_isTrivia`), and two tokens that stand together are consumed with nothing between
them (`bumpGlued_of_atGlued`).
-/

set_option autoImplicit false

namespace Justfile

namespace Scanner

/-- The scanner gives the tokens one after the other, all in one mode. -/
inductive Run (mode : Mode) : Scanner → List Token → Scanner → Prop
  | nil (s : Scanner) : Run mode s [] s
  | cons {s t : Scanner} {tokens : List Token} :
      Run mode (s.next mode).2 tokens t → Run mode s ((s.next mode).1 :: tokens) t

/-- A run keeps a scanner well-formed and does not add to its work. -/
theorem Run.wellFormed {mode : Mode} {s t : Scanner} {tokens : List Token}
    (run : Run mode s tokens t) (wf : s.WellFormed) : t.WellFormed ∧ t.work ≤ s.work := by
  induction run with
  | nil s => exact ⟨wf, Nat.le_refl _⟩
  | @cons s t tokens _ ih =>
    obtain ⟨hwf, hle⟩ := ih (wf.next mode)
    exact ⟨hwf, Nat.le_trans hle (work_next_le wf mode)⟩

theorem Run.settled {mode : Mode} {s t : Scanner} {tokens : List Token}
    (run : Run mode s tokens t) (hmode : mode.isFlat = true) (settled : s.Settled) :
    t.Settled := by
  induction run with
  | nil s => exact settled
  | cons _ ih => exact ih (settled.next hmode)

end Scanner

namespace Stream

/-- Trivia has characters. -/
theorem canBeEmpty_of_isTrivia {s : Stream} {kind : Token.Kind} (h : s.isTrivia kind = true) :
    Scanner.canBeEmpty kind = false := by
  unfold isTrivia at h
  unfold Scanner.canBeEmpty
  split <;> first | rfl | cases h

theorem flag?_of_isTrivia {s : Stream} {kind : Token.Kind} (h : s.isTrivia kind = true) :
    kind.flag? = none := by
  unfold isTrivia at h
  unfold Token.Kind.flag?
  split <;> first | rfl | cases h

/-- In front of a token that is no trivia there is nothing to skip. -/
theorem skip_of_not_isTrivia {s : Stream} {scanner : Scanner}
    (h : s.isTrivia (scanner.next s.mode).1.kind = false) (fuel : Text) :
    s.skip fuel scanner = ([], scanner) := by
  cases fuel with
  | nil => rfl
  | cons c fuel => simp [skip, h]

/-- Skipping takes trivia and stops in front of a token that is none. -/
theorem skip_spec (s : Stream) (fuel : Text) (scanner : Scanner) (wf : scanner.WellFormed)
    (hfuel : scanner.rest.length ≤ fuel.length) :
    Scanner.Run s.mode scanner (s.skip fuel scanner).1 (s.skip fuel scanner).2 ∧
      (∀ token ∈ (s.skip fuel scanner).1, s.isTrivia token.kind = true) ∧
      s.isTrivia ((s.skip fuel scanner).2.next s.mode).1.kind = false := by
  induction fuel generalizing scanner with
  | nil =>
    refine ⟨.nil scanner, by simp [skip], ?_⟩
    -- Nothing is left, so a piece of trivia would have no character.
    cases ht : s.isTrivia (scanner.next s.mode).1.kind with
    | false => exact ht
    | true =>
      have hlt := (Scanner.step_next scanner s.mode).rest_lt wf (canBeEmpty_of_isTrivia ht)
      simp only [List.length_nil] at hfuel
      omega
  | cons c fuel ih =>
    cases ht : s.isTrivia (scanner.next s.mode).1.kind with
    | false =>
      rw [skip_of_not_isTrivia ht]
      refine ⟨.nil scanner, ?_, ht⟩
      intro token hmem
      cases hmem
    | true =>
      have hlt := (Scanner.step_next scanner s.mode).rest_lt wf (canBeEmpty_of_isTrivia ht)
      simp only [List.length_cons] at hfuel
      obtain ⟨hrun, hall, hstop⟩ := ih (scanner.next s.mode).2 (wf.next s.mode) (by omega)
      have heq : s.skip (c :: fuel) scanner =
          ((scanner.next s.mode).1 :: (s.skip fuel (scanner.next s.mode).2).1,
            (s.skip fuel (scanner.next s.mode).2).2) := by
        simp [skip, ht]
      rw [heq]
      refine ⟨.cons hrun, ?_, hstop⟩
      intro token hmem
      rcases List.mem_cons.1 hmem with rfl | hmem
      · exact ht
      · exact hall token hmem

/-- Fuel beyond the number of characters left makes no difference. -/
theorem skip_fuel (s : Stream) {fuel fuel' : Text} {scanner : Scanner} (wf : scanner.WellFormed)
    (hfuel : scanner.rest.length ≤ fuel.length) (hfuel' : scanner.rest.length ≤ fuel'.length) :
    s.skip fuel scanner = s.skip fuel' scanner := by
  induction fuel generalizing fuel' scanner with
  | nil =>
    have hstop := (skip_spec s [] scanner wf hfuel).2.2
    exact (skip_of_not_isTrivia hstop []).trans (skip_of_not_isTrivia hstop fuel').symm
  | cons c fuel ih =>
    cases ht : s.isTrivia (scanner.next s.mode).1.kind with
    | false => rw [skip_of_not_isTrivia ht, skip_of_not_isTrivia ht]
    | true =>
      have hlt := (Scanner.step_next scanner s.mode).rest_lt wf (canBeEmpty_of_isTrivia ht)
      cases fuel' with
      | nil => exact absurd (Nat.lt_of_lt_of_le hlt hfuel') (Nat.not_lt_zero _)
      | cons c' fuel' =>
        simp only [List.length_cons] at hfuel hfuel'
        have hle : (scanner.next s.mode).2.rest.length ≤ fuel.length := by omega
        have hle' : (scanner.next s.mode).2.rest.length ≤ fuel'.length := by omega
        have hrest := ih (wf.next s.mode) hle hle'
        simp only [skip, hrest]

/-- A look from a piece of trivia on is a look from behind it, with the piece in front. -/
theorem ahead_of_isTrivia {s : Stream} {scanner : Scanner} (wf : scanner.WellFormed)
    (h : s.isTrivia (scanner.next s.mode).1.kind = true) :
    s.ahead scanner =
      ⟨(scanner.next s.mode).1 :: (s.ahead (scanner.next s.mode).2).trivia,
        (s.ahead (scanner.next s.mode).2).before, (s.ahead (scanner.next s.mode).2).token,
        (s.ahead (scanner.next s.mode).2).after⟩ := by
  have hlt := (Scanner.step_next scanner s.mode).rest_lt wf (canBeEmpty_of_isTrivia h)
  have hskip : s.skip scanner.rest scanner =
      ((scanner.next s.mode).1 ::
          (s.skip (scanner.next s.mode).2.rest (scanner.next s.mode).2).1,
        (s.skip (scanner.next s.mode).2.rest (scanner.next s.mode).2).2) := by
    cases hrest : scanner.rest with
    | nil =>
      rw [hrest] at hlt
      exact absurd hlt (Nat.not_lt_zero _)
    | cons c fuel =>
      rw [hrest, List.length_cons] at hlt
      rw [← skip_fuel s (wf.next s.mode) (Nat.le_of_lt_succ hlt) (Nat.le_refl _)]
      simp [skip, h]
  simp only [ahead, hskip]

theorem ahead_of_not_isTrivia {s : Stream} {scanner : Scanner}
    (h : s.isTrivia (scanner.next s.mode).1.kind = false) :
    s.ahead scanner = ⟨[], scanner, (scanner.next s.mode).1, (scanner.next s.mode).2⟩ := by
  simp only [ahead, skip_of_not_isTrivia h]

/-- The scanner that a stream holds has no part in what it skips from another one. -/
theorem skip_withScanner (s : Stream) (other : Scanner) (fuel : Text) (scanner : Scanner) :
    skip { s with scanner := other } fuel scanner = s.skip fuel scanner := by
  induction fuel generalizing scanner with
  | nil => rfl
  | cons c fuel ih =>
    have htrivia : ∀ kind, isTrivia { s with scanner := other } kind = s.isTrivia kind :=
      fun _ => rfl
    simp only [skip, ih, htrivia]

theorem ahead_withScanner (s : Stream) (other scanner : Scanner) :
    ahead { s with scanner := other } scanner = s.ahead scanner := by
  simp only [ahead, skip_withScanner]

theorem nthFrom_withScanner (s : Stream) (other : Scanner) (n : Nat) (scanner : Scanner) :
    nthFrom { s with scanner := other } n scanner = s.nthFrom n scanner := by
  induction n generalizing scanner with
  | zero => simp only [nthFrom, ahead_withScanner]
  | succ n ih => simp only [nthFrom, ahead_withScanner, ih]

/-! ## The scanner in front of the next significant token -/

/-- The stream after the trivia in front of the next significant token. -/
def flushed (s : Stream) : Stream := s.takeTrivia.2

/-- The step that gives the next significant token of a stream without trivia in front. -/
def step (s : Stream) : Token × Scanner := s.scanner.next s.mode

/-- Nothing is to be skipped in front of the next token. -/
def Flush (s : Stream) : Prop := s.isTrivia s.step.1.kind = false

section Flush

variable {s : Stream}

theorem takeTrivia_spec (wf : s.scanner.WellFormed) :
    Scanner.Run s.mode s.scanner s.takeTrivia.1 s.flushed.scanner ∧
      (∀ token ∈ s.takeTrivia.1, s.isTrivia token.kind = true) ∧ s.flushed.Flush :=
  skip_spec s s.scanner.rest s.scanner wf (Nat.le_refl _)

theorem takeTrivia_of_flush (flush : s.Flush) : s.takeTrivia = ([], s) := by
  have hskip := skip_of_not_isTrivia (s := s) flush s.scanner.rest
  simp only [takeTrivia, hskip]

theorem flushed_of_flush (flush : s.Flush) : s.flushed = s := by
  rw [flushed, takeTrivia_of_flush flush]

/-- Looking ahead is looking at the step behind the trivia. -/
theorem ahead_scanner (s : Stream) :
    s.ahead s.scanner =
      ⟨s.takeTrivia.1, s.flushed.scanner, s.flushed.step.1, s.flushed.step.2⟩ := rfl

theorem ahead_of_flush (flush : s.Flush) :
    s.ahead s.scanner = ⟨[], s.scanner, s.step.1, s.step.2⟩ := by
  rw [ahead_scanner, flushed_of_flush flush, takeTrivia_of_flush flush]

/-- Trivia that is taken is not seen by any look. -/
theorem nth_flushed (wf : s.scanner.WellFormed) (n : Nat) : s.flushed.nth n = s.nth n := by
  have hahead : s.flushed.ahead s.flushed.scanner =
      ⟨[], s.flushed.scanner, s.flushed.step.1, s.flushed.step.2⟩ :=
    ahead_of_flush (takeTrivia_spec wf).2.2
  cases n with
  | zero =>
    change (s.flushed.ahead s.flushed.scanner).token = (s.ahead s.scanner).token
    rw [hahead, ahead_scanner]
  | succ n =>
    have hnth : ∀ t : Stream, t.nth (n + 1) =
        if (t.ahead t.scanner).token.kind = .endOfInput then (t.ahead t.scanner).token
        else t.nthFrom n (t.ahead t.scanner).after := fun _ => rfl
    have hfrom : ∀ scanner, s.flushed.nthFrom n scanner = s.nthFrom n scanner :=
      nthFrom_withScanner s _ n
    rw [hnth, hnth, hahead, ahead_scanner, hfrom]

theorem nth_zero_of_flush (flush : s.Flush) : s.nth 0 = s.step.1 := by
  change (s.ahead s.scanner).token = _
  rw [ahead_of_flush flush]

/-- The next significant token is the step behind the trivia. -/
theorem nth_zero (s : Stream) : s.nth 0 = s.flushed.step.1 := rfl

theorem bump_eq (s : Stream) (hkind : s.flushed.step.1.kind ≠ .endOfInput) :
    s.bump = (s.takeTrivia.1, s.flushed.step.1, { s with scanner := s.flushed.step.2 }) := by
  unfold bump
  rw [ahead_scanner]
  simp only [hkind, if_false]

end Flush

/-! ## Two tokens that stand together -/

/-- Two closing braces that stand together: the second is the step right after the first. -/
theorem atGlued_spec {s : Stream} {first second : Token.Kind}
    (h : s.atGlued first second = true) :
    s.flushed.step.1.kind = first ∧ first ≠ .endOfInput ∧
      (s.flushed.step.2.next s.mode).1.kind = second := by
  unfold atGlued at h
  rw [ahead_scanner] at h
  dsimp only at h
  split at h
  · next hfirst =>
    simp only [Bool.and_eq_true, beq_iff_eq] at h
    exact ⟨hfirst.1, hfirst.2, h.1⟩
  · cases h

/-- Two tokens that stand together are consumed with nothing between them. -/
theorem bumpGlued_of_atGlued {s : Stream} {first second : Token.Kind} (kind : Token.Kind)
    (h : s.atGlued first second = true) (htrivia : s.isTrivia second = false)
    (hsecond : second ≠ .endOfInput) :
    s.bumpGlued kind =
      (s.takeTrivia.1,
        ⟨kind, ⟨s.flushed.step.1.span.start, (s.flushed.step.2.next s.mode).1.span.stop⟩,
          s.flushed.step.1.text ++ (s.flushed.step.2.next s.mode).1.text, none⟩,
        { s with scanner := (s.flushed.step.2.next s.mode).2 }) := by
  obtain ⟨hfirst, hne, hnext⟩ := atGlued_spec h
  have hbump : s.bump =
      (s.takeTrivia.1, s.flushed.step.1, { s with scanner := s.flushed.step.2 }) := by
    apply bump_eq
    rw [hfirst]
    exact hne
  have hflush : Flush { s with scanner := s.flushed.step.2 } := by
    change s.isTrivia (s.flushed.step.2.next s.mode).1.kind = false
    rw [hnext]
    exact htrivia
  have hbetween : bump { s with scanner := s.flushed.step.2 } =
      ([], (s.flushed.step.2.next s.mode).1,
        { s with scanner := (s.flushed.step.2.next s.mode).2 }) := by
    have hkind : (flushed { s with scanner := s.flushed.step.2 }).step.1.kind ≠ .endOfInput := by
      rw [flushed_of_flush hflush]
      change (s.flushed.step.2.next s.mode).1.kind ≠ _
      rw [hnext]
      exact hsecond
    rw [bump_eq _ hkind, takeTrivia_of_flush hflush, flushed_of_flush hflush]
    rfl
  unfold bumpGlued
  rw [hbump]
  dsimp only
  rw [hbetween]

end Stream

end Justfile
