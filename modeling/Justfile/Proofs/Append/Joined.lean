import Justfile.Proofs.Append.Lookahead
import Justfile.Proofs.Simulation.Mirror

/-!
# Reading joined texts

A run on a text that ends with a line is compared with the run on the same text with another behind it, at
the start of which an item can start (`joined`). Both are at the same place, as long as the first one
reports nothing and did not come into a line without an end.
-/

set_option autoImplicit false

namespace Justfile.Grammar

open Scanner Justfile.Measure

/-! ## The simulation -/

/-- Nothing was reported, and the line ends in the first text. -/
structure State.Sound (s : State) : Prop where
  reports : s.reports = []
  exhausted : s.exhausted = false
  ends : ¬Doomed s.scanner s.consumed

/-- The next significant token is one of the first text. Contents of a literal are not at fault. -/
structure State.Continues (s : State) : Prop where
  front : s.front ≠ .endOfInput
  rest : s.flushed.scanner.rest ≠ []
  contents : s.stream.mode.fault?.isSome = true → s.front.isErrorRecovery = false

/-- Runs on a text, and on the same text with more behind it. -/
def joined (more : Text) : Simulation where
  place := id
  inv c s := (balanced []).inv c s ∧ s.scanner.Fed ∧ (s.exhausted = false → c.bodies ≤ 1)
  rel c s t := t.scanner = s.scanner.followed more ∧ c.Governs t.stream ∧ t.depth = s.depth ∧
    t.reports = s.reports
  calm := State.Sound
  wide s := s.Sound ∧ s.scanner.rest ≠ []
  live s := s.Sound ∧ s.Continues
  peer s := (s.Sound ∧ s.Continues) ∧ (s.stream.nth 1).kind ≠ .endOfInput

section Laws

variable {more : Text} {c e : Context} {s t : State}

/-! ### What is known in front of the next token -/

section Flushed

variable (hinv : (joined more).inv c s)
include hinv

theorem fed_flushed : s.flushed.scanner.Fed :=
  (Stream.takeTrivia_spec hinv.1.1).1.fed hinv.2.1

variable (hlive : s.exhausted = false)
include hlive

theorem pendingDedents_joined : s.scanner.pendingDedents = 0 := (hinv.1.2.2 hlive).pendingDedents

theorem pendingDedents_flushed : s.flushed.scanner.pendingDedents = 0 :=
  (steady_flushed hinv.1.1).pendingDedents.trans (pendingDedents_joined hinv hlive)

/-- Where nothing is left, the input ends, a body is closed, or a literal is at fault. -/
theorem front_of_rest (hrest : s.flushed.scanner.rest = []) :
    s.front = .endOfInput ∨ (c.mode = .body ∧ s.front = .dedent) ∨
      (c.mode.fault?.isSome = true ∧ s.front.isErrorRecovery = true) := by
  have hpending := pendingDedents_flushed hinv hlive
  have hwf := (fed_flushed hinv).wellFormed
  have ready := hwf.ready_of_nil hrest hpending
  have hmode : s.flushed.stream.mode = c.mode := hinv.1.2.1.mode
  rw [front_eq_step hinv.1.1, hmode]
  have step := step_next s.flushed.scanner c.mode
  generalize s.flushed.scanner.next c.mode = out at step
  rcases step.cases_of_rest_nil ready hrest with rfl | ⟨fault, hfault, rfl⟩ | ⟨hbody, _, _, -, rfl⟩
  · exact .inl rfl
  · refine .inr (.inr ⟨?_, rfl⟩)
    rw [hfault]
    rfl
  · exact .inr (.inl ⟨hbody, rfl⟩)

end Flushed

/-! ### Runs that stay sound -/

theorem doomed_flushed (fed : s.scanner.Fed) (h : Doomed s.scanner s.consumed) :
    Doomed s.flushed.scanner s.flushed.consumed := by
  obtain ⟨hrun, htrivia, -⟩ := Stream.takeTrivia_spec fed.wellFormed
  refine h.run hrun fed fun token hmem => ?_
  have hkind := htrivia token hmem
  cases heq : token.kind <;> first | rfl | (rw [heq] at hkind; cases hkind)

theorem sound_of_flushed (fed : s.scanner.Fed) (h : s.flushed.Sound) : s.Sound :=
  ⟨h.reports, h.exhausted, fun doomed => h.ends (doomed_flushed fed doomed)⟩

theorem isErrorRecovery_of_take {token : Token} {scanner : Scanner}
    (h : (s.take token scanner).reports = []) : token.kind.isErrorRecovery = false := by
  cases hkind : token.kind with
  | errorRecovery fault =>
    simp only [State.take, hkind] at h
    cases h
  | _ => rfl

/-- What is consumed as a keyword is an identifier. -/
def Renames (s : State) (word : Option Keyword) : Prop :=
  word.isSome = true → s.front = .identifier

theorem sound_of_bumpAs (hinv : (joined more).inv c s) (hne : s.front ≠ .endOfInput)
    (field : Option Field) {word : Option Keyword} (hword : Renames s word)
    (h : (bumpAs field (word.map .keyword) s).2.Sound) :
    s.Sound ∧ s.front.isErrorRecovery = false := by
  have honward := onward_bumpAs hinv.1.1 hne field (word.map .keyword)
  obtain ⟨hreports, hexhausted, hends⟩ := h
  have hfront := front_eq_step hinv.1.1
  have hbefore : s.reports = [] := by
    have hsuffix := honward.reports
    rw [hreports] at hsuffix
    exact List.suffix_nil.1 hsuffix
  rw [bumpAs_eq field _ s hne] at hreports hends
  have hclean := isErrorRecovery_of_take hreports
  have hkind : s.front.isErrorRecovery = false := by
    cases word with
    | none =>
      rw [hfront]
      exact hclean
    | some word =>
      rw [hword rfl]
      rfl
  refine ⟨⟨hbefore, honward.exhausted.symm.trans hexhausted, fun doomed => hends ?_⟩, hkind⟩
  have hflushed := doomed_flushed hinv.2.1 doomed
  refine hflushed.next (fed_flushed hinv) (hfront ▸ hkind) ?_ ?_
  · cases word with
    | none => rfl
    | some word =>
      rw [← hfront, hword rfl]
      rfl
  · cases word with
    | none => exact id
    | some word => exact nofun

/-! ### The same tokens -/

section Same

variable (hmore : StartsItem more) (hinv : (joined more).inv c s) (hlive : s.exhausted = false)
  (hrel : (joined more).rel c s t)
include hmore hinv hlive hrel

/-- The same trivia is skipped. -/
theorem flushed_joined : t.stream.takeTrivia.1 = s.stream.takeTrivia.1 ∧
    t.flushed.scanner = s.flushed.scanner.followed more := by
  obtain ⟨hscanner, hgov', -, -⟩ := hrel
  have hskip := Stream.skip_followed (z := s.stream) hinv.2.1 (pendingDedents_joined hinv hlive)
    hmore (Nat.le_refl _) (Nat.le_refl _)
  have htrivia : t.stream.takeTrivia = ((s.stream.skip t.scanner.rest t.scanner).1,
      { t.stream with scanner := (s.stream.skip t.scanner.rest t.scanner).2 }) := by
    unfold Stream.takeTrivia
    rw [show t.stream.scanner = t.scanner from rfl, Mirror.stream_eq hinv.1.2.1 hgov',
      Stream.skip_withScanner]
  have hflushed : t.flushed.scanner = t.stream.takeTrivia.2.scanner := rfl
  have hrest : t.scanner.rest = s.scanner.rest ++ more := by
    rw [hscanner]
    rfl
  rw [hflushed, htrivia, hrest, hscanner, hskip]
  exact ⟨rfl, rfl⟩

/-- The next token with more text behind what is left. -/
theorem step_joined (hrest : s.flushed.scanner.rest ≠ []) :
    Extends c.mode more s.flushed.step t.flushed.step := by
  have fed := fed_flushed hinv
  have hmode : s.flushed.stream.mode = c.mode := hinv.1.2.1.mode
  have hmode' : t.flushed.stream.mode = c.mode := hrel.2.1.mode
  have hstep : s.flushed.step = s.flushed.scanner.next c.mode := by
    rw [← hmode]
    rfl
  have hstep' : t.flushed.step = (s.flushed.scanner.followed more).next c.mode := by
    rw [← (flushed_joined hmore hinv hlive hrel).2, ← hmode']
    rfl
  rw [hstep, hstep']
  exact next_followed (fed.isLines hrest) fed.wellFormed hmore c.mode

theorem rel_flushed_joined : (joined more).rel c s.flushed t.flushed :=
  ⟨(flushed_joined hmore hinv hlive hrel).2, ⟨hrel.2.1.mode, hrel.2.1.nesting, hrel.2.1.lineBound⟩,
    hrel.2.2⟩

end Same

/-- The same token is taken. -/
theorem rel_take_joined (hrel : (joined more).rel c s t) (token : Token) {scanner scanner' : Scanner}
    (hscanner : scanner' = scanner.followed more) :
    (joined more).rel c (s.take token scanner) (t.take token scanner') := by
  obtain ⟨-, hgov', hdepth, hreports⟩ := hrel
  refine ⟨hscanner, ⟨hgov'.mode, hgov'.nesting, hgov'.lineBound⟩, hdepth, ?_⟩
  simp only [State.take, hreports]

/-- The relation depends on how tokens are read only. -/
theorem rel_context_joined (hrel : (joined more).rel c s t) (hmode : e.mode = c.mode)
    (hnesting : e.nesting = c.nesting) (hlineBound : e.lineBound = c.lineBound) :
    (joined more).rel e s t := by
  obtain ⟨hscanner, hgov', hrest⟩ := hrel
  exact ⟨hscanner, ⟨hgov'.mode.trans hmode.symm, hgov'.nesting.trans hnesting.symm,
    hgov'.lineBound.trans hlineBound.symm⟩, hrest⟩

/-- A token is consumed that is the same in both runs. -/
theorem rel_bumpAs_joined (hmore : StartsItem more) (hinv : (joined more).inv c s)
    (hlive : s.exhausted = false) (hrel : (joined more).rel c s t) (hne : s.front ≠ .endOfInput)
    (hstep : t.flushed.step = follow more s.flushed.step) (field : Option Field)
    (word : Option Token.Kind) :
    (bumpAs field word t).1 = Node.moveList id (bumpAs field word s).1 ∧
      (joined more).rel c (bumpAs field word s).2 (bumpAs field word t).2 := by
  obtain ⟨htrivia, -⟩ := flushed_joined hmore hinv hlive hrel
  have hne' : t.front ≠ .endOfInput := by
    change t.flushed.step.1.kind ≠ .endOfInput
    rw [hstep]
    exact hne
  rw [Node.moveList_id, bumpAs_eq field word s hne, bumpAs_eq field word t hne', htrivia, hstep]
  exact ⟨rfl, rel_take_joined (rel_flushed_joined hmore hinv hlive hrel) _ rfl⟩

/-! ### Tokens that are consumed -/

/-- What follows a token that is consumed is not at fault, and the token does not reach beyond the first
text. -/
theorem step_eq_of_sound (hmore : StartsItem more) (hinv : (joined more).inv c s)
    (hrel : (joined more).rel c s t) (hne : s.front ≠ .endOfInput) (hrest : s.flushed.scanner.rest ≠ [])
    (field : Option Field) {word : Option Keyword} (hword : Renames s word)
    (h : (bumpAs field (word.map .keyword) s).2.Sound) :
    t.flushed.step = follow more s.flushed.step := by
  obtain ⟨hsound, hclean⟩ := sound_of_bumpAs hinv hne field hword h
  have hext := step_joined hmore hinv hsound.exhausted hrel hrest
  have hfront : s.front = s.flushed.step.1.kind := front_eq_step hinv.1.1
  generalize houtcome : t.flushed.step = out' at hext
  cases hext with
  | same => rfl
  | text _ hkind hend =>
    -- The text of a line that goes on to the end of the first text.
    obtain rfl : word = none := by
      cases word with
      | none => rfl
      | some word =>
        rw [← hfront, hword rfl] at hkind
        cases hkind
    refine absurd ⟨?_, fun _ => ?_⟩ h.ends
    · rw [bumpAs_eq field _ s hne]
      exact dangling_of_rest ((fed_flushed hinv).next _).wellFormed hend
    · rw [bumpAs_eq field _ s hne]
      exact not_endsLine_cons (by rw [Option.map_none, Option.getD_none, hkind]; rfl)
        (by rw [Option.map_none, Option.getD_none, hkind]; exact nofun)
  | fault _ hfault =>
    rw [← hfront, hclean] at hfault
    cases hfault

theorem fed_bumpAs (hinv : (joined more).inv c s) (hne : s.front ≠ .endOfInput) (field : Option Field)
    (word : Option Token.Kind) : (bumpAs field word s).2.scanner.Fed := by
  rw [bumpAs_eq field word s hne]
  exact (fed_flushed hinv).next _

/-- A token is consumed, in a context with no more bodies than one. -/
theorem inv_bumpAs (hinv : (joined more).inv c s) (hne : s.front ≠ .endOfInput) (field : Option Field)
    (word : Option Keyword) (hbodies : c.bodies ≤ 1 → e.bodies ≤ 1)
    (hbalanced : (balanced []).inv c s →
      (balanced []).inv e (bumpAs field (word.map .keyword) s).2) :
    (joined more).inv e (bumpAs field (word.map .keyword) s).2 := by
  refine ⟨hbalanced hinv.1, fed_bumpAs hinv hne field _, fun hlive => hbodies (hinv.2.2 ?_)⟩
  rwa [(onward_bumpAs hinv.1.1 hne field _).exhausted] at hlive

/-- In front of a token that stays inside a body, something of the first text is left. -/
theorem continues_of_sound (hinv : (joined more).inv c s) (hne : s.front ≠ .endOfInput)
    (hlevel : s.front ≠ .dedent) (field : Option Field) {word : Option Keyword} (hword : Renames s word)
    (h : (bumpAs field (word.map .keyword) s).2.Sound) : s.Sound ∧ s.Continues := by
  obtain ⟨hsound, hclean⟩ := sound_of_bumpAs hinv hne field hword h
  refine ⟨hsound, hne, fun hrest => ?_, fun _ => hclean⟩
  rcases front_of_rest hinv hsound.exhausted hrest with hend | ⟨-, hdedent⟩ | ⟨-, hfault⟩
  · exact hne hend
  · exact hlevel hdedent
  · rw [hclean] at hfault
    cases hfault

theorem tracks_bumpAs_joined (hmore : StartsItem more) (hne : s.front ≠ .endOfInput)
    (hlevel : (joined more).inv c s → s.exhausted = false → s.front ≠ .dedent) (field : Option Field)
    (word : Option Keyword) (hword : Renames s word) (hmode : e.mode = c.mode)
    (hnesting : e.nesting = c.nesting) (hlineBound : e.lineBound = c.lineBound)
    (hbodies : c.bodies ≤ 1 → e.bodies ≤ 1)
    (hbalanced : (balanced []).inv c s →
      (balanced []).inv e (bumpAs field (word.map .keyword) s).2) :
    (joined more).Tracks c (joined more).live (joined more).moved (fun _ => e)
      (fun _ => (joined more).calm) s (bumpAs field (word.map .keyword))
      (bumpAs field (word.map .keyword)) := by
  intro hinv
  refine ⟨inv_bumpAs hinv hne field word hbodies hbalanced, fun hcalm => ?_⟩
  have hlive := (sound_of_bumpAs hinv hne field hword hcalm).1.exhausted
  have hpre := continues_of_sound hinv hne (hlevel hinv hlive) field hword hcalm
  refine ⟨hpre, fun t hrel => ?_⟩
  have hstep := step_eq_of_sound hmore hinv hrel hne hpre.2.rest field hword hcalm
  obtain ⟨hnodes, hafter⟩ := rel_bumpAs_joined hmore hinv hlive hrel hne hstep field _
  exact ⟨hnodes, rel_context_joined hafter hmode hnesting hlineBound⟩

/-- The token that closes a body may stand for the end of the first text. -/
theorem step_dedent (hmore : StartsItem more) (hinv : (joined more).inv c s)
    (hlive : s.exhausted = false) (hrel : (joined more).rel c s t) (hmode : c.mode = .body)
    (hbodies : c.bodies = 1) (hrest : s.flushed.scanner.rest = []) :
    t.flushed.step = follow more s.flushed.step := by
  have fed := fed_flushed hinv
  have leveled := hinv.1.2.2 hlive
  rw [hbodies] at leveled
  obtain ⟨hpending, ⟨width, hlevels⟩, -⟩ := leveled.steady (steady_flushed hinv.1.1)
  have hwidth : 0 < width :=
    ((stacked_iff _).1 fed.stacked).2 width (by rw [hlevels]; exact List.mem_cons_self)
  have hstep : s.flushed.step = s.flushed.scanner.next .body := by
    rw [← hmode, ← show s.flushed.stream.mode = c.mode from hinv.1.2.1.mode]
    rfl
  have hstep' : t.flushed.step = (s.flushed.scanner.followed more).next .body := by
    rw [← (flushed_joined hmore hinv hlive hrel).2, ← hmode,
      ← show t.flushed.stream.mode = c.mode from hrel.2.1.mode]
    rfl
  rw [hstep, hstep']
  exact fed.dedent_followed hmore hrest hpending hlevels hwidth

theorem tracks_closeBody (hmore : StartsItem more) (hfront : s.front = .dedent) (hmode : c.mode = .body)
    (hbodies : c.bodies = 1) :
    (joined more).Tracks c (joined more).calm (joined more).moved (fun _ => c.withBodies 0)
      (fun _ => (joined more).calm) s bump bump := by
  have hne : s.front ≠ .endOfInput := by
    rw [hfront]
    exact nofun
  intro hinv
  refine ⟨inv_bumpAs hinv hne none none (fun _ => Nat.zero_le 1)
    fun h => ((lawful_balanced []).close_body hfront hmode hbodies h).1, fun hcalm => ?_⟩
  have hrenames : Renames s none := nofun
  obtain ⟨hsound, -⟩ := sound_of_bumpAs hinv hne none hrenames hcalm
  refine ⟨hsound, fun t hrel => ?_⟩
  have hstep : t.flushed.step = follow more s.flushed.step := by
    by_cases hrest : s.flushed.scanner.rest = []
    · exact step_dedent hmore hinv hsound.exhausted hrel hmode hbodies hrest
    · exact step_eq_of_sound hmore hinv hrel hne hrest none hrenames hcalm
  obtain ⟨hnodes, hafter⟩ := rel_bumpAs_joined hmore hinv hsound.exhausted hrel hne hstep none none
  exact ⟨hnodes, rel_context_joined hafter rfl rfl rfl⟩

theorem tracks_trivia_joined (hmore : StartsItem more) :
    (joined more).Follows c (joined more).live (joined more).live s trivia trivia := by
  intro hinv
  have trimmed := trimmed_flushed hinv.1.1
  have hflushed : s.flushed.flushed = s.flushed := (flushed_of_flush trimmed.flush).2
  refine ⟨⟨((lawful_balanced []).trivia hinv.1).1, fed_flushed hinv, hinv.2.2⟩, ?_⟩
  rintro ⟨hsound, hcontinues⟩
  refine ⟨⟨sound_of_flushed hinv.2.1 hsound, ?_, ?_, ?_⟩, fun t hrel => ?_⟩
  · exact trimmed.front ▸ hcontinues.front
  · have hrest : s.flushed.flushed.scanner.rest ≠ [] := hcontinues.rest
    rwa [hflushed] at hrest
  · exact trimmed.front ▸ hcontinues.contents
  · rw [trivia_eq, trivia_eq]
    refine ⟨?_, rel_flushed_joined hmore hinv hsound.exhausted hrel⟩
    rw [(flushed_joined hmore hinv hsound.exhausted hrel).1]
    exact (Node.moveList_id _).symm

/-- Two closing braces that stand together are both of the first text. -/
theorem rest_of_atGlued (hinv : (joined more).inv c s)
    (hat : s.stream.atGlued (.mark .braceR) (.mark .braceR) = true) :
    s.flushed.scanner.rest ≠ [] ∧ s.flushed.step.2.rest ≠ [] := by
  obtain ⟨hfirst, -, hsecond⟩ := Stream.atGlued_spec hat
  have hwf := (fed_flushed hinv).wellFormed
  have hne : ∀ {x : Scanner} {mode : Mode}, x.WellFormed → (x.next mode).1.kind = .mark .braceR →
      x.rest ≠ [] := by
    intro x mode hx hkind hrest
    have htext : (x.next mode).1.text ≠ [] := text_next_ne_nil hx (by rw [hkind]; rfl)
    have htakes := (takes_next x mode).text_append_rest
    rw [hrest] at htakes
    exact htext (List.append_eq_nil_iff.1 htakes).1
  exact ⟨hne hwf hfirst, hne (hwf.next _) hsecond⟩

theorem sound_of_glued (hinv : (joined more).inv c s)
    (hat : s.stream.atGlued (.mark .braceR) (.mark .braceR) = true)
    (h : (bumpGlued .interpolationClose s).2.Sound) : s.Sound := by
  obtain ⟨hfirst, -, hsecond⟩ := Stream.atGlued_spec hat
  have fed := fed_flushed hinv
  rw [bumpGlued_eq hat] at h
  refine ⟨h.reports, h.exhausted, fun doomed => h.ends ⟨?_, fun _ => not_endsLine_cons rfl nofun⟩⟩
  have hclean : (s.flushed.scanner.next s.stream.mode).1.kind.isErrorRecovery = false := by
    rw [show (s.flushed.scanner.next s.stream.mode).1.kind = _ from hfirst]
    rfl
  have hclean' : ((s.flushed.scanner.next s.stream.mode).2.next s.stream.mode).1.kind.isErrorRecovery =
      false := by
    rw [show ((s.flushed.scanner.next s.stream.mode).2.next s.stream.mode).1.kind = _ from hsecond]
    rfl
  have hone := (doomed_flushed hinv.2.1 doomed).next fed hclean rfl id
  exact (hone.next (fed.next _) hclean' rfl id).dangling

/-- Both closing braces of an interpolation are of the first text. -/
theorem tracks_closeBraces_joined (hmore : StartsItem more) (hmode : c.mode = .normal) :
    (joined more).Follows c (joined more).live (joined more).calm s closeBraces closeBraces := by
  intro hinv
  refine ⟨⟨((lawful_balanced []).close_braces hmode hinv.1).1, ?_, ?_⟩, fun hcalm => ?_⟩
  · rw [closeBraces_eq]
    split
    · next hat =>
      rw [bumpGlued_eq hat]
      exact ((fed_flushed hinv).next _).next _
    · exact hinv.2.1
  · rw [(onward_closeBraces hinv.1.1).exhausted]
    exact hinv.2.2
  · change (closeBraces s).2.Sound at hcalm
    rw [closeBraces_eq] at hcalm ⊢
    split at hcalm
    · next hat =>
      rw [if_pos hat]
      have hsound := sound_of_glued hinv hat hcalm
      obtain ⟨hrest, hbetween⟩ := rest_of_atGlued hinv hat
      have hfirst : s.front = .mark .braceR := (Stream.atGlued_spec hat).1
      refine ⟨⟨hsound, ?_, hrest, ?_⟩, fun t hrel => ?_⟩
      · rw [hfirst]
        exact nofun
      · rw [hfirst]
        exact fun _ => rfl
      · have hstep : t.flushed.step = follow more s.flushed.step := by
          have hext := step_joined hmore hinv hsound.exhausted hrel hrest
          rw [hmode] at hext
          exact hext.eq_of_normal
        have hsame : t.stream.mode = s.stream.mode := hrel.2.1.mode.trans hinv.1.2.1.mode.symm
        have fed : s.flushed.step.2.Fed := (fed_flushed hinv).next _
        -- Between the braces the first text still goes on, so that the second one is the same.
        have hsecond : t.flushed.step.2.next t.stream.mode =
            follow more (s.flushed.step.2.next s.stream.mode) := by
          have hnormal : s.stream.mode = .normal := hinv.1.2.1.mode.trans hmode
          have hext := next_followed (fed.isLines hbetween) fed.wellFormed hmore .normal
          rw [hstep, hsame, hnormal]
          exact hext.eq_of_normal
        have hat' : t.stream.atGlued (.mark .braceR) (.mark .braceR) = true := by
          rw [Stream.atGlued_eq, Stream.ahead_scanner] at hat ⊢
          change ((t.flushed.step.1.kind == _ && _) &&
            (t.flushed.step.2.next t.stream.mode).1.kind == _) = true
          rw [hsecond, hstep]
          exact hat
        rw [closeBraces_eq, if_pos hat', bumpGlued_eq hat, bumpGlued_eq hat', hsecond, hstep,
          (flushed_joined hmore hinv hsound.exhausted hrel).1]
        exact ⟨(Node.moveList_id _).symm,
          rel_take_joined (rel_flushed_joined hmore hinv hsound.exhausted hrel) _ rfl⟩
    · cases hcalm.reports

/-! ### Looking ahead -/

theorem front_body_joined (hmore : StartsItem more) (hinv : (joined more).inv c s)
    (hlive : s.exhausted = false) (hrel : (joined more).rel c s t) (hmode : c.mode = .body)
    (hbodies : c.bodies ≠ 0) : t.front = s.front := by
  have hone : c.bodies = 1 := by
    have hle := hinv.2.2 hlive
    omega
  change t.flushed.step.1.kind = s.flushed.step.1.kind
  by_cases hrest : s.flushed.scanner.rest = []
  · rw [step_dedent hmore hinv hlive hrel hmode hone hrest]
    rfl
  · have hext := step_joined hmore hinv hlive hrel hrest
    generalize t.flushed.step = out' at hext
    cases hext with
    | same => rfl
    | text _ hkind _ hkind' => rw [hkind, hkind']
    | fault hfault =>
      rw [hmode] at hfault
      cases hfault

theorem indent_joined (hmore : StartsItem more) (hinv : (joined more).inv c s)
    (hlive : s.exhausted = false) (hrel : (joined more).rel c s t) (hmode : c.mode = .bodyStart) :
    t.front = .indent ↔ s.front = .indent := by
  by_cases hrest : s.flushed.scanner.rest = []
  · have hfed := fed_flushed hinv
    have hstart := hfed.isItemStart_followed hmore hrest (pendingDedents_flushed hinv hlive)
      (.inr hmode)
    have hfront : t.front = ((s.flushed.scanner.followed more).next c.mode).1.kind := by
      rw [← (flushed_joined hmore hinv hlive hrel).2,
        ← show t.flushed.stream.mode = c.mode from hrel.2.1.mode]
      rfl
    have hnot : t.front ≠ .indent := by
      rw [hfront]
      intro hindent
      rw [hindent] at hstart
      cases hstart
    refine iff_of_false hnot fun hindent => ?_
    rcases front_of_rest hinv hlive hrest with h | ⟨h, -⟩ | ⟨h, -⟩
    · rw [hindent] at h
      cases h
    · rw [hmode] at h
      cases h
    · rw [hmode] at h
      cases h
  · have hext := step_joined hmore hinv hlive hrel hrest
    change t.flushed.step.1.kind = _ ↔ s.flushed.step.1.kind = _
    generalize t.flushed.step = out' at hext
    cases hext with
    | same => exact Iff.rfl
    | text hbody =>
      rw [hmode] at hbody
      cases hbody
    | fault hfault =>
      rw [hmode] at hfault
      cases hfault

theorem alike_joined (hmore : StartsItem more) (hinv : (joined more).inv c s)
    (hlive : (joined more).live s) (hrel : (joined more).rel c s t) :
    (joined more).Alike c (s.stream.nth 0) (t.stream.nth 0) := by
  have hext := step_joined hmore hinv hlive.1.exhausted hrel hlive.2.rest
  have hfront : s.front = s.flushed.step.1.kind := front_eq_step hinv.1.1
  change (joined more).Alike c s.flushed.step.1 t.flushed.step.1
  generalize t.flushed.step = out' at hext
  cases hext with
  | same => exact ⟨rfl, fun _ => rfl, fun _ => rfl⟩
  | text hbody hkind _ hkind' =>
    refine ⟨hkind'.trans hkind.symm, fun hnormal => ?_, fun hname => ?_⟩
    · rw [hnormal] at hbody
      cases hbody
    · rw [hkind] at hname
      cases hname
  | fault hmode hfault =>
    have hclean := hlive.2.contents (by rw [hinv.1.2.1.mode]; exact hmode)
    rw [hfront, hfault] at hclean
    cases hclean

/-- Further tokens, as long as the input does not end in front of them. -/
theorem nth_joined (hmore : StartsItem more) (hinv : (joined more).inv c s)
    (hlive : s.exhausted = false) (hrel : (joined more).rel c s t) (hmode : c.mode = .normal) {n : Nat}
    (h : ∀ k < n, (s.stream.nth k).kind ≠ .endOfInput) :
    t.stream.nth n = s.stream.nth n ∨ ((s.stream.nth n).kind = .endOfInput ∧
      isItemStart (t.stream.nth n).kind = true) := by
  have hnth : t.stream.nth n = s.stream.nthFrom n (s.scanner.followed more) := by
    unfold Stream.nth
    rw [Mirror.stream_eq hinv.1.2.1 hrel.2.1, Stream.nthFrom_withScanner, hrel.1]
  rw [hnth]
  exact Stream.nthFrom_followed hinv.2.1 (pendingDedents_joined hinv hlive) hmore
    (hinv.1.2.1.mode.trans hmode) h

/-! ### Guards -/

/-- Where reading goes on outside of literals, it does so in the first text. -/
theorem continues_of_front (hinv : (joined more).inv c s) (hlive : s.exhausted = false)
    (hmode : c.mode.fault? = none) (hne : s.front ≠ .endOfInput) (hlevel : s.front ≠ .dedent) :
    s.Continues := by
  refine ⟨hne, fun hrest => ?_, fun hfault => ?_⟩
  · rcases front_of_rest hinv hlive hrest with hend | ⟨-, hdedent⟩ | ⟨hfault, -⟩
    · exact hne hend
    · exact hlevel hdedent
    · rw [hmode] at hfault
      cases hfault
  · rw [hinv.1.2.1.mode, hmode] at hfault
    cases hfault

/-- In a literal that is not at fault, something is left. -/
theorem continues_of_contents (hinv : (joined more).inv c s) (hrest : s.scanner.rest ≠ [])
    (hmode : c.mode.fault?.isSome = true) (hclean : s.front.isErrorRecovery = false) :
    s.Continues := by
  obtain ⟨hrun, htrivia, -⟩ := Stream.takeTrivia_spec hinv.1.1
  have hleft : s.flushed.scanner.rest ≠ [] :=
    hrun.contents hinv.2.1 (by rw [hinv.1.2.1.mode]; exact hmode)
      (fun token hmem => Stream.isSkipped_of_isTrivia (htrivia token hmem)) hrest
  refine ⟨fun hend => ?_, hleft, fun _ => hclean⟩
  have hwf := (fed_flushed hinv).wellFormed
  exact hleft ((step_next s.flushed.scanner s.flushed.stream.mode).endOfInput_inv hwf hend).1

/-- Where a line has not ended, it ends in the first text. -/
theorem front_of_not_endsLine (hinv : (joined more).inv c s) (hsound : s.Sound)
    (hends : ¬EndsLine s.consumed) (hmode : c.mode = .normal) (hnesting : c.nesting = 0) :
    s.front ≠ .endOfInput := by
  intro hend
  obtain ⟨hrun, htrivia, -⟩ := Stream.takeTrivia_spec hinv.1.1
  have hmode' : s.stream.mode = .normal := hinv.1.2.1.mode.trans hmode
  have hplain : ∀ token ∈ s.stream.takeTrivia.1, token.kind.isTrivia = true := by
    intro token hmem
    have hkind := htrivia token hmem
    unfold Stream.isTrivia at hkind
    rw [hinv.1.2.1.nesting, hnesting] at hkind
    simpa using hkind
  have hrest : s.flushed.scanner.rest = [] :=
    ((step_next s.flushed.scanner s.flushed.stream.mode).endOfInput_inv
      (fed_flushed hinv).wellFormed hend).1
  rw [hmode'] at hrun
  exact hsound.ends ⟨hrun.dangling hinv.2.1 hplain hrest, fun _ => hends⟩

theorem not_endsLine_of_midLine (hsound : s.Sound) (hmid : s.MidLine) : ¬EndsLine s.consumed := by
  obtain ⟨token, hhead, hkind⟩ := hmid hsound.reports hsound.exhausted
  obtain ⟨consumed, hconsumed⟩ := List.head?_eq_some_iff.1 hhead
  rw [hconsumed]
  refine not_endsLine_cons ?_ ?_
  · cases hcase : token.kind <;> first | rfl | (rw [hcase] at hkind; cases hkind)
  · intro hline
    rw [hline] at hkind
    cases hkind

theorem rest_of_flushed (h : s.flushed.scanner.rest ≠ []) : s.scanner.rest ≠ [] := by
  intro hrest
  refine h ?_
  change (s.stream.skip s.stream.scanner.rest s.stream.scanner).2.rest = []
  rw [show s.stream.scanner.rest = [] from hrest]
  exact hrest

end Laws

/-- Reading a text that ends with a line is followed with more text behind it, at the start of which an
item can start. -/
theorem lawful_joined {more : Text} (hmore : StartsItem more) : (joined more).Lawful where
  wellFormed h := h.1.1
  governs h := h.1.2.1
  governs_rel h := h.2.1
  depth h := h.2.2.1
  offset {_ s t} h := by
    change t.scanner.offset = s.scanner.offset
    rw [h.1]
    rfl
  inv_within hadmits hleaves h := ⟨(lawful_balanced []).inv_within hadmits hleaves h.1, h.2⟩
  rel_within _ h := ⟨h.1, ⟨rfl, rfl, rfl⟩, rfl, h.2.2.2⟩
  inv_opened h := ⟨(lawful_balanced []).inv_opened h.1, h.2⟩
  rel_opened h := rel_context_joined h rfl rfl rfl
  inv_report cause span h := ⟨(lawful_balanced []).inv_report cause span h.1, h.2⟩
  rel_report cause span h := ⟨h.1, h.2.1, h.2.2.1, congrArg (_ :: ·) h.2.2.2⟩
  inv_spent bodies h := ⟨(lawful_balanced []).inv_spent bodies h.1, h.2.1, nofun⟩
  -- Calm: nothing was reported, and nothing dangles at the end. Wide: the first text goes on. Live: it
  -- goes on with a token of its own.
  calm_of_wide h := h.1
  wide_of_live h := ⟨h.1, rest_of_flushed h.2.rest⟩
  live_of_peer h := h.1
  calm_within h := ⟨h.reports, h.exhausted, h.ends⟩
  wide_within h := ⟨⟨h.1.reports, h.1.exhausted, h.1.ends⟩, h.2⟩
  live_atDepth h := ⟨⟨h.1.reports, h.1.exhausted, h.1.ends⟩, ⟨h.2.front, h.2.rest, h.2.contents⟩⟩
  not_calm_spent h := by cases h.exhausted
  peer_of_report h := by cases h.reports
  peer_of_reported hreports h := absurd h.reports hreports
  live_of_calm hinv h hmode hne hlevel :=
    ⟨h, continues_of_front hinv h.exhausted hmode hne hlevel⟩
  live_of_wide hinv h hmode hclean := ⟨h.1, continues_of_contents hinv h.2 hmode hclean⟩
  -- In the middle of a line neither the first text nor a body can end.
  live_of_midLine {c s} hinv hmid h hmode hnesting hfront := by
    have hend := front_of_not_endsLine hinv h (not_endsLine_of_midLine h hmid) hmode hnesting
    have hlevel := isLevel_of_allows hinv.1.1 hinv.1.2.1 (pendingDedents_joined hinv h.exhausted)
      (c.allows_of_normal hmode _)
    rcases hfront with hfront | hfront
    · exact absurd hfront hend
    · rw [hfront] at hlevel
      cases hlevel
  peer_of_next h hnext hfront := ⟨h, hfront ▸ hnext.2.front⟩
  peer_of_trimmed h hpeer hnth := ⟨h, hnth ▸ hpeer.2⟩
  token hinv hlive hrel := alike_joined hmore hinv hlive hrel
  second {c s t} hinv hmode hpeer hrel := by
    have hnth := nth_joined hmore hinv hpeer.1.1.exhausted hrel hmode (n := 1) fun k hk => by
      obtain rfl := Nat.lt_one_iff.1 hk
      exact hpeer.1.2.front
    rcases hnth with hsame | ⟨hend, -⟩
    · rw [hsame]
      exact ⟨rfl, fun _ => rfl, fun _ => rfl⟩
    · exact absurd hend hpeer.2
  third {c s t} hinv hmode hpeer hrel := by
    have hnth := nth_joined hmore hinv hpeer.1.1.exhausted hrel hmode (n := 2) fun k hk => by
      match k with
      | 0 => exact hpeer.1.2.front
      | 1 => exact hpeer.2
    rcases hnth with hsame | ⟨hend, hstart⟩
    · rw [hsame]
    · -- The first text ends there, and the other one goes on with an item: neither has a `:=`.
      refine iff_of_false (fun hkind => ?_) fun hkind => ?_
      · rw [hkind] at hstart
        cases hstart
      · rw [hend] at hkind
        cases hkind
  front_body hinv hmode hbodies hcalm hrel :=
    front_body_joined hmore hinv hcalm.exhausted hrel hmode hbodies
  indent hinv hmode hcalm hrel := indent_joined hmore hinv hcalm.exhausted hrel hmode
  trivia := tracks_trivia_joined hmore
  bump {c s} field hallows hne := by
    refine tracks_bumpAs_joined (c := c) hmore hne (fun hinv hlive hdedent => ?_) field none nofun rfl
      rfl rfl id fun h => ((lawful_balanced []).bump field hallows hne h).1
    have hlevel := isLevel_of_allows hinv.1.1 hinv.1.2.1 (pendingDedents_joined hinv hlive) hallows
    rw [hdedent] at hlevel
    cases hlevel
  keyword {c s} word hmode hfront := by
    have hne : s.front ≠ .endOfInput := by
      rw [hfront]
      exact nofun
    refine tracks_bumpAs_joined (c := c) hmore hne (fun _ _ => ?_) none (some word) (fun _ => hfront)
      rfl rfl rfl id fun h => ((lawful_balanced []).keyword word hmode hfront h).1
    rw [hfront]
    exact nofun
  open_literal {c s} field hopens := by
    refine tracks_bumpAs_joined (c := c) (e := c.opened) hmore (ne_endOfInput_of_opensLiteral hopens)
      (fun _ _ hdedent => ?_) field none nofun rfl rfl rfl id
      fun h => ((lawful_balanced []).open_literal field hopens h).1
    rw [hdedent] at hopens
    cases hopens
  open_body {c s} hfront hmode hbodies := by
    have hne : s.front ≠ .endOfInput := by
      rw [hfront]
      exact nofun
    have hbump := tracks_bumpAs_joined (c := c) (e := c.withBodies 1) hmore hne
      (fun _ _ => by rw [hfront]; exact nofun) none none nofun rfl rfl rfl (fun _ => Nat.le_refl 1)
      fun h => balanced_opened hfront hbodies h
    refine Simulation.Tracks.openBody hbump (fun u h => ?_) (fun u t h => ?_) fun u h => ?_
    · exact ⟨⟨h.1.1, ⟨rfl, h.1.2.1.nesting, h.1.2.1.lineBound⟩, fun hlive =>
        (h.1.2.2 hlive).within .body u.stream.nesting u.stream.lineBound u.depth⟩, h.2⟩
    · exact ⟨h.1, ⟨rfl, h.2.1.nesting, h.2.1.lineBound⟩, h.2.2.1, h.2.2.2⟩
    · exact ⟨h.reports, h.exhausted, h.ends⟩
  close_body hfront hmode hbodies := tracks_closeBody hmore hfront hmode hbodies
  end_body hfront hmode hbodies h := by
    refine ⟨⟨((lawful_balanced []).end_body hfront hmode hbodies h.1).1, h.2.1,
      fun _ => Nat.zero_le 1⟩, fun t hrel => rel_context_joined hrel rfl rfl rfl⟩
  close_braces hmode := tracks_closeBraces_joined hmore hmode

end Justfile.Grammar
