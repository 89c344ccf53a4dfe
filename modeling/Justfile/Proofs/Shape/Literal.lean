import Justfile.Proofs.Reading.Literal
import Justfile.Proofs.Shape.Judgement

/-!
# Shapes of literals and of recovery

Literals have no fields below them, and neither have error nodes: what is wrapped leaves no trace in
the word of the siblings.
-/

set_option autoImplicit false

namespace Justfile.Grammar

open Node (labelled bare)

variable {rules : Rules} {s : State}

/-! ## Interpolations -/

/-- Two closing braces as one token. -/
def closingBraces (s : State) : Token where
  kind := .interpolationClose
  span := ⟨s.flushed.step.1.span.start, (s.flushed.step.2.next s.stream.mode).1.span.stop⟩
  text := s.flushed.step.1.text ++ (s.flushed.step.2.next s.stream.mode).1.text

/-- Two glued braces are one node. -/
theorem bumpGlued_fills (wf : s.scanner.WellFormed)
    (hat : s.stream.atGlued (.mark .braceR) (.mark .braceR) = true) :
    Ensures s (bumpGlued .interpolationClose) (Fills 1 s) := by
  have passed : Passed s _ s.flushed := trivia_passed wf
  have hmiddle := passed.wellFormed.next s.flushed.stream.mode
  have hleaf := Fills.token (s := s.flushed)
    (t := s.flushed.take (closingBraces s) (s.flushed.step.2.next s.stream.mode).2)
    none (closingBraces s) (hmiddle.next s.stream.mode) id rfl
  unfold Ensures
  rw [bumpGlued_eq hat]
  apply passed.append
  exact hleaf.mono (Node.one_eq_one rfl).le

/-- An interpolation is one node without a field, whatever stands between its braces. -/
theorem interpolation_fills (shapely : rules.Shapely) (wf : s.scanner.WellFormed)
    (hfront : s.front = .interpolationOpen) : Ensures s (interpolation rules) (Fills 1 s) := by
  rw [interpolation]
  apply Ensures.get
  refine branch_labelled wf rfl rfl (Node.admits_one nofun trivial) ?_
  intro before t passed
  apply Ensures.bind (bump_fills passed.wellFormed (passed.front.trans hfront) nofun rfl none)
  intro opened u hopened
  apply Ensures.setMode
  apply Ensures.onStream
  have hentered : Fills 1 t opened (u.within .normal 0 true u.depth) := hopened.change rfl rfl
  apply Ensures.bind (shapely none _ hentered.wellFormed)
  intro inner v hinner
  have hboth := hentered.append_one hinner.toShaped
  apply Ensures.get
  apply Ensures.join (P := Fills 1 v)
  · intro hat
    exact bumpGlued_fills hinner.wellFormed hat
  · intro _
    exact missing_fills hinner.wellFormed none _
  · intro closed w hclosed
    exact (hboth.append_one hclosed.toShaped).change rfl rfl

/-! ## Strings -/

/-- A part of a string is a node without a field: text, an interpolation or the end. -/
theorem stringStep_turns (shapely : rules.Shapely) (wf : s.scanner.WellFormed) :
    Ensures s (stringStep rules ()) (Turns False (fun _ => 1) () s) := by
  rw [stringStep]
  apply Ensures.peek
  split
  · next hfront =>
    apply Ensures.bind (bump_fills wf hfront nofun rfl none)
    intro nodes t h
    exact .again_fills h (one_mul 1).le
  · next hfront =>
    apply Ensures.bind (bump_fills wf hfront nofun rfl none)
    intro nodes t h
    exact .again_fills h (one_mul 1).le
  · next hfront =>
    apply Ensures.bind (interpolation_fills shapely wf hfront)
    intro nodes t h
    exact .again_fills h (one_mul 1).le
  · next hfront =>
    apply Ensures.bind (bump_fills wf hfront nofun rfl none)
    intro nodes t h
    exact .done_fills h
  · next hfront =>
    apply Ensures.bind (bump_fills wf hfront nofun rfl none)
    intro nodes t h
    exact .done_fills h
  · exact .done (.nil wf) not_false

/-- The parts of a string are its opening and nodes without fields. -/
theorem stringParts_fills (shapely : rules.Shapely) (wf : s.scanner.WellFormed)
    {dialect : Dialect} (hfront : s.front = .stringOpen dialect) :
    Ensures s (stringParts rules dialect) (Fills 1 s) := by
  rw [stringParts]
  apply Ensures.get
  apply Ensures.bind (bump_fills wf hfront nofun rfl none)
  intro opened t hopened
  apply Ensures.setMode
  have hentered : Fills 1 s opened (t.inMode (.stringContent dialect)) := hopened.change rfl rfl
  apply Ensures.bind (loop_shaped (fun _ _ => stringStep_turns shapely) _ () hentered.wellFormed)
  intro contents u hcontents
  exact (hentered.append_one hcontents).change rfl rfl

/-- A string is one node with the field that it is read for. -/
theorem string_fills (shapely : rules.Shapely) (wf : s.scanner.WellFormed) {dialect : Dialect}
    (hfront : s.front = .stringOpen dialect) (field : Option Field) :
    Ensures s (string rules field dialect) (Fills (labelled field) s) := by
  rw [string]
  refine branch_labelled wf rfl rfl (Node.admits_one nofun trivial) ?_
  intro before t passed
  have hopen := passed.front.trans hfront
  split
  · refine branch_labelled passed.wellFormed rfl rfl (Node.admits_one nofun trivial) ?_
    intro before u passed'
    exact stringParts_fills shapely passed'.wellFormed (passed'.front.trans hopen)
  · exact stringParts_fills shapely passed.wellFormed hopen

/-- Where a string is expected there is one node with the field, a string or an error. -/
theorem stringOr_fills (shapely : rules.Shapely) (wf : s.scanner.WellFormed)
    (field : Option Field) (expected : Expected) :
    Ensures s (stringOr rules field expected) (Fills (labelled field) s) := by
  rw [stringOr]
  apply Ensures.peek
  split
  · next hfront => exact string_fills shapely wf hfront field
  · exact missing_fills wf field expected

/-! ## Commands -/

/-- A part of a command is a node without a field, and is there if the token in front is one of a
part. -/
theorem commandStep_turns (shapely : rules.Shapely) (wf : s.scanner.WellFormed) :
    Ensures s (commandStep rules ())
      (Turns (s.front = .commandContent ∨ s.front = .interpolationOpen) (fun _ => 1) () s) := by
  rw [commandStep]
  apply Ensures.peek
  split
  · next hfront =>
    apply Ensures.bind (bump_fills wf hfront nofun rfl none)
    intro nodes t h
    exact .again_fills h (one_mul 1).le
  · next hfront =>
    apply Ensures.bind (interpolation_fills shapely wf hfront)
    intro nodes t h
    exact .again_fills h (one_mul 1).le
  · next hcontent hinterpolation =>
    exact .done (.nil wf) (not_or.2 ⟨hcontent, hinterpolation⟩)

/-- The body of a command has no fields; it can be empty. -/
theorem commandBody_shaped (shapely : rules.Shapely) (wf : s.scanner.WellFormed) :
    Ensures s (commandBody rules) (Shaped 1 s) := by
  have hbranch : s.front = .commandContent ∨ s.front = .interpolationOpen →
      Ensures s (branch none .commandBody (loop (commandStep rules) rules.budget ()))
        (Fills 1 s) := by
    intro hfront
    refine branch_labelled wf rfl rfl (Node.admits_one nofun trivial) ?_
    intro before t passed
    exact loop_fills (fun _ _ => commandStep_turns shapely) _ passed.wellFormed
      (passed.front ▸ hfront)
  rw [commandBody]
  apply Ensures.peek
  split
  · next hfront => exact (hbranch (.inl hfront)).mono fun _ _ h => h.toShaped
  · next hfront => exact (hbranch (.inr hfront)).mono fun _ _ h => h.toShaped
  · exact .nil wf

/-- The end of a command is the closing sign, or a mark where it is missing. -/
theorem commandEnd_shaped (wf : s.scanner.WellFormed) : Ensures s commandEnd (Shaped 1 s) := by
  rw [commandEnd]
  apply Ensures.peek
  split
  · next hfront => exact (bump_fills wf hfront nofun rfl none).mono fun _ _ h => h.toShaped
  · next hfront => exact (bump_fills wf hfront nofun rfl none).mono fun _ _ h => h.toShaped
  · exact .nil wf

/-- A command is one node with the field that it is read for. -/
theorem command_fills (shapely : rules.Shapely) (wf : s.scanner.WellFormed) {indented : Bool}
    (hfront : s.front = .commandOpen indented) (field : Option Field) :
    Ensures s (command rules field indented) (Fills (labelled field) s) := by
  rw [command]
  apply Ensures.get
  refine branch_labelled wf rfl rfl (Node.admits_one nofun trivial) ?_
  intro before t passed
  apply Ensures.bind (bump_fills passed.wellFormed (passed.front.trans hfront) nofun rfl none)
  intro opened u hopened
  apply Ensures.setMode
  have hentered : Fills 1 t opened (u.inMode (.commandContent indented)) := hopened.change rfl rfl
  apply Ensures.bind (commandBody_shaped shapely hentered.wellFormed)
  intro contents v hcontents
  apply Ensures.bind (commandEnd_shaped hcontents.wellFormed)
  intro closed w hclosed
  exact ((hentered.append_one hcontents).append_one hclosed).change rfl rfl

/-! ## Recovery -/

/-- A token taken over by an error, with the literal it may open, brings no field. -/
theorem bumpAny_shaped (shapely : rules.Shapely) (wf : s.scanner.WellFormed) :
    Ensures s (bumpAny rules) (Shaped bare s) := by
  rw [bumpAny]
  apply Ensures.peek
  split
  · next hfront =>
    apply (string_fills shapely wf hfront none).mono
    intro nodes t h
    exact h.toShaped.mono Node.one_le_bare
  · next hfront =>
    apply (command_fills shapely wf hfront none).mono
    intro nodes t h
    exact h.toShaped.mono Node.one_le_bare
  · apply (bump_shaped wf none).mono
    intro nodes t h
    exact h.mono Node.atMost_le_bare

/-- An unexpected token leaves one error node with the field of what was expected. -/
theorem errorToken_fills (shapely : rules.Shapely) (wf : s.scanner.WellFormed)
    (field : Option Field) (expected : Expected) :
    Ensures s (errorToken rules field expected) (Fills (labelled field) s) := by
  rw [errorToken]
  apply Ensures.peekToken
  split
  · next hfault =>
    have hfront : ∃ fault, s.front = .errorRecovery fault := by
      change Token.Kind.isErrorRecovery s.front = true at hfault
      cases hkind : s.front <;> rw [hkind] at hfault <;> first | exact ⟨_, rfl⟩ | cases hfault
    obtain ⟨fault, hfront⟩ := hfront
    exact bump_fills wf hfront nofun rfl field
  · apply errorBranch_fills wf
    intro before t passed
    exact bumpAny_shaped shapely passed.wellFormed

/-- What is skipped to the end of the line has no fields. -/
theorem recoverStep_turns (shapely : rules.Shapely) (wf : s.scanner.WellFormed) :
    Ensures s (recoverStep rules ()) (Turns False (fun _ => bare) () s) := by
  rw [recoverStep]
  apply Ensures.isAtLineEnd
  · intro _
    exact .done ((Shaped.nil wf).mono Node.one_le_bare) not_false
  · intro _
    apply Ensures.bind (bumpAny_shaped shapely wf)
    intro nodes t h
    exact .again h Node.bare_mul_bare not_false

/-- The rest of a line that cannot be read is one error node. -/
theorem recoverLine_fills (shapely : rules.Shapely) (wf : s.scanner.WellFormed)
    (expected : Expected) : Ensures s (recoverLine rules expected) (Fills 1 s) := by
  rw [recoverLine]
  apply Ensures.isAtLineEnd
  · intro _
    exact missing_fills wf none expected
  · intro _
    apply Ensures.peekToken
    apply errorBranch_fills wf
    intro before t passed
    exact loop_shaped (fun _ _ => recoverStep_turns shapely) _ () passed.wellFormed

/-- The end of a line is a line break, or one error node over what stands in front of it. -/
theorem lineEnd_shaped (shapely : rules.Shapely) (wf : s.scanner.WellFormed) :
    Ensures s (lineEnd rules) (Shaped 1 s) := by
  rw [lineEnd]
  apply Ensures.peek
  split
  · next hfront => exact (bump_fills wf hfront nofun rfl none).mono fun _ _ h => h.toShaped
  · exact .nil wf
  · exact .nil wf
  · apply Ensures.bind (recoverLine_fills shapely wf _)
    intro wrapped t hwrapped
    apply Ensures.bind (bumpIf_shaped hwrapped.wellFormed .newline nofun rfl)
    rintro newline u ⟨hnewline, -⟩
    exact hwrapped.toShaped.append_one hnewline

/-- What is skipped of a nested expression has no fields, whatever brackets are open. -/
theorem tooDeepStep_turns (shapely : rules.Shapely) (balance : Nat)
    (wf : s.scanner.WellFormed) :
    Ensures s (tooDeepStep rules balance) (Turns False (fun _ => bare) balance s) := by
  have hdone : Turns False (fun _ => bare) balance s ([], none) s :=
    .done ((Shaped.nil wf).mono Node.one_le_bare) not_false
  have hbump : ∀ next, Ensures s (bump >>= fun nodes => pure (nodes, some next))
      (Turns False (fun _ => bare) balance s) := by
    intro next
    apply Ensures.bind (bump_shaped wf none)
    intro nodes t h
    exact .again (h.mono Node.atMost_le_bare) Node.bare_mul_bare not_false
  unfold tooDeepStep
  apply Ensures.peek
  split
  · exact hdone
  · exact hdone
  · exact hdone
  · exact hbump _
  · exact hbump _
  · exact hbump _
  · split
    · exact hdone
    · exact hbump _
  · split
    · exact hdone
    · exact hbump _
  · split
    · exact hdone
    · exact hbump _
  · apply Ensures.bind (bumpAny_shaped shapely wf)
    intro nodes t h
    exact .again h Node.bare_mul_bare not_false

/-- An expression beyond the limit is one error node with the field of the expression. -/
theorem tooDeep_fills (shapely : rules.Shapely) (wf : s.scanner.WellFormed)
    (field : Option Field) : Ensures s (tooDeep rules field) (Fills (labelled field) s) := by
  rw [tooDeep]
  apply errorBranch_fills wf
  intro before t passed
  exact loop_shaped (fun balance _ => tooDeepStep_turns shapely balance) _ 0 passed.wellFormed

end Justfile.Grammar
