import Justfile.Proofs.Parser.Builds
import Justfile.Proofs.Simulation.Literal

/-!
# Building literals and error nodes

Strings, commands and interpolations, and what wraps tokens that fit nowhere.
-/

set_option autoImplicit false

namespace Justfile.Parser

variable {rules : Rules} {productions : Grammar.Rules} {field : Option Field} {s : Grammar.State}

/-! ## Literals -/

/-- Two braces are taken from the stream as one token, behind the trivia in front of the first. -/
theorem bumpGlued_eq (hat : s.stream.atGlued (.mark .braceR) (.mark .braceR) = true) (q : Parser)
    (hq : q.toState = s) :
    bumpGlued .interpolationClose q = pushToken s.stream.takeTrivia.1
      ⟨.interpolationClose,
        ⟨s.flushed.step.1.span.start, (s.flushed.step.2.next s.stream.mode).1.span.stop⟩,
        s.flushed.step.1.text ++ (s.flushed.step.2.next s.stream.mode).1.text, none⟩
      { q with stream := { s.stream with scanner := (s.flushed.step.2.next s.stream.mode).2 } } := by
  subst hq
  have hbump := Stream.bumpGlued_of_atGlued .interpolationClose hat rfl nofun
  unfold bumpGlued
  simp only [bind, StateT.bind, get, getThe, MonadStateOf.get, StateT.get, modify, modifyGet,
    MonadStateOf.modifyGet, StateT.modifyGet, pure, hbump]
  rfl

/-- The end of an interpolation is the glued braces, or a mark where they are missing. -/
theorem makes_closeBraces : Makes none s closeBraces Grammar.closeBraces := by
  intro wf
  have onward := Grammar.onward_closeBraces wf
  refine ⟨onward.wellFormed wf, fun hlive => ⟨onward.exhausted ▸ hlive, fun b front => ?_⟩⟩
  rw [Grammar.closeBraces_eq]
  have haction : closeBraces (holding b front none s) =
      (if s.stream.atGlued (.mark .braceR) (.mark .braceR) then bumpGlued .interpolationClose
        else missing (.token .interpolationClose)) (holding b front none s) := rfl
  rw [haction]
  split
  · next hat =>
    rw [bumpGlued_eq hat _ rfl, Grammar.bumpGlued_eq hat, pushToken_holding]
    · rfl
    · exact (Scanner.takes_next _ _).stop_eq
  · rw [missing_holding]
    rfl

/-- A bump leaves the counters of the parser alone. -/
theorem keeps_bump (wf : s.scanner.WellFormed) (field : Option Field) :
    Grammar.Keeps s (Grammar.bump field s).2 := by
  by_cases hend : s.front = .endOfInput
  · unfold Grammar.bump
    rw [Grammar.bumpAs_end hend]
    exact .refl s
  · exact (Grammar.onward_bumpAs wf hend field none).keeps

namespace Rules.Ties

/-- The brackets and the line around an interpolation are looked up behind its opening token by the one, and
in front of it by the other. -/
theorem interpolation (ties : rules.Ties productions) :
    Makes none s (interpolation rules) (Grammar.interpolation productions) := by
  have governs : Grammar.Context.Governs
      ⟨s.stream.mode, s.stream.nesting, s.stream.lineBound, 0, false⟩ s.stream := ⟨rfl, rfl, rfl⟩
  refine Makes.congr ?_ (Grammar.interpolation_eq productions _ governs)
  refine .of_builds fun b => .getParser ?_
  refine (makes_branch fun b t trimmed => .of_wellFormed fun wf => ?_).builds b []
  have keeps := (trimmed.outcome .outside Nat.one_pos).keeps.trans (keeps_bump wf none)
  -- The state behind the opening token stays named, as the counters are looked up in it.
  refine .bind_run (makes_bump fun _ => rfl) ?_
  generalize Grammar.bump none t = opened at keeps ⊢
  refine .step rfl rfl (.getParser (.step rfl rfl ?_))
  refine .bind (ties.expression none _) fun inner u => ?_
  refine .bind makes_closeBraces fun closed v => ?_
  rw [← keeps.nesting, ← keeps.lineBound]
  refine .step rfl rfl (.step rfl rfl ?_)
  exact .returned rfl rfl

/-- A part of a string is built by the step that returns it. -/
theorem stringStep (ties : rules.Ties productions) (memory : Unit) (s : Grammar.State) :
    Turns s (stringStep rules memory) (Grammar.stringStep productions memory) := by
  intro b
  refine .peek ?_
  cases s.front with
  | stringContent | escapeSequence => exact .bind (makes_bump fun _ => rfl) fun _ _ => .again
  | interpolationOpen => exact .bind ties.interpolation fun _ _ => .again
  | stringClose _ | errorRecovery _ => exact .bind (makes_bump fun _ => rfl) fun _ _ => .done
  | _ => exact .done

/-- The delimiters of a string and what stands between them. The mode around it has been looked up before. -/
theorem stringParts (ties : rules.Ties productions) (dialect : Dialect) {previous : Mode}
    (hprevious : previous = s.stream.mode) (rest : Action Unit) (b : Assembler) :
    Builds b [] none s (do
        bump
        Grammar.setMode (.stringContent dialect)
        Parser.loop (Parser.stringStep rules) rules.budget ()
        Grammar.setMode previous
        rest) (Grammar.stringParts productions dialect) id fun _ => rest := by
  subst hprevious
  refine .getState (.bind (makes_bump fun _ => rfl) fun opened t => .step rfl rfl ?_)
  refine .bind (ties.loop ties.stringStep) fun contents u => .step rfl rfl ?_
  exact .returned rfl rfl

/-- The field that waits goes to the string, and not to a part of it. -/
theorem string (ties : rules.Ties productions) (dialect : Dialect) :
    Makes field s (string rules dialect) (Grammar.string productions field dialect) := by
  refine .of_builds fun b => .getParser ?_
  unfold Grammar.string
  cases dialect.isFormat with
  | false =>
    refine (makes_branch fun b t trimmed => ?_).builds b []
    exact ties.stringParts dialect (trimmed.outcome .outside Nat.one_pos).keeps.mode.symm closeNode b
  | true =>
    -- Two nodes: the outer one takes the field, and both are closed behind the delimiter.
    refine (makes_branch fun b t trimmed => ?_).builds b []
    change Builds b [] none t (startNode .formatString >>= fun _ => _) _ id fun _ => closeNode
    refine .lastBranch fun b u more => ?_
    have hmode := (trimmed.outcome .outside Nat.one_pos).keeps.trans
      (more.outcome .outside Nat.one_pos).keeps
    exact ties.stringParts dialect hmode.mode.symm (finishNode >>= fun _ => closeNode) b

theorem stringOr (ties : rules.Ties productions) (expected : Expected) :
    Makes field s (stringOr rules expected) (Grammar.stringOr productions field expected) := by
  refine .of_builds fun b => .peek ?_
  cases s.front with
  | stringOpen dialect => exact (ties.string _).builds b []
  | _ => exact (makes_missing expected).builds b []

theorem commandStep (ties : rules.Ties productions) (memory : Unit) (s : Grammar.State) :
    Turns s (commandStep rules memory) (Grammar.commandStep productions memory) := by
  intro b
  refine .peek ?_
  cases s.front with
  | commandContent => exact .bind (makes_bump fun _ => rfl) fun _ _ => .again
  | interpolationOpen => exact .bind ties.interpolation fun _ _ => .again
  | _ => exact .done

/-- The body of a command is built even where it is empty. -/
theorem commandBody (ties : rules.Ties productions) :
    Makes none s (commandBody rules) (Grammar.commandBody productions) := by
  refine .of_builds fun b => .peek ?_
  cases s.front with
  | commandContent | interpolationOpen =>
    exact (makes_branch fun _ _ _ => .last (ties.loop ties.commandStep)).builds b []
  | _ => exact .returned rfl rfl

theorem commandEnd : Makes none s commandEnd Grammar.commandEnd := by
  refine .of_builds fun b => .peek ?_
  cases s.front with
  | commandClose _ | errorRecovery _ => exact (makes_bump fun _ => rfl).builds b []
  | _ => exact .returned rfl rfl

/-- The field that waits goes to the command. -/
theorem command (ties : rules.Ties productions) (indented : Bool) :
    Makes field s (command rules indented) (Grammar.command productions field indented) := by
  refine .of_builds fun b => .getBoth ?_
  refine (makes_branch fun b t _ => ?_).builds b []
  refine .bind (makes_bump fun _ => rfl) fun opened t => .step rfl rfl ?_
  refine .bind ties.commandBody fun contents u => ?_
  refine .bind commandEnd fun closed v => .step rfl rfl ?_
  exact .returned rfl rfl

/-! ## Error nodes -/

/-- An error takes the token in front with what it opens, and no field of its own waits for them. -/
theorem bumpAny (ties : rules.Ties productions) :
    Makes none s (bumpAny rules) (Grammar.bumpAny productions) := by
  refine .of_builds fun b => .peek ?_
  cases s.front with
  | stringOpen dialect => exact (ties.string dialect).builds b []
  | commandOpen indented => exact (ties.command indented).builds b []
  | _ => exact (makes_bump fun _ => rfl).builds b []

/-- Characters that form no token take the field themselves; what is wrapped leaves it to the error
node. -/
theorem errorToken (ties : rules.Ties productions) (expected : Expected) :
    Makes field s (errorToken rules expected) (Grammar.errorToken productions field expected) := by
  refine .of_builds fun b => .peekToken (.ite (fun hrecovery => ?_) fun _ => ?_)
  · -- There is a token, or the field would be left waiting.
    refine (makes_bump fun hend => ?_).builds b []
    rw [show (s.stream.nth 0).kind = .endOfInput from hend] at hrecovery
    cases hrecovery
  · exact (makes_errorBranch fun _ _ _ => .last ties.bumpAny).builds b []

theorem recoverStep (ties : rules.Ties productions) (memory : Unit) (s : Grammar.State) :
    Turns s (recoverStep rules memory) (Grammar.recoverStep productions memory) := fun _ =>
  .ifLook rfl (fun _ => .done) fun _ => .bind ties.bumpAny fun _ _ => .again

/-- The rest of a line is built inside one error node. -/
theorem recoverLine (ties : rules.Ties productions) (expected : Expected) :
    Makes none s (recoverLine rules expected) (Grammar.recoverLine productions expected) := by
  refine .of_builds fun b => .ifLook rfl (fun _ => ?_) fun _ => .peekToken ?_
  · exact (makes_missing expected).builds b []
  · exact (makes_errorBranch fun _ _ _ => .last (ties.loop ties.recoverStep)).builds b []

/-- Behind a line stands its break, or an error node that the parser and the grammar close alike. -/
theorem lineEnd (ties : rules.Ties productions) :
    Makes none s (lineEnd rules) (Grammar.lineEnd productions) := by
  refine .of_builds fun b => .peek ?_
  cases s.front with
  | newline => exact (makes_bump fun _ => rfl).builds b []
  | endOfInput | dedent => exact .returned rfl rfl
  | _ =>
    refine .bind (ties.recoverLine .endOfLine) fun wrapped t => ?_
    refine .bind_last (makes_bumpIf .newline) ?_
    exact fun newline u => .returned rfl rfl

theorem tooDeepStep (ties : rules.Ties productions) (balance : Nat) (s : Grammar.State) :
    Turns s (tooDeepStep rules balance) (Grammar.tooDeepStep productions balance) := by
  intro b
  refine .peek ?_
  have hother : Builds b [] none s (Parser.bumpAny rules >>= fun _ => pure (some balance))
      (Grammar.bumpAny productions >>= fun nodes => pure (nodes, some balance)) Prod.fst
        fun result => pure result.2 :=
    .bind ties.bumpAny fun _ _ => .returned rfl rfl
  cases s.front with
  | endOfInput | newline | dedent => exact .done
  | mark sign =>
    cases sign with
    | parenL | bracketL | braceL =>
      exact .bind (makes_bump fun _ => rfl) fun _ _ => .returned rfl rfl
    | parenR | bracketR | braceR =>
      cases balance with
      | zero => exact .done
      | succ balance => exact .bind (makes_bump fun _ => rfl) fun _ _ => .returned rfl rfl
    | _ => exact hother
  | _ => exact hother

/-- The field of an expression beyond the limit goes to the error node in its place. -/
theorem tooDeep (ties : rules.Ties productions) :
    Makes field s (tooDeep rules) (Grammar.tooDeep productions field) := by
  unfold Parser.tooDeep Grammar.tooDeep
  rw [ties.limit]
  exact makes_errorBranch fun _ _ _ => .last (ties.loop ties.tooDeepStep)

end Rules.Ties

end Justfile.Parser
