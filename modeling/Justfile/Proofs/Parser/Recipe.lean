import Justfile.Proofs.Parser.Expression

/-!
# Building recipes

Headers and bodies are built as they are returned, and so is a recipe around the attributes in front of
it.
-/

set_option autoImplicit false

namespace Justfile.Parser

variable {rules : Rules} {productions : Grammar.Rules} {field : Option Field} {s : Grammar.State}

theorem shebangStep_turns (memory : Unit) (s : Grammar.State) :
    Turns s (shebangStep memory) (Grammar.shebangStep memory) := by
  intro b
  refine .peek ?_
  cases s.front with
  | shebangPath | shebangFlag | language | shebangRest =>
    exact .bind (makes_bump fun _ => rfl) fun _ _ => .again
  | keyword word =>
    cases word with
    | envWord => exact .bind (makes_bump fun _ => rfl) fun _ _ => .again
    | _ => exact .done
  | _ => exact .done

theorem pathStep_turns (memory : Unit) (s : Grammar.State) :
    Turns s (pathStep memory) (Grammar.pathStep memory) := by
  intro b
  refine .ifMark (fun _ => ?_) fun _ => .done
  refine .bind (makes_bump fun _ => rfl) fun sign t => ?_
  refine .ifAt (fun _ => ?_) fun _ => ?_
  · exact .bind (makes_bump fun _ => rfl) fun _ _ => .again
  · exact .bind (makes_missing _) fun _ _ => .done

namespace Rules.Ties

/-- The field that waits goes to the shebang. -/
theorem shebang (ties : rules.Ties productions) :
    Makes field s (shebang rules) (Grammar.shebang productions field) := by
  refine makes_branch fun b t _ => ?_
  refine .bind (makes_bump fun _ => rfl) fun start u => ?_
  refine .bind (ties.loop shebangStep_turns) fun pieces v => ?_
  exact .returned rfl rfl

/-- The field is taken by the path, or by the only name. -/
theorem namePath (ties : rules.Ties productions) {part : Field} (hne : s.front ≠ .endOfInput) :
    Makes (some part) s (namePath rules) (Grammar.namePath productions part) := by
  refine .of_builds fun b => .peekAt (.ite (fun _ => ?_) fun _ => ?_)
  · refine (makes_branch fun b t _ => ?_).builds b []
    refine .bind (makes_bump fun _ => rfl) fun first u => ?_
    refine .bind (ties.loop pathStep_turns) fun more v => ?_
    exact .returned rfl rfl
  · exact (makes_bump fun hend => absurd hend hne).builds b []

/-- The field is set before it shows whether a name follows, and goes to the error if none does. -/
theorem namePathOr (ties : rules.Ties productions) (part : Field) (expected : Expected) :
    Makes none s (namePathOr rules part expected) (Grammar.isAt .identifier >>= fun answer =>
      if answer = true then Grammar.namePath productions part
      else Grammar.missing (some part) expected) := by
  refine .of_builds fun b => .setField (.ifAt (fun hfront => ?_) fun _ => ?_)
  · exact (ties.namePath fun hend => absurd (hfront.symm.trans hend) nofun).builds b []
  · exact (makes_missing expected).builds b []

/-! ## Parameters -/

/-- The sign, the name and the default value of a parameter are built inside its node. -/
theorem parameter (ties : rules.Ties productions) :
    Makes none s (parameter rules) (Grammar.parameter productions) := by
  refine makes_branch fun b t _ => ?_
  refine .bind (makes_bumpIf _) fun sign u => ?_
  refine .bind (makes_expectIdentifier _ _) fun name v => ?_
  refine .ifMarkThen (fun _ => ?_) fun _ => .returned rfl rfl
  simp only [bind_assoc]
  refine .bind (makes_bump fun _ => rfl) fun equals w => .setField ?_
  exact .bind ties.value fun default x => .returned rfl rfl

/-- A parameter behind a sign is built inside the node that the sign opens. -/
theorem parameterOrVariadic (ties : rules.Ties productions) (isVariadic : Bool)
    (hne : s.front ≠ .endOfInput) :
    Makes none s (parameterOrVariadic rules isVariadic)
      (if isVariadic then Grammar.variadicParameter productions else Grammar.parameter productions) := by
  cases isVariadic with
  | false => exact ties.parameter
  | true =>
    refine makes_branch fun b t trimmed => ?_
    have hsign : t.front ≠ .endOfInput := by rwa [trimmed.front]
    refine .bind (makes_bumpField hsign) fun sign u => ?_
    exact .bind ties.parameter fun inner v => .returned rfl rfl

/-- What is wrapped has been built behind the checkpoint when the error node is opened. -/
theorem misplacedParameter (ties : rules.Ties productions) (isVariadic : Bool)
    (hne : s.front ≠ .endOfInput) :
    Makes none s (misplacedParameter rules isVariadic)
      (Grammar.errorBranch none .misplacedVariadic
        (if isVariadic then Grammar.variadicParameter productions
          else Grammar.parameter productions)) := by
  refine .of_builds fun b => .checkpoint fun t trimmed => ?_
  refine .bind (ties.parameterOrVariadic isVariadic (by rwa [trimmed.front])) fun children u => ?_
  refine .offset ?_
  -- The trivia stays in front of the error node, since the checkpoint lies behind it.
  have hwrap : Builds b ([] ++ before s ++ children) none u (do
        startNodeAt (b.current.children ++ ([] ++ before s)).length .error none
        let span ← finishNode
        Grammar.report .misplacedVariadic span) (do
        Grammar.report .misplacedVariadic (Node.branch none .error children u.stream.offset).span
        return [.branch none .error children u.stream.offset]) (before s ++ ·) fun _ => pure () :=
    .rebase fun b' hlength => .wrap hlength.symm (.lastStep rfl rfl (.returned rfl rfl))
  exact hwrap

/-- Behind a variadic parameter each further one is wrapped, and what is remembered is the same. -/
theorem parameterStep (ties : rules.Ties productions) (afterVariadic : Bool) (s : Grammar.State) :
    Turns s (parameterStep rules afterVariadic) (Grammar.parameterStep productions afterVariadic) := by
  intro b
  refine .peek ?_
  cases hstarts : Grammar.startsParameter s.front with
  | none => exact .done
  | some isVariadic =>
    have hne : s.front ≠ .endOfInput := by
      intro hend
      rw [hend] at hstarts
      cases hstarts
    cases afterVariadic with
    | false => exact .bind (ties.parameterOrVariadic isVariadic hne) fun _ _ => .returned rfl rfl
    | true => exact .bind (ties.misplacedParameter isVariadic hne) fun _ _ => .returned rfl rfl

theorem parameters (ties : rules.Ties productions) :
    Makes none s (parameters rules) (Grammar.parameters productions) :=
  makes_branch fun _ _ _ => .last (ties.loop ties.parameterStep)

/-! ## Dependencies -/

theorem dependencyArgumentStep (ties : rules.Ties productions) (memory : Unit) (s : Grammar.State) :
    Turns s (dependencyArgumentStep rules memory)
      (Grammar.dependencyArgumentStep productions memory) := fun _ =>
  .peek (.ite (fun _ => .bind (ties.expression none _) fun _ _ => .again) fun _ => .done)

/-- A dependency in parentheses is built with its name and arguments inside. -/
theorem dependencyExpression (ties : rules.Ties productions) :
    Makes none s (dependencyExpression rules) (Grammar.dependencyExpression productions) := by
  refine makes_branch fun b t _ => ?_
  refine .bind makes_openBracket fun opened u => ?_
  refine .join (ties.namePathOr .name .dependencyName) fun name v => ?_
  refine .bind (ties.loop ties.dependencyArgumentStep) fun arguments w => ?_
  exact .bind (makes_closeBracket .parenR) fun closed x => .returned rfl rfl

/-- A dependency is one node, with parentheses or without. -/
theorem dependency (ties : rules.Ties productions) (hne : s.front ≠ .endOfInput) :
    Makes none s (dependency rules) (Grammar.dependency productions) := by
  refine makes_branch fun b t trimmed => ?_
  have hname : t.front ≠ .endOfInput := by rwa [trimmed.front]
  refine .ifMark (fun _ => .last ties.dependencyExpression) fun _ => .setField ?_
  exact .last (ties.namePath hname)

/-- A dependency is built behind its sign, and a sign alone leaves a mark for it. -/
theorem dependencyStep (ties : rules.Ties productions) (memory : Unit) (s : Grammar.State) :
    Turns s (dependencyStep rules memory) (Grammar.dependencyStep productions memory) := by
  intro b
  have hgo : ∀ {sign : Forest} {t : Grammar.State} {kind : Token.Kind}, t.front = kind →
      kind ≠ .endOfInput → Builds b sign none t (Parser.dependency rules >>= fun _ => again)
        (Grammar.dependency productions >>= fun nodes => Grammar.again (sign ++ nodes)) Prod.fst
        fun result => pure result.2 := by
    rintro sign t _ rfl hne
    exact .bind (ties.dependency hne) fun _ _ => .again
  refine .look rfl ?_
  cases (Grammar.isAtMark .ampAmp s).1 with
  -- Without a sign the list may end here; behind one a dependency is missing.
  | false =>
    simp only [Bool.false_eq_true, if_false, pure_bind]
    refine .peek ?_
    cases hfront : s.front with
    | identifier => exact hgo hfront (by decide)
    | mark sign =>
      cases sign with
      | parenL => exact hgo hfront (by decide)
      | _ => exact .done
    | _ => exact .done
  | true =>
    simp only [if_true]
    refine .bind (makes_bump fun _ => rfl) fun sign t => .peek ?_
    cases hfront : t.front with
    | identifier => exact hgo hfront (by decide)
    | mark sign =>
      cases sign with
      | parenL => exact hgo hfront (by decide)
      | _ => exact .bind (makes_missing _) fun _ _ => .done
    | _ => exact .bind (makes_missing _) fun _ _ => .done

theorem dependencies (ties : rules.Ties productions) :
    Makes none s (dependencies rules) (Grammar.dependencies productions) :=
  makes_branch fun _ _ _ => .last (ties.loop ties.dependencyStep)

/-! ## Header -/

theorem parametersOpt (ties : rules.Ties productions) :
    Makes none s (parametersOpt rules) (Grammar.parametersOpt productions) := by
  refine .of_builds fun b => .peek ?_
  cases Grammar.startsParameter s.front with
  | none => exact .returned rfl rfl
  | some _ => exact ties.parameters.builds b []

theorem dependenciesOpt (ties : rules.Ties productions) :
    Makes none s (dependenciesOpt rules) (Grammar.dependenciesOpt productions) := by
  refine .of_builds fun b => .peek ?_
  cases s.front with
  | identifier => exact ties.dependencies.builds b []
  | mark sign =>
    cases sign with
    | parenL | ampAmp => exact ties.dependencies.builds b []
    | _ => exact .returned rfl rfl
  | _ => exact .returned rfl rfl

/-- Dependencies are built only behind a colon; a mark stands for one that is missing. -/
theorem headerTail (ties : rules.Ties productions) :
    Makes none s (headerTail rules) (Grammar.headerTail productions) := by
  refine .of_builds fun b => ?_
  unfold Parser.headerTail expectMark
  rw [bind_assoc]
  refine .look rfl ?_
  cases (Grammar.isAtMark .colon s).1 with
  | false => exact (makes_missing _).builds b []
  | true =>
    simp only [if_true, bind_assoc, pure_bind]
    refine .bind (makes_bump fun _ => rfl) fun colon t => ?_
    exact .bind_last ties.dependenciesOpt fun nodes u => .returned rfl rfl

/-- A header is one node up to the end of its line. -/
theorem recipeHeader (ties : rules.Ties productions) :
    Makes none s (recipeHeader rules) (Grammar.recipeHeader productions) := by
  refine makes_branch fun b t _ => ?_
  refine .bind (makes_bumpIf _) fun sign u => ?_
  refine .bind (makes_expectIdentifier _ _) fun name v => ?_
  refine .bind ties.parametersOpt fun inputs w => ?_
  exact .bind ties.headerTail fun tail x => .returned rfl rfl

/-! ## Body -/

/-- A piece of a line is text, an interpolation or an error, and the end of the line stays outside. -/
theorem recipeLineStep (ties : rules.Ties productions) (memory : Unit) (s : Grammar.State) :
    Turns s (recipeLineStep rules memory) (Grammar.recipeLineStep productions memory) := by
  intro b
  refine .peek ?_
  cases s.front with
  | text => exact .bind (makes_bump fun _ => rfl) fun _ _ => .again
  | interpolationOpen => exact .bind ties.interpolation fun _ _ => .again
  | newline | dedent | endOfInput => exact .done
  | _ => exact .bind (ties.errorToken .recipeLine) fun _ _ => .again

theorem recipeLine (ties : rules.Ties productions) :
    Makes none s (recipeLine rules) (Grammar.recipeLine productions) := by
  refine makes_branch fun b t _ => ?_
  refine .bind (makes_bumpIf _) fun sign u => ?_
  exact .bind (ties.loop ties.recipeLineStep) fun pieces v => .returned rfl rfl

/-- A line of a body is built with its end behind it, and an empty one as its end alone. -/
theorem recipeBodyStep (ties : rules.Ties productions) (memory : Unit) (s : Grammar.State) :
    Turns s (recipeBodyStep rules memory) (Grammar.recipeBodyStep productions memory) := by
  intro b
  refine .peek ?_
  cases s.front with
  | dedent => exact .bind (makes_bump fun _ => rfl) fun _ _ => .done
  | endOfInput => exact .done
  | newline => exact .bind (makes_bump fun _ => rfl) fun _ _ => .again
  | _ =>
    refine .bind ties.recipeLine fun line t => ?_
    exact .bind (makes_bumpIf _) fun newline u => .again

theorem bodyShebang (ties : rules.Ties productions) :
    Makes none s (bodyShebang rules) (Grammar.bodyShebang productions) := by
  refine .of_builds fun b => .ifAt (fun _ => .setField ?_) fun _ => .returned rfl rfl
  refine .bind ties.shebang fun line t => ?_
  exact .bind_last (makes_bumpIf _) fun newline u => .returned rfl rfl

/-- The field set for the body goes to its node, not to the indentation in it. -/
theorem recipeBody (ties : rules.Ties productions) :
    Makes (some .body) s (recipeBody rules) (Grammar.recipeBody productions) := by
  refine makes_branch fun b t _ => ?_
  refine .bind (makes_bump fun _ => rfl) fun opened u => .step rfl rfl ?_
  refine .bind ties.bodyShebang fun first v => ?_
  exact .bind (ties.loop ties.recipeBodyStep) fun lines w => .returned rfl rfl

theorem recipeBodyOpt (ties : rules.Ties productions) :
    Makes none s (recipeBodyOpt rules) (Grammar.isAt .indent >>= fun answer =>
      if answer = true then Grammar.recipeBody productions else pure []) :=
  .of_builds fun b => .ifAt (fun _ => .setField (ties.recipeBody.builds b []))
    fun _ => .returned rfl rfl

/-- A recipe is opened at the checkpoint, so that the attributes behind it become its children. -/
theorem recipe (ties : rules.Ties productions) {b : Assembler} {adopted : Forest} :
    Builds b adopted none s (recipe rules b.current.children.length)
      (Grammar.recipe productions adopted) id fun _ => pure () := by
  refine builds_enclose fun b => ?_
  refine .bind ties.recipeHeader fun header t => ?_
  refine .bind ties.lineEnd fun ending u => .step rfl rfl ?_
  refine .join ties.recipeBodyOpt fun body v => .step rfl rfl ?_
  exact .returned rfl (by simp only [List.append_assoc])

end Rules.Ties

end Justfile.Parser
