import Justfile.Proofs.Parser.Literal

/-!
# Building expressions

Calls, values and conditionals are built as they are returned. A chain is not: the parser opens a node
for what stands before a sign when the sign comes, at the checkpoint in front of its first operand, and
the grammar hands the operands on from sign to sign. What is held behind the checkpoint is what is handed
on (`builds_chainLoop`).
-/

set_option autoImplicit false

namespace Justfile.Parser

variable {rules : Rules} {productions : Grammar.Rules} {field : Option Field} {s : Grammar.State}

namespace Rules.Ties

/-! ## Calls -/

/-- A comma is built, and behind it an argument, unless the list ends there. -/
theorem argumentStep (ties : rules.Ties productions) (memory : Unit) (s : Grammar.State) :
    Turns s (argumentStep rules memory) (Grammar.argumentStep productions memory) := by
  intro b
  refine .ifMark (fun _ => ?_) fun _ => .done
  refine .bind (makes_bump fun _ => rfl) fun comma t => ?_
  refine .ifMark (fun _ => .done) fun _ => ?_
  exact .bind (ties.expression none _) fun _ _ => .again

theorem arguments (ties : rules.Ties productions) :
    Makes (some .arguments) s (arguments rules) (Grammar.arguments productions) := by
  refine makes_branch fun b t _ => ?_
  refine .bind (ties.expression none _) fun first u => ?_
  refine .bind (ties.loop ties.argumentStep) fun more v => ?_
  exact .returned rfl rfl

theorem argumentsOpt (ties : rules.Ties productions) :
    Makes none s (argumentsOpt rules) (Grammar.peek >>= fun kind =>
      if Grammar.startsExpression kind = true then Grammar.arguments productions else pure []) := by
  refine .of_builds fun b => .peek (.ite (fun _ => .setField ?_) fun _ => .returned rfl rfl)
  exact ties.arguments.builds b []

/-- The name takes the field that is set for it, and the list of arguments the next. -/
theorem functionCall (ties : rules.Ties productions) (hne : s.front ≠ .endOfInput) :
    Makes none s (functionCall rules) (Grammar.functionCall productions) := by
  refine makes_branch fun b t trimmed => ?_
  have hname : t.front ≠ .endOfInput := by rwa [trimmed.front]
  refine .bind (makes_bumpField hname) fun name u => ?_
  refine .bind makes_openBracket fun opened v => ?_
  refine .join ties.argumentsOpt fun inner w => ?_
  refine .bind (makes_closeBracket .parenR) fun closed x => ?_
  exact .returned rfl rfl

/-! ## Values -/

/-- The field that waits goes to the node of the value, whichever kind that has. -/
theorem value (ties : rules.Ties productions) :
    Makes field s (value rules) (Grammar.value productions field) := by
  refine .of_builds fun b => .peek ?_
  have hother : ∀ kind : Token.Kind, Makes field s
      (if kind.endsValue = true then missing .expression else Parser.errorToken rules .expression)
      (if kind.endsValue = true then Grammar.missing field .expression
        else Grammar.errorToken productions field .expression) := by
    intro kind
    split
    · exact makes_missing _
    · exact ties.errorToken _
  cases hfront : s.front with
  | identifier =>
    have hne : s.front ≠ .endOfInput := by
      rw [hfront]
      exact nofun
    -- A name in front of a parenthesis is called.
    refine .peekAt (.ite (fun _ => ?_) fun _ => ?_)
    · refine (makes_branch fun b t trimmed => .last (ties.functionCall ?_)).builds b []
      rwa [trimmed.front]
    · exact (makes_branch fun _ _ _ => .last (makes_bump fun _ => rfl)).builds b []
  | stringOpen dialect =>
    exact (makes_branch fun _ _ _ => .last (ties.string dialect)).builds b []
  | commandOpen indented =>
    exact (makes_branch fun _ _ _ => .last (ties.command indented)).builds b []
  | number =>
    refine (makes_branch fun b t _ => .peekToken ?_).builds b []
    exact .bind (makes_bump fun _ => rfl) fun nodes u => .step rfl rfl (.returned rfl rfl)
  | mark sign =>
    cases sign with
    | parenL =>
      refine (makes_branch fun b t _ => ?_).builds b []
      refine .bind makes_openBracket fun opened u => ?_
      refine .bind (ties.expression none _) fun inner v => ?_
      refine .bind (makes_closeBracket .parenR) fun closed w => ?_
      exact .returned rfl rfl
    | _ => exact (hother _).builds b []
  | errorRecovery fault =>
    exact (makes_bump fun hend => absurd (hfront.symm.trans hend) nofun).builds b []
  | _ => exact (hother _).builds b []

/-! ## Conditionals -/

/-- The field for a branch is set behind its brace, so the brace does not take it. -/
theorem braced (ties : rules.Ties productions) (part : Field) :
    Makes none s (braced rules part) (Grammar.braced productions part) := by
  refine .of_builds fun b => .ifMark (fun _ => ?_) fun _ => ?_
  · refine .bind makes_openBracket fun opened t => .setField ?_
    refine .bind (ties.expression (some part) _) fun inner u => ?_
    exact .bind_last (makes_closeBracket .braceR) fun closed v => .returned rfl rfl
  · refine .bind (makes_missing _) fun opened t => .setField ?_
    exact .bind_last (ties.expression (some part) _) fun inner u => .returned rfl rfl

theorem pattern (ties : rules.Ties productions) :
    Makes none s (pattern rules) (Grammar.pattern productions) := by
  refine .of_builds fun b => .setField (.peek ?_)
  cases s.front with
  | stringOpen dialect =>
    exact (makes_branch fun _ _ _ => .last (ties.string dialect)).builds b []
  | _ => exact (ties.expression (some .right) _).builds b []

/-- The operator is followed by a right side that takes the field set for it. -/
theorem comparison (ties : rules.Ties productions) :
    Makes none s (comparison rules) (Grammar.comparison productions) := by
  refine .of_builds fun b => .peek ?_
  cases s.front with
  | mark sign =>
    cases sign with
    | equalsEquals | bangEquals =>
      refine .bind (makes_bump fun _ => rfl) fun sign t => .setField ?_
      exact .bind_last (ties.expression (some .right) _) fun right u => .returned rfl rfl
    | equalsTilde =>
      refine .bind (makes_bump fun _ => rfl) fun sign t => ?_
      exact .bind_last ties.pattern fun right u => .returned rfl rfl
    | _ => exact .returned rfl rfl
  | _ => exact .returned rfl rfl

/-- A condition is one node around its left side and the comparison, if there is one. -/
theorem condition (ties : rules.Ties productions) :
    Makes none s (condition rules) (Grammar.condition productions) := by
  refine makes_branch fun b t _ => .setField ?_
  refine .bind (ties.expression (some .left) _) fun left u => ?_
  refine .bind ties.comparison fun right v => ?_
  exact .returned rfl rfl

/-- A further branch is one node, and only one with a condition lets others follow. -/
theorem elseStep (ties : rules.Ties productions) (memory : Unit) (s : Grammar.State) :
    Turns s (elseStep rules memory) (Grammar.elseStep productions memory) := by
  intro b
  refine .ifLook rfl (fun _ => .setField (.ifLook rfl (fun _ => ?_) fun _ => ?_)) fun _ => .done
  · refine .branch (fun b t _ => ?_) fun nodes u => .again
    refine .bind (makes_bumpKeyword _) fun first u => ?_
    refine .bind (makes_bumpKeyword _) fun second v => ?_
    refine .bind ties.condition fun test w => ?_
    refine .bind (ties.braced .body) fun body x => ?_
    exact .returned rfl rfl
  · refine .branch (fun b t _ => ?_) fun nodes u => .done
    refine .bind (makes_bumpKeyword _) fun word u => ?_
    refine .bind (ties.braced .body) fun body v => ?_
    exact .returned rfl rfl

/-- A conditional is one node around its keyword, condition and branches. -/
theorem ifExpression (ties : rules.Ties productions) :
    Makes none s (ifExpression rules) (Grammar.ifExpression productions) := by
  refine makes_branch fun b t _ => ?_
  refine .bind (makes_bumpKeyword _) fun word u => ?_
  refine .bind ties.condition fun test v => ?_
  refine .bind (ties.braced .consequence) fun body w => ?_
  refine .bind (ties.loop ties.elseStep) fun more x => ?_
  exact .returned rfl rfl

/-! ## Chains -/

theorem operand (ties : rules.Ties productions) :
    Makes none s (operand rules) (Grammar.operand productions) :=
  .of_builds fun b => .ifLook rfl (fun _ => ties.ifExpression.builds b [])
    fun _ => ties.value.builds b []

end Rules.Ties

/-- The same signs have a right side for both, and it is built as it is returned. -/
def Rights (right? : Token.Kind → Option (Action Unit))
    (production? : Token.Kind → Option (Grammar.Parse Forest)) : Prop :=
  ∀ kind, Option.Rel (fun a p => ∀ s, Makes none s a p) (right? kind) (production? kind)

/-- One step of a loop and what follows the loop. -/
theorem loop_succ_bind {α σ : Type} (step : σ → Action (Option σ)) (fuel : Nat) (memory : σ)
    (g : σ → Action α) :
    (loop step (fuel + 1) memory >>= g) = step memory >>= fun next =>
      match next with
      | none => g memory
      | some next => loop step fuel next >>= g := by
  rw [loop, bind_assoc]
  refine congrArg _ (funext fun next => ?_)
  cases next with
  | none => rfl
  | some next => rfl

/-- From sign to sign, what is held behind the checkpoint is what is handed on. At the end of the chain
the depth goes back by as many signs as there were. -/
theorem builds_chainLoop (ties : rules.Ties productions)
    {right? : Token.Kind → Option (Action Unit)}
    {production? : Token.Kind → Option (Grammar.Parse Forest)} (rights : Rights right? production?)
    {b : Assembler} {checkpoint : Nat} (hcheckpoint : checkpoint = b.current.children.length)
    (fuel wraps : Nat) (nodes : Forest) (s : Grammar.State) :
    Builds b nodes none s
      (loop (chainStep rules right? checkpoint) fuel wraps >>= fun wraps => Grammar.surface wraps)
      (Grammar.chainFrom productions production? fuel wraps nodes) id fun _ => pure () := by
  induction fuel generalizing wraps nodes s with
  -- A loop without budget leaves its mark, and nothing is said of it.
  | zero => exact fun wf => ⟨wf, nofun⟩
  | succ fuel ih =>
    rw [loop_succ_bind, Grammar.chainFrom, chainStep, bind_assoc]
    refine .peek ?_
    have hright := rights s.front
    generalize right? s.front = right at hright ⊢
    generalize production? s.front = production at hright ⊢
    cases hright with
    | none => exact .lastStep rfl rfl (.returned rfl rfl)
    | @some operand production hmakes =>
      have hdepth : (holding b nodes none s).depth = s.depth := rfl
      dsimp only
      rw [bind_assoc, ties.limit]
      refine .getBoth ?_
      rw [hdepth]
      by_cases hdeep : productions.limit ≤ s.depth
      · rw [if_pos hdeep, if_pos hdeep, bind_assoc]
        refine .bind ties.tooDeep fun wrapped t => ?_
        exact .lastStep rfl rfl (.returned rfl rfl)
      · rw [if_neg hdeep, if_neg hdeep]
        simp only [bind_assoc, pure_bind]
        -- What is held becomes the left operand, and is all that is held then.
        refine .offset (.wrap hcheckpoint ?_)
        refine .step rfl rfl (.bind (makes_bump fun _ => rfl) fun sign t => .setField ?_)
        refine .branch (fun b u _ => .last (hmakes u)) fun right u => ?_
        exact ih (wraps + 1) _ u

namespace Rules.Ties

/-- What stands in front of the chain is counted to the builder: the checkpoint lies behind it. -/
theorem chain (ties : rules.Ties productions) {right? : Token.Kind → Option (Action Unit)}
    {production? : Token.Kind → Option (Grammar.Parse Forest)} (rights : Rights right? production?) :
    Makes none s (chain rules right?) (Grammar.chain productions production?) := by
  refine .of_builds fun b => .checkpoint fun t _ => ?_
  refine .bind ties.operand fun first u => .map ?_
  rw [ties.budget]
  exact .rebase fun b' hlength => builds_chainLoop ties rights hlength.symm _ _ _ _

/-- The right side of `/` is a single operand: no sign has a right side there. -/
theorem factor (ties : rules.Ties productions) :
    Makes none s (factor rules) (Grammar.factor productions) :=
  ties.chain fun _ => .none

/-- Within a term `/` goes on with an operand. -/
theorem term (ties : rules.Ties productions) :
    Makes none s (term rules) (Grammar.term productions) := by
  refine ties.chain fun kind => ?_
  cases kind with
  | mark sign =>
    cases sign with
    | slash => exact .some fun t => ties.factor
    | _ => exact .none
  | _ => exact .none

/-- Within a sum `+` goes on with a term, and `/` with an operand. -/
theorem sum (ties : rules.Ties productions) :
    Makes none s (sum rules) (Grammar.sum productions) := by
  refine ties.chain fun kind => ?_
  cases kind with
  | mark sign =>
    cases sign with
    | plus => exact .some fun t => ties.term
    | slash => exact .some fun t => ties.factor
    | _ => exact .none
  | _ => exact .none

/-! ## Expressions -/

/-- Over rules that are tied, the field that waits goes to the expression, or to the error in its
place. -/
theorem makes_expression (ties : rules.Ties productions) :
    Makes field s (Parser.expression rules) (Grammar.expression productions field) := by
  refine .of_builds fun b => .getBoth ?_
  have hdepth : (holding b [] field s).depth = s.depth := rfl
  rw [hdepth, ties.limit]
  refine .ite (fun _ => ties.tooDeep.builds b []) fun _ => .step rfl rfl ?_
  refine .branch (fun b t _ => ?_) fun nodes t => .lastStep rfl rfl (.returned rfl rfl)
  refine .bind (makes_bumpIf _) fun root u => ?_
  exact .bind ties.sum fun operands v => .returned rfl rfl

end Rules.Ties

/-- At the bottom the budget runs out, and the field is left waiting. -/
theorem makes_expressionAt (limit budget fuel : Nat) (field : Option Field) (s : Grammar.State) :
    Makes field s (expressionAt limit budget fuel) (Grammar.expressionAt limit budget fuel field) := by
  induction fuel generalizing field s with
  | zero => exact fun wf => ⟨wf, nofun⟩
  | succ fuel ih => exact Rules.Ties.makes_expression ⟨rfl, rfl, ih⟩

/-- **The parser and the grammar are tied at every depth.** -/
theorem ties_tie (limit budget : Nat) : (Rules.tie limit budget).Ties (.tie limit budget) :=
  ⟨rfl, rfl, makes_expressionAt limit budget budget⟩

end Justfile.Parser
