import Justfile.Proofs.Shape.Literal

/-!
# Shapes of expressions

The words of chains, conditionals and values. A sign stands between two operands that are
expressions, each sign with those before it in an expression of its own (`operation`); the branches
of a conditional come in order (`clauses`). The production for nested expressions is as shapely as the
rules it is run with, so that the knot can be tied on any budget (`shapely_tie`).
-/

set_option autoImplicit false

namespace Justfile

namespace Node

/-! ## Languages of expressions -/

/-- Two operands around a sign. -/
def operation : Language Part :=
  {w | ∃ sign : Kind, sign.isJoint = true ∧
    w = [(some .left, .expression), (none, sign), (some .right, .expression)]}

/-- A sign in front of all operands. -/
def rooted : Language Part := {[(none, .token (.mark .slash))]}

/-- A comparison and its right side. -/
def comparison : Language Part :=
  {w | ∃ sign side : Kind, sign.isComparison = true ∧ side.isCounted = false ∧
    w = [(none, sign), (some .right, side)]}

/-- The branches of a conditional behind the first one. -/
def clauses : Language Part :=
  {w | ∃ front last, w = front ++ last ∧
    (∀ clause ∈ front, clause = (some .alternative, .elseIfClause)) ∧
    (last = [] ∨ last = [(some .alternative, .elseClause)])}

theorem isComparison_of_not_counted {kind : Kind} (h : kind.isCounted = false) :
    kind.isComparison = false := by
  rw [← Bool.not_eq_true] at h ⊢
  exact fun hcomparison => h (isCounted_of_isComparison kind hcomparison)

/-- An expression has a root or none, and is a single operand or an operation. -/
theorem admits_expression : Kind.expression.Admits ((1 + rooted) * (1 + operation)) := by
  refine ⟨nofun, ?_⟩
  rintro w ⟨front, rfl | rfl, back, rfl | ⟨sign, hsign, rfl⟩, rfl⟩
  · exact ⟨by simp [Sparse], .inl (by simp)⟩
  · exact ⟨by simp [Sparse, Field.isShared], .inr ⟨[], [(none, sign)], [], rfl, by simp [hsign]⟩⟩
  · exact ⟨by simp [Sparse], .inl (by simp [Part.hasField])⟩
  · refine ⟨by simp [Sparse, Field.isShared], .inr ?_⟩
    exact ⟨[(none, .token (.mark .slash))], [(none, sign)], [], rfl, by simp [hsign]⟩

theorem admits_operands : Kind.expression.Admits (1 + operation) := by
  apply admits_expression.mono
  rintro w h
  exact ⟨[], .inl rfl, w, h, rfl⟩

/-- A call has a name, and arguments or none. -/
theorem admits_functionCall :
    Kind.functionCall.Admits (labelled (some .name) * (1 + labelled (some .arguments))) := by
  refine ⟨nofun, ?_⟩
  rintro w ⟨_, ⟨name, -, rfl⟩, _, rfl | ⟨arguments, -, rfl⟩, rfl⟩ <;>
    simp [Sparse, Schema, Once, Part.hasField, Field.isShared]

/-- A condition has a left side, and a comparison or none. -/
theorem admits_condition :
    Kind.condition.Admits (labelled (some .left) * (1 + comparison)) := by
  refine ⟨nofun, ?_⟩
  rintro w ⟨_, ⟨left, hleft, rfl⟩, _, rfl | ⟨sign, right, hsign, hright, rfl⟩, rfl⟩
  · have hnone := isComparison_of_not_counted hleft
    simp [Sparse, Schema, Once, Part.hasField, Field.isShared, hnone]
  · simp [Sparse, Schema, Once, Part.hasField, Field.isShared, hsign]

theorem admits_elseClause : Kind.elseClause.Admits (labelled (some .body)) := by
  refine ⟨nofun, ?_⟩
  rintro w ⟨body, -, rfl⟩
  simp [Sparse, Schema, Once, Part.hasField, Field.isShared]

theorem admits_elseIfClause :
    Kind.elseIfClause.Admits (one none .condition * labelled (some .body)) := by
  refine ⟨nofun, ?_⟩
  rintro w ⟨_, rfl, _, ⟨body, -, rfl⟩, rfl⟩
  simp [Part.isCounted, Kind.isCounted, Sparse, Schema, Once, Part.hasField, Field.isShared]

/-- Behind the first branch there is neither a condition nor another first branch. -/
theorem of_mem_clauses {w : List Part} (h : w ∈ clauses) :
    ∀ clause ∈ w, clause.1 = some .alternative ∧ clause.2 ≠ .condition := by
  obtain ⟨front, last, rfl, hfront, hlast⟩ := h
  intro clause hmem
  rcases List.mem_append.1 hmem with hmem | hmem
  · rw [hfront clause hmem]
    exact ⟨rfl, nofun⟩
  · rcases hlast with rfl | rfl
    · cases hmem
    · rw [List.mem_singleton.1 hmem]
      exact ⟨rfl, nofun⟩

/-- A conditional has a condition, a consequence and further branches. -/
theorem admits_ifExpression :
    Kind.ifExpression.Admits (one none .condition * (labelled (some .consequence) * clauses)) := by
  refine ⟨nofun, ?_⟩
  rintro w ⟨_, rfl, _, ⟨_, ⟨body, hbody, rfl⟩, more, hmore, rfl⟩, rfl⟩
  have hclause := of_mem_clauses hmore
  have hfields : (more.filterMap Prod.fst).filter (!·.isShared) = [] := by
    rw [List.filter_eq_nil_iff]
    intro field hmem
    obtain ⟨clause, hmem, hfield⟩ := List.mem_filterMap.1 hmem
    rw [(hclause clause hmem).1] at hfield
    cases hfield
    exact nofun
  have htests : more.countP (·.2 == .condition) = 0 := by
    rw [List.countP_eq_zero]
    intro clause hmem
    simpa using (hclause clause hmem).2
  have hbodies : more.countP (Part.hasField .consequence) = 0 := by
    rw [List.countP_eq_zero]
    intro clause hmem
    simp [Part.hasField, (hclause clause hmem).1]
  have halternatives : more.filter (Part.hasField .alternative) = more := by
    rw [List.filter_eq_self]
    intro clause hmem
    simp [Part.hasField, (hclause clause hmem).1]
  have hne : body ≠ .condition := by
    rintro rfl
    cases hbody
  refine ⟨?_, ?_, ?_, ?_⟩
  · have hbody : Field.isShared .consequence = false := rfl
    simp [Part.isCounted, Kind.isCounted, Sparse, hbody, hfields]
  · simp [Part.isCounted, Kind.isCounted, htests, hne]
  · simp [Part.isCounted, Kind.isCounted, Once, Part.hasField, hbodies]
  · obtain ⟨front, last, rfl, hfront, hlast⟩ := hmore
    refine ⟨front, last, ?_, ?_, ?_, ?_⟩
    · simpa [Part.isCounted, Kind.isCounted, Part.hasField] using halternatives
    · intro clause hmem
      rw [hfront clause hmem]
    · rcases hlast with rfl | rfl <;> simp
    · rcases hlast with rfl | rfl <;> simp

/-- A further branch goes in front of others. -/
theorem elseIf_mul_clauses : one (some .alternative) .elseIfClause * clauses ≤ clauses := by
  rw [one_some]
  rintro w ⟨_, rfl, _, ⟨front, last, rfl, hfront, hlast⟩, rfl⟩
  refine ⟨(some .alternative, .elseIfClause) :: front, last, rfl, ?_, hlast⟩
  intro clause hmem
  rcases List.mem_cons.1 hmem with rfl | hmem
  · rfl
  · exact hfront clause hmem

theorem else_le_clauses : one (some .alternative) .elseClause ≤ clauses := by
  rw [one_some]
  rintro w rfl
  exact ⟨[], _, rfl, List.forall_mem_nil _, .inr rfl⟩

theorem one_le_clauses : 1 ≤ clauses := by
  rintro w rfl
  exact ⟨[], [], rfl, List.forall_mem_nil _, .inl rfl⟩

end Node

namespace Grammar

open Justfile.Node (labelled one operation rooted clauses)

variable {rules : Rules} {s : State}

/-! ## Calls and values -/

theorem argumentStep_turns (shapely : rules.Shapely) (wf : s.scanner.WellFormed) :
    Ensures s (argumentStep rules ()) (Turns False (fun _ => 1) () s) := by
  rw [argumentStep]
  apply Ensures.isAtMark
  · intro hfront
    apply Ensures.bind (bump_fills wf hfront nofun rfl none)
    intro comma t hcomma
    apply Ensures.isAtMark
    · intro _
      exact .done_fills hcomma
    · intro _
      apply Ensures.bind (shapely none t hcomma.wellFormed)
      intro argument u hargument
      exact .again_fills (hcomma.append_one hargument.toShaped) (one_mul 1).le
  · intro _
    exact .done (.nil wf) not_false

/-- Arguments are one node with its field. -/
theorem arguments_fills (shapely : rules.Shapely) (wf : s.scanner.WellFormed) :
    Ensures s (arguments rules) (Fills (labelled (some .arguments)) s) := by
  rw [arguments]
  refine branch_labelled wf rfl rfl (Node.admits_one nofun trivial) ?_
  intro before t passed
  apply Ensures.bind (shapely none t passed.wellFormed)
  intro first u hfirst
  apply Ensures.bind (loop_shaped (fun _ _ => argumentStep_turns shapely) _ () hfirst.wellFormed)
  intro more v hmore
  exact hfirst.append_one hmore

/-- A call is one node, with a name and at most one list of arguments. -/
theorem functionCall_fills (shapely : rules.Shapely) (wf : s.scanner.WellFormed)
    (hname : s.front = .identifier) (hparen : (s.stream.nth 1).kind = .mark .parenL) :
    Ensures s (functionCall rules) (Fills 1 s) := by
  rw [functionCall]
  refine branch_labelled wf rfl rfl Node.admits_functionCall ?_
  intro before t passed
  have hfront : t.front = .identifier := passed.front.trans hname
  apply Ensures.bind (bump_taken passed.wellFormed (by rw [hfront]; exact nofun) _)
  intro name u taken
  have hnamed : Fills (labelled (some .name)) t name u :=
    taken.mono (Node.one_le_labelled (by rw [hfront]; rfl) _)
  have hopen : u.front = .mark .parenL := by rw [taken.front, passed.nth, hparen]
  apply Ensures.bind (openBracket_fills taken.wellFormed hopen rfl)
  intro opened v hopened
  apply Ensures.peek
  apply Ensures.join (P := Shaped (1 + labelled (some .arguments)) v)
  · intro _
    apply (arguments_fills shapely hopened.wellFormed).mono
    intro nodes w h
    exact h.toShaped.mono le_add_self
  · intro _
    exact (Shaped.nil hopened.wellFormed).mono le_self_add
  · intro inner w hinner
    apply Ensures.bind (closeBracket_fills hinner.wellFormed rfl)
    intro closed x hclosed
    exact ((hnamed.append_one hopened.toShaped).append hinner).append_one hclosed.toShaped

theorem parenthesized_fills (shapely : rules.Shapely) (wf : s.scanner.WellFormed)
    (hfront : s.front = .mark .parenL) : Ensures s (parenthesized rules) (Fills 1 s) := by
  rw [parenthesized]
  apply Ensures.bind (openBracket_fills wf hfront rfl)
  intro opened t hopened
  apply Ensures.bind (shapely none t hopened.wellFormed)
  intro inner u hinner
  apply Ensures.bind (closeBracket_fills hinner.wellFormed rfl)
  intro closed v hclosed
  exact (hopened.append_one hinner.toShaped).append_one hclosed.toShaped

theorem bareNumber_fills (wf : s.scanner.WellFormed) (hfront : s.front = .number) :
    Ensures s bareNumber (Fills 1 s) := by
  rw [bareNumber]
  apply Ensures.peekToken
  apply Ensures.bind (bump_fills wf hfront nofun rfl none)
  intro nodes t h
  exact h.change rfl rfl

/-- A value is one node with the field that it is read for, also where none is found. -/
theorem value_fills (shapely : rules.Shapely) (wf : s.scanner.WellFormed) (field : Option Field) :
    Ensures s (value rules field) (Fills (labelled field) s) := by
  have hbranch : ∀ body : Parse Forest,
      (∀ before t, Passed s before t → Ensures t body (Fills 1 t)) →
        Ensures s (branch field .value body) (Fills (labelled field) s) := fun body hbody =>
    branch_labelled wf rfl rfl (Node.admits_one nofun trivial) hbody
  rw [value]
  apply Ensures.peek
  split
  · next hfront =>
    apply Ensures.peekAt
    split
    · next hparen =>
      apply hbranch
      intro before t passed
      apply functionCall_fills shapely passed.wellFormed (passed.front.trans hfront)
      rw [passed.nth]
      exact beq_iff_eq.1 hparen
    · apply hbranch
      intro before t passed
      exact bump_fills passed.wellFormed (passed.front.trans hfront) nofun rfl none
  · next hfront =>
    apply hbranch
    intro before t passed
    exact string_fills shapely passed.wellFormed (passed.front.trans hfront) none
  · next hfront =>
    apply hbranch
    intro before t passed
    exact command_fills shapely passed.wellFormed (passed.front.trans hfront) none
  · next hfront =>
    apply hbranch
    intro before t passed
    exact bareNumber_fills passed.wellFormed (passed.front.trans hfront)
  · next hfront =>
    apply hbranch
    intro before t passed
    exact parenthesized_fills shapely passed.wellFormed (passed.front.trans hfront)
  · next hfront => exact bump_fills wf hfront nofun rfl field
  · split
    · exact missing_fills wf field _
    · exact errorToken_fills shapely wf field _

/-! ## Conditionals -/

/-- A branch between braces is one expression with its field. -/
theorem braced_fills (shapely : rules.Shapely) (wf : s.scanner.WellFormed) (field : Field) :
    Ensures s (braced rules field) (Fills (labelled (some field)) s) := by
  rw [braced]
  apply Ensures.isAtMark
  · intro hfront
    apply Ensures.bind (openBracket_fills wf hfront rfl)
    intro opened t hopened
    apply Ensures.bind (shapely (some field) t hopened.wellFormed)
    intro inner u hinner
    apply Ensures.bind (closeBracket_fills hinner.wellFormed rfl)
    intro closed v hclosed
    exact (hopened.one_append hinner.toShaped).append_one hclosed.toShaped
  · intro _
    apply Ensures.bind (missing_fills wf none _)
    intro opened t hopened
    apply Ensures.bind (shapely (some field) t hopened.wellFormed)
    intro inner u hinner
    exact hopened.one_append hinner.toShaped

theorem pattern_fills (shapely : rules.Shapely) (wf : s.scanner.WellFormed) :
    Ensures s (pattern rules) (Fills (labelled (some .right)) s) := by
  rw [pattern]
  apply Ensures.peek
  split
  · next hfront =>
    refine branch_labelled wf rfl rfl (Node.admits_one nofun trivial) ?_
    intro before t passed
    exact string_fills shapely passed.wellFormed (passed.front.trans hfront) none
  · exact shapely (some .right) s wf

/-- A comparison that is followed by its right side. -/
theorem compared_shaped (wf : s.scanner.WellFormed) {sign : Mark} (hfront : s.front = .mark sign)
    (hsign : (Node.Kind.token (.mark sign)).isComparison = true) {right : Parse Forest}
    (hright : ∀ t, t.scanner.WellFormed → Ensures t right (Fills (labelled (some .right)) t)) :
    Ensures s (do let nodes ← bump; let more ← right; return nodes ++ more)
      (Shaped (1 + Node.comparison) s) := by
  apply Ensures.bind (bump_taken wf (by rw [hfront]; exact nofun) none)
  intro nodes t taken
  apply Ensures.bind (hright t taken.wellFormed)
  intro more u hmore
  apply (taken.append hmore.toShaped).toShaped.mono
  rintro w ⟨_, rfl, _, ⟨side, hside, rfl⟩, rfl⟩
  refine .inr ⟨.token (.mark sign), side, hsign, hside, ?_⟩
  have hcounted := Node.isCounted_of_isComparison _ hsign
  simp [hfront, Node.Kind.ofToken, Node.Part.isCounted, hcounted]

/-- A comparison is an operator with a right side behind it, or nothing. -/
theorem comparison_shaped (shapely : rules.Shapely) (wf : s.scanner.WellFormed) :
    Ensures s (comparison rules) (Shaped (1 + Node.comparison) s) := by
  rw [comparison]
  apply Ensures.peek
  split
  · next hfront => exact compared_shaped wf hfront rfl fun t => shapely (some .right) t
  · next hfront => exact compared_shaped wf hfront rfl fun t => shapely (some .right) t
  · next hfront => exact compared_shaped wf hfront rfl fun t => pattern_fills shapely
  · exact (Shaped.nil wf).mono le_self_add

/-- A condition is one node of its kind. -/
theorem condition_fills (shapely : rules.Shapely) (wf : s.scanner.WellFormed) :
    Ensures s (condition rules) (Fills (one none .condition) s) := by
  rw [condition]
  refine branch_fills wf rfl Node.admits_condition ?_
  intro before t passed
  apply Ensures.bind (shapely (some .left) t passed.wellFormed)
  intro left u hleft
  apply Ensures.bind (comparison_shaped shapely hleft.wellFormed)
  intro right v hright
  exact hleft.append hright

/-- After a last branch there is none further, so branches stay a list of clauses. -/
theorem elseStep_turns (shapely : rules.Shapely) (wf : s.scanner.WellFormed) :
    Ensures s (elseStep rules ()) (Turns False (fun _ => clauses) () s) := by
  rw [elseStep]
  apply Ensures.isKeywordAt
  · intro hword
    have hfront : s.front ≠ .endOfInput := by
      change (s.stream.nth 0).kind ≠ _
      rw [hword]
      exact nofun
    apply Ensures.isKeywordAt
    · intro _
      apply Ensures.bind (P := Fills (one (some .alternative) .elseIfClause) s)
      · refine branch_fills wf rfl Node.admits_elseIfClause ?_
        intro before t passed
        apply Ensures.bind (bumpKeyword_fills passed.wellFormed (passed.front ▸ hfront) _)
        intro first u hfirst
        apply Ensures.bind (bumpKeyword_shaped hfirst.wellFormed _)
        intro second v hsecond
        apply Ensures.bind (condition_fills shapely hsecond.wellFormed)
        intro test w htest
        apply Ensures.bind (braced_fills shapely htest.wellFormed _)
        intro body x hbody
        exact ((hfirst.append_one hsecond).one_append htest.toShaped).append hbody.toShaped
      · intro nodes t h
        exact .again_fills h Node.elseIf_mul_clauses
    · apply Ensures.bind (P := Fills (one (some .alternative) .elseClause) s)
      · refine branch_fills wf rfl Node.admits_elseClause ?_
        intro before t passed
        apply Ensures.bind (bumpKeyword_fills passed.wellFormed (passed.front ▸ hfront) _)
        intro word u hword
        apply Ensures.bind (braced_fills shapely hword.wellFormed _)
        intro body v hbody
        exact hword.one_append hbody.toShaped
      · intro nodes t h
        exact .done_fills (h.mono Node.else_le_clauses)
  · exact .done ((Shaped.nil wf).mono Node.one_le_clauses) not_false

/-- A conditional is one node. -/
theorem ifExpression_fills (shapely : rules.Shapely) (wf : s.scanner.WellFormed) :
    Ensures s (ifExpression rules) (Fills 1 s) := by
  rw [ifExpression]
  refine branch_labelled wf rfl rfl Node.admits_ifExpression ?_
  intro before t passed
  apply Ensures.bind (bumpKeyword_shaped passed.wellFormed _)
  intro word u hword
  apply Ensures.bind (condition_fills shapely hword.wellFormed)
  intro test v htest
  apply Ensures.bind (braced_fills shapely htest.wellFormed _)
  intro body w hbody
  apply Ensures.bind (loop_shaped (fun _ _ => elseStep_turns shapely) _ () hbody.wellFormed)
  intro more x hmore
  have hall := (hword.one_append_fills htest).append (hbody.append hmore).toShaped
  rw [← List.append_assoc] at hall
  exact hall

theorem operand_fills (shapely : rules.Shapely) (wf : s.scanner.WellFormed) :
    Ensures s (operand rules) (Fills 1 s) := by
  rw [operand]
  apply Ensures.isKeywordAt
  · intro _
    exact ifExpression_fills shapely wf
  · exact value_fills shapely wf none

/-! ## Chains -/

/-- What may stand on the right of a sign. -/
def Joins (right? : Token.Kind → Option (Parse Forest)) : Prop :=
  ∀ kind operand, right? kind = some operand → (Node.Kind.ofToken kind).isJoint = true ∧
    ∀ s : State, s.scanner.WellFormed → Ensures s operand (Fills (1 + operation) s)

/-- What a sign joins is an operation with both its sides. -/
theorem operation_of_parts {sign : Node.Kind} (hsign : sign.isJoint = true) :
    one (some .left) .expression * one none sign * one (some .right) .expression ≤
      1 + operation := by
  rintro w ⟨_, ⟨_, rfl, _, rfl, rfl⟩, _, rfl, rfl⟩
  refine .inr ⟨sign, hsign, ?_⟩
  have hcounted := Node.isCounted_of_isJoint sign hsign
  simp [Node.Part.isCounted, hcounted]

/-- A chain stays one operand or operation with each sign. -/
theorem chainFrom_fills (shapely : rules.Shapely) {right? : Token.Kind → Option (Parse Forest)}
    (joins : Joins right?) {r : State} (flush : r.stream.Flush) {fuel wraps : Nat} {nodes : Forest}
    (h : Fills (1 + operation) r nodes s) :
    Ensures s (chainFrom rules right? fuel wraps nodes) (Fills (1 + operation) r) := by
  induction fuel generalizing nodes s wraps with
  | zero => exact ⟨⟨h.wellFormed, nofun, nofun⟩, nofun⟩
  | succ fuel ih =>
    rw [chainFrom]
    apply Ensures.peek
    split
    · exact h.surface wraps
    · next operand heq =>
      obtain ⟨hsign, hoperand⟩ := joins _ _ heq
      apply Ensures.get
      split
      · apply Ensures.bind (tooDeep_fills shapely h.wellFormed none)
        intro wrapped t hwrapped
        exact (h.append_one hwrapped.toShaped).surface wraps
      · apply Ensures.offset
        apply Ensures.modify
        -- The operands so far go into an expression, which is the left one from now on.
        have hleft : Fills (one (some .left) .expression) r
            [.branch (some .left) .expression nodes s.stream.offset] (s.atDepth (s.depth + 1)) :=
          (h.node flush (fun _ hword => Node.admits_operands.regular hword _) rfl _).change rfl rfl
        have hfront : (s.atDepth (s.depth + 1)).front ≠ .endOfInput := by
          intro hend
          rw [show s.front = .endOfInput from hend] at hsign
          cases hsign
        apply Ensures.bind (bump_taken hleft.wellFormed hfront none)
        intro sign t taken
        apply Ensures.bind (P := Fills (one (some .right) .expression) t)
        · refine branch_fills taken.wellFormed rfl Node.admits_operands ?_
          intro before u passed
          exact hoperand u passed.wellFormed
        · intro right u hright
          have hall := (hleft.append taken.toShaped).append hright.toShaped
          exact ih (hall.mono (operation_of_parts hsign))

theorem chain_fills (shapely : rules.Shapely) {right? : Token.Kind → Option (Parse Forest)}
    (joins : Joins right?) (wf : s.scanner.WellFormed) :
    Ensures s (chain rules right?) (Fills (1 + operation) s) := by
  rw [chain]
  apply Ensures.bind (trivia_passed wf)
  intro before t passed
  apply Ensures.bind (operand_fills shapely passed.wellFormed)
  intro first u hfirst
  apply Ensures.bind (chainFrom_fills shapely joins passed.flush (hfirst.mono le_self_add))
  intro nodes v h
  exact passed.append h

theorem factor_fills (shapely : rules.Shapely) (wf : s.scanner.WellFormed) :
    Ensures s (factor rules) (Fills (1 + operation) s) :=
  chain_fills shapely nofun wf

theorem term_fills (shapely : rules.Shapely) (wf : s.scanner.WellFormed) :
    Ensures s (term rules) (Fills (1 + operation) s) := by
  refine chain_fills shapely ?_ wf
  intro kind operand heq
  obtain ⟨rfl, rfl⟩ := termRight?_eq_some heq
  exact ⟨rfl, fun t => factor_fills shapely⟩

theorem sum_fills (shapely : rules.Shapely) (wf : s.scanner.WellFormed) :
    Ensures s (sum rules) (Fills (1 + operation) s) := by
  refine chain_fills shapely ?_ wf
  intro kind operand heq
  obtain ⟨rfl, rfl⟩ | ⟨rfl, rfl⟩ := sumRight?_eq_some heq
  · exact ⟨rfl, fun t => term_fills shapely⟩
  · exact ⟨rfl, fun t => factor_fills shapely⟩

/-! ## Expressions -/

theorem bumpRoot_shaped (wf : s.scanner.WellFormed) :
    Ensures s (bumpIf (.mark .slash)) (Shaped (1 + rooted) s) := by
  rw [bumpIf]
  apply Ensures.isAt
  · intro hfront
    have hne : s.front ≠ .endOfInput := by
      rw [hfront]
      decide
    apply (bump_taken wf hne none).mono
    intro nodes t taken
    have hshaped := taken.toShaped
    rw [hfront] at hshaped
    exact hshaped.mono le_add_self
  · intro _
    exact (Shaped.nil wf).mono le_self_add

/-- An expression is one node with the field that it is read for. -/
theorem expression_fills (shapely : rules.Shapely) (wf : s.scanner.WellFormed)
    (field : Option Field) :
    Ensures s (expression rules field) (Fills (labelled field) s) := by
  rw [expression]
  apply Ensures.get
  split
  · exact tooDeep_fills shapely wf field
  · refine deeper_fills fun t hsame => ?_
    refine branch_labelled (hsame ▸ wf) rfl rfl Node.admits_expression ?_
    intro before t passed
    apply Ensures.bind (bumpRoot_shaped passed.wellFormed)
    intro root u hroot
    apply Ensures.bind (sum_fills shapely hroot.wellFormed)
    intro nodes v h
    exact hroot.append_fills h

theorem shapely_expressionAt (limit budget fuel : Nat) :
    Rules.Shapely ⟨limit, budget, expressionAt limit budget fuel⟩ := by
  induction fuel with
  | zero =>
    intro field s wf
    exact ⟨⟨wf, nofun, nofun⟩, nofun⟩
  | succ fuel ih =>
    intro field s wf
    exact expression_fills ih wf field

/-- **At every depth the rules give expressions with the field that is asked for.** -/
theorem shapely_tie (limit budget : Nat) : (Rules.tie limit budget).Shapely :=
  shapely_expressionAt limit budget budget

end Grammar

end Justfile
