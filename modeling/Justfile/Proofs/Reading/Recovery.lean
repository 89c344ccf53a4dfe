import Justfile.Proofs.Reading.Literal

/-!
# Reading what fits nowhere

Recovery follows the rules of derivations: a wrapped token, the rest of a line, and the rest of a
construct that is nested too deep are error nodes, each reported once. All of them consume something
unless there is nothing to wrap.
-/

set_option autoImplicit false

namespace Justfile.Grammar

variable {rules : Rules} {bound base height : Nat} {s : State}

/-- Outside the contents of literals only their opening tokens touch the flag. -/
theorem Entry.flag?_front {limit : Nat} (entry : Entry limit bound base s)
    (hopens : s.front.opensLiteral = false) : s.front.flag? = none := by
  have trimmed := trimmed_flushed entry.wellFormed
  have hkind := trimmed.step_kind
  rw [← hkind] at hopens ⊢
  exact flag?_of_outer (trimmed.wellFormed entry.wellFormed) entry.outer hopens

/-! ## Single tokens -/

theorem bumpAny_spec (serves : Serves rules bound) (entry : Entry rules.limit (bound + 1) base s)
    (hne : s.front ≠ .endOfInput) (hle : base ≤ height + 1) :
    Ensures s (bumpAny rules) (Reads True .error height s) := by
  have hfour := entry.four_le
  have hcredit : base + 3 ≤ height + Place.error.credit := by
    simp only [Place.credit]
    omega
  have hheight : 3 ≤ height := by omega
  unfold bumpAny
  refine Ensures.peek ?_
  split
  · next hfront => exact string_spec .error serves entry.toAffords hfront hcredit hheight none
  · next hfront => exact command_spec .error serves entry.toAffords hfront hcredit hheight none
  · next hstring hcommand =>
    have hopens : s.front.opensLiteral = false := by
      unfold Token.Kind.opensLiteral
      split
      · next hfront => exact absurd hfront (hstring _)
      · next hfront => exact absurd hfront (hcommand _)
      · rfl
    have hsolid : isSolid .error s.front = true :=
      (isSolid_iff _ _).2 ⟨hne, entry.flag?_front hopens, fun _ => rfl⟩
    refine (bump_spec .error entry.wellFormed rfl hsolid none).mono ?_
    intro nodes t bumped
    exact bumped.reads (by omega)

/-- Characters that form no token are consumed as they are. -/
theorem bump_fault_spec (place : Place) {limit : Nat} (entry : Entry limit bound base s)
    {fault : Fault} (hfront : s.front = .errorRecovery fault) (field : Option Field) :
    Ensures s (bump field) (Bumped place s) := by
  have hopens : s.front.opensLiteral = false := by rw [hfront]; rfl
  have hflag := entry.flag?_front hopens
  rw [hfront] at hflag
  exact bump_spec place entry.wellFormed hfront
    ((isSolid_iff _ _).2 ⟨nofun, hflag, nofun⟩) field

theorem errorToken_spec (place : Place) (serves : Serves rules bound)
    (entry : Entry rules.limit (bound + 1) base s) (hne : s.front ≠ .endOfInput)
    (hle : base ≤ height) (field : Option Field) (expected : Expected) :
    Ensures s (errorToken rules field expected) (Reads True place height s) := by
  have hfour := entry.four_le
  unfold errorToken
  refine Ensures.peekToken ?_
  split
  · next hfault =>
    cases hfront : s.front with
    | errorRecovery fault =>
      refine (bump_fault_spec place entry hfront field).mono ?_
      intro nodes t bumped
      exact bumped.reads (by omega)
    | _ =>
      change s.front.isErrorRecovery = true at hfault
      rw [hfront] at hfault
      cases hfault
  · refine errorBranch_spec (base - 1) entry rfl (by omega) ?_
    intro before t trimmed hentry
    exact bumpAny_spec serves hentry (trimmed.front ▸ hne) (by omega)

/-! ## The rest of a line -/

theorem recoverStep_spec (height : Nat) (serves : Serves rules bound)
    (entry : Entry rules.limit (bound + 1) base s) (hle : base ≤ height + 1) :
    Ensures s (recoverStep rules ()) fun result t =>
      Iterates (fun _ => Entry rules.limit (bound + 1) base) .error height s result t ∧
        (endsLine s.front = false → t.scanner.work < s.scanner.work) := by
  unfold recoverStep
  refine Ensures.isAtLineEnd ?_ ?_
  · intro hend
    exact ⟨.done (.nil .error height s), fun hnot => absurd (hend.symm.trans hnot) nofun⟩
  · intro hnot
    have hne : s.front ≠ .endOfInput := by
      intro hfront
      rw [hfront] at hnot
      cases hnot
    refine (bumpAny_spec serves entry hne hle).bind ?_
    intro nodes t hreads
    exact ⟨.again hreads (entry.after hreads.toRan), fun _ => hreads.work_lt trivial⟩

theorem recoverLine_spec (place : Place) (serves : Serves rules bound)
    (entry : Entry rules.limit (bound + 1) base s) (hle : base ≤ height) (expected : Expected) :
    Ensures s (recoverLine rules expected) (Reads (endsLine s.front = false) place height s) := by
  have hfour := entry.four_le
  unfold recoverLine
  refine Ensures.isAtLineEnd ?_ ?_
  · intro hend
    have hpos : 0 < height := by omega
    refine (missing_spec place s hpos none expected).mono ?_
    intro nodes t houtcome
    refine houtcome.reads ?_
    rw [hend]
    exact nofun
  · intro _
    refine Ensures.peekToken ?_
    refine errorBranch_spec (base - 1) entry rfl (by omega) ?_
    intro before t trimmed hentry
    refine loop_reads (fun _ u hu => (recoverStep_spec _ serves hu (by omega)).mono fun _ _ h => h.1)
      hentry (serves.work_lt hentry.toAffords) ?_
    intro hnot
    refine (recoverStep_spec (base - 1) serves hentry (by omega)).mono ?_
    intro result u h
    exact h.2 (trimmed.front ▸ hnot)

theorem lineEnd_spec (place : Place) (serves : Serves rules bound)
    (entry : Entry rules.limit (bound + 1) base s) (hle : base ≤ height) :
    Ensures s (lineEnd rules) (Outcome place height s) := by
  have hfour := entry.four_le
  have hpos : 0 < height := by omega
  unfold lineEnd
  refine Ensures.peek ?_
  split
  · next hfront =>
    exact (bump_spec place entry.wellFormed hfront rfl none).mono fun _ _ h => h.outcome hpos
  · exact .nil place height s
  · exact .nil place height s
  · refine (recoverLine_spec place serves entry hle .endOfLine).bind ?_
    intro wrapped t hwrapped
    have hentry := entry.after hwrapped.toRan
    refine (bumpIf_spec place hentry.wellFormed rfl hpos).bind ?_
    rintro newline u ⟨hnewline, -⟩
    exact hwrapped.toOutcome.append hnewline.toOutcome

/-! ## Constructs that are nested too deep -/

theorem tooDeepStep_spec (height : Nat) (serves : Serves rules bound)
    (entry : Entry rules.limit (bound + 1) base s) (hle : base ≤ height + 1) (balance : Nat) :
    Ensures s (tooDeepStep rules balance) fun result t =>
      Iterates (fun _ => Entry rules.limit (bound + 1) base) .error height s result t ∧
        (startsExpression s.front = true → t.scanner.work < s.scanner.work) := by
  have hpos : 0 < height := by
    have := entry.four_le
    omega
  -- Three outcomes: the end, another round behind nodes of any kind, and another round behind a bracket.
  have hdone : startsExpression s.front = false →
      Ensures s (done []) fun result t =>
        Iterates (fun (_ : Nat) => Entry rules.limit (bound + 1) base) .error height s result t ∧
          (startsExpression s.front = true → t.scanner.work < s.scanner.work) := by
    intro hnot
    exact ⟨.done (.nil .error height s), fun hstarts => absurd (hnot.symm.trans hstarts) nofun⟩
  have hagain : ∀ (next : Nat) nodes t, Reads True .error height s nodes t →
      Iterates (fun (_ : Nat) => Entry rules.limit (bound + 1) base) .error height s
          (nodes, some next) t ∧
        (startsExpression s.front = true → t.scanner.work < s.scanner.work) := by
    intro next nodes t hreads
    exact ⟨.again hreads (entry.after hreads.toRan), fun _ => hreads.work_lt trivial⟩
  have hbump : ∀ (next : Nat) {sign : Mark}, s.front = .mark sign →
      Ensures s (bump >>= fun nodes => pure (nodes, some next)) fun result t =>
        Iterates (fun (_ : Nat) => Entry rules.limit (bound + 1) base) .error height s result t ∧
          (startsExpression s.front = true → t.scanner.work < s.scanner.work) := by
    intro next sign hfront
    refine (bump_spec .error entry.wellFormed hfront rfl none).bind ?_
    intro nodes t bumped
    exact hagain next nodes t (bumped.reads hpos)
  unfold tooDeepStep
  refine Ensures.peek ?_
  split
  · next hfront => exact hdone (by rw [hfront]; rfl)
  · next hfront => exact hdone (by rw [hfront]; rfl)
  · next hfront => exact hdone (by rw [hfront]; rfl)
  · next hfront => exact hbump _ hfront
  · next hfront => exact hbump _ hfront
  · next hfront => exact hbump _ hfront
  · next hfront =>
    cases balance with
    | zero => exact hdone (by rw [hfront]; rfl)
    | succ balance => exact hbump _ hfront
  · next hfront =>
    cases balance with
    | zero => exact hdone (by rw [hfront]; rfl)
    | succ balance => exact hbump _ hfront
  · next hfront =>
    cases balance with
    | zero => exact hdone (by rw [hfront]; rfl)
    | succ balance => exact hbump _ hfront
  · next hend _ _ _ _ _ _ _ _ =>
    refine (bumpAny_spec serves entry hend hle).bind ?_
    intro nodes t hreads
    exact hagain balance nodes t hreads

theorem tooDeep_spec (place : Place) (serves : Serves rules bound)
    (entry : Entry rules.limit (bound + 1) base s) (hle : base ≤ height) (field : Option Field) :
    Ensures s (tooDeep rules field) (Reads (startsExpression s.front = true) place height s) := by
  have hfour := entry.four_le
  unfold tooDeep
  refine errorBranch_spec (base - 1) entry rfl (by omega) ?_
  intro before t trimmed hentry
  refine loop_reads
    (fun balance u hu => (tooDeepStep_spec _ serves hu (by omega) balance).mono fun _ _ h => h.1)
    hentry (serves.work_lt hentry.toAffords) ?_
  intro hstarts
  refine (tooDeepStep_spec (base - 1) serves hentry (by omega) 0).mono ?_
  intro result u h
  exact h.2 (trimmed.front ▸ hstarts)

end Justfile.Grammar
