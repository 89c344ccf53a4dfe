import Justfile.Proofs.Reading.Expression

/-!
# Reading recipes

Recipes follow the rules of derivations. Headers and body lines leave the context as they found it;
a body is read in a mode of its own, which the recipe around it leaves again.
-/

set_option autoImplicit false

namespace Justfile.Grammar

variable {rules : Rules} {bound base height : Nat} {s : State}

/-! ## Shebang lines and paths -/

theorem shebangStep_spec (place : Place) {limit : Nat} (entry : Entry limit (bound + 1) base s)
    (hpos : 0 < height) :
    Ensures s (shebangStep ())
      (Iterates (fun _ => Entry limit (bound + 1) base) place height s) := by
  have hbump : ∀ {kind : Token.Kind}, s.front = kind → isSolid place kind = true →
      Ensures s (bump >>= again)
        (Iterates (fun _ => Entry limit (bound + 1) base) place height s) := by
    intro kind hfront hsolid
    refine (bump_spec place entry.wellFormed hfront hsolid none).bind ?_
    intro nodes t bumped
    exact .again (bumped.reads hpos) (entry.after (bumped.outcome hpos).toRan)
  unfold shebangStep
  refine Ensures.peek ?_
  split
  · next hfront => exact hbump hfront rfl
  · next hfront => exact hbump hfront rfl
  · next hfront => exact hbump hfront rfl
  · next hfront => exact hbump hfront rfl
  · next hfront => exact hbump hfront rfl
  · exact .done (.nil place height s)

theorem shebang_spec (place : Place) (serves : Serves rules bound)
    (entry : Entry rules.limit (bound + 1) base s) (hfront : s.front = .shebangStart)
    (hlt : 1 < height) (field : Option Field) :
    Ensures s (shebang rules field) (Reads True place height s) := by
  unfold shebang
  refine branch_reads 1 entry rfl hlt ?_
  intro before t trimmed hentry
  refine (bump_spec place.below hentry.wellFormed (trimmed.front ▸ hfront) rfl none).bind ?_
  intro start u bumped
  have hu := hentry.after (bumped.outcome Nat.one_pos).toRan
  refine (loop_outcome (fun _ v hv => shebangStep_spec place.below hv Nat.one_pos) hu
    (serves.work_lt hu.toAffords)).bind ?_
  intro pieces v hpieces
  exact (bumped.reads Nat.one_pos).append hpieces

theorem pathStep_spec (place : Place) {limit : Nat} (entry : Entry limit (bound + 1) base s)
    (hpos : 0 < height) :
    Ensures s (pathStep ()) (Iterates (fun _ => Entry limit (bound + 1) base) place height s) := by
  unfold pathStep
  refine Ensures.isAtMark ?_ ?_
  · intro hfront
    refine (bump_spec place entry.wellFormed hfront rfl none).bind ?_
    intro sign t bumped
    have ht := entry.after (bumped.outcome hpos).toRan
    refine Ensures.isAt ?_ ?_
    · intro hname
      refine (bump_spec place ht.wellFormed hname rfl none).bind ?_
      intro name u hnamed
      have hreads := (bumped.reads hpos (c := True)).append (hnamed.outcome hpos)
      exact .again hreads (entry.after hreads.toRan)
    · intro _
      refine (missing_spec place t hpos none _).bind ?_
      intro name u hmissing
      exact .done ((bumped.outcome hpos).append hmissing)
  · intro _
    exact .done (.nil place height s)

theorem namePath_spec (place : Place) (serves : Serves rules bound)
    (entry : Entry rules.limit (bound + 1) base s) (hfront : s.front = .identifier)
    (hlt : 1 < height) (field : Field) :
    Ensures s (namePath rules field) (Reads True place height s) := by
  unfold namePath
  refine Ensures.peekAt ?_
  split
  · refine branch_reads 1 entry rfl hlt ?_
    intro before t trimmed hentry
    refine (bump_spec place.below hentry.wellFormed (trimmed.front ▸ hfront) rfl none).bind ?_
    intro first u bumped
    have hu := hentry.after (bumped.outcome Nat.one_pos).toRan
    refine (loop_outcome (fun _ v hv => pathStep_spec place.below hv Nat.one_pos) hu
      (serves.work_lt hu.toAffords)).bind ?_
    intro more v hmore
    exact (bumped.reads Nat.one_pos).append hmore
  · refine (bump_spec place entry.wellFormed hfront rfl _).mono ?_
    intro nodes t bumped
    exact bumped.reads (by omega)

/-! ## Parameters -/

theorem parameter_spec (place : Place) (serves : Serves rules bound)
    (entry : Entry rules.limit (bound + 1) base s) (hle : base + 5 ≤ height) :
    Ensures s (parameter rules)
      (Reads (s.front = .identifier ∨ s.front = .mark .dollar) place height s) := by
  unfold parameter
  refine branch_reads (base + 4) entry rfl (by omega) ?_
  intro before t trimmed hentry
  have hpos : 0 < base + 4 := by omega
  refine (bumpIf_spec place.below hentry.wellFormed rfl hpos).bind ?_
  rintro sign u ⟨hsign, hsame⟩
  have hu := hentry.after hsign.toRan
  refine (expectIdentifier_spec place.below hu.wellFormed hpos _ _).bind ?_
  intro name v hname
  have hv := hu.after hname.toRan
  have hboth : Reads (s.front = .identifier ∨ s.front = .mark .dollar) place.below (base + 4) t
      (sign ++ name) v := by
    refine ⟨hsign.toOutcome.append hname.toOutcome, ?_⟩
    rw [← trimmed.front]
    intro hfront
    by_cases hdollar : t.front = .mark .dollar
    · exact Nat.lt_of_le_of_lt hname.work_le (hsign.work_lt hdollar)
    · have hnamed : u.front = .identifier := by
        rw [hsame hdollar]
        exact hfront.resolve_right hdollar
      exact Nat.lt_of_lt_of_le (hname.work_lt hnamed) hsign.work_le
  refine Ensures.isAtMark ?_ ?_
  · intro hequals
    refine (bump_spec place.below hv.wellFormed hequals rfl none).bind ?_
    intro equals w bumped
    have hw := hv.after (bumped.outcome hpos).toRan
    refine (value_spec place.below serves hw (Nat.le_refl _) _).bind ?_
    intro default x hdefault
    exact (hboth.append (bumped.outcome hpos)).append hdefault.toOutcome
  · intro _
    exact hboth

theorem variadicParameter_spec (place : Place) (serves : Serves rules bound)
    (entry : Entry rules.limit (bound + 1) base s) {sign : Mark} (hfront : s.front = .mark sign)
    (hle : base + 6 ≤ height) :
    Ensures s (variadicParameter rules) (Reads True place height s) := by
  unfold variadicParameter
  refine branch_reads (base + 5) entry rfl (by omega) ?_
  intro before t trimmed hentry
  have hpos : 0 < base + 5 := by omega
  refine (bump_spec place.below hentry.wellFormed (trimmed.front ▸ hfront) rfl _).bind ?_
  intro kleene u bumped
  have hu := hentry.after (bumped.outcome hpos).toRan
  refine (parameter_spec place.below serves hu (Nat.le_refl _)).bind ?_
  intro inner v hinner
  exact (bumped.reads hpos).append hinner.toOutcome

/-- A parameter of either sort. -/
theorem parameterBody_spec (place : Place) (serves : Serves rules bound)
    (entry : Entry rules.limit (bound + 1) base s) {isVariadic : Bool}
    (hstarts : startsParameter s.front = some isVariadic) (hle : base + 6 ≤ height) :
    Ensures s (if isVariadic then variadicParameter rules else parameter rules)
      (Reads True place height s) := by
  unfold startsParameter at hstarts
  split at hstarts
  · next hfront =>
    cases hstarts
    have hspec : Ensures s (parameter rules) (Reads _ place height s) :=
      parameter_spec place serves entry (by omega)
    exact hspec.mono fun _ _ h => h.imp fun _ => .inl hfront
  · next hfront =>
    cases hstarts
    have hspec : Ensures s (parameter rules) (Reads _ place height s) :=
      parameter_spec place serves entry (by omega)
    exact hspec.mono fun _ _ h => h.imp fun _ => .inr hfront
  · next hfront =>
    cases hstarts
    exact variadicParameter_spec place serves entry hfront hle
  · next hfront =>
    cases hstarts
    exact variadicParameter_spec place serves entry hfront hle
  · cases hstarts

theorem parameterStep_spec (place : Place) (serves : Serves rules bound)
    (entry : Entry rules.limit (bound + 1) base s) (hle : base + 7 ≤ height)
    (afterVariadic : Bool) :
    Ensures s (parameterStep rules afterVariadic)
      (Iterates (fun _ => Entry rules.limit (bound + 1) base) place height s) := by
  unfold parameterStep
  refine Ensures.peek ?_
  split
  · exact .done (.nil place height s)
  · next isVariadic hstarts =>
    refine Ensures.join (P := Reads True place height s) ?_ ?_ ?_
    · intro _
      refine errorBranch_spec (base + 6) entry rfl (by omega) ?_
      intro before t trimmed hentry
      exact parameterBody_spec .error serves hentry (trimmed.front ▸ hstarts) (Nat.le_refl _)
    · intro _
      exact parameterBody_spec place serves entry hstarts (by omega)
    · intro nodes t hreads
      exact .again hreads (entry.after hreads.toRan)

theorem parameters_spec (place : Place) (serves : Serves rules bound)
    (entry : Entry rules.limit (bound + 1) base s) (hle : base + 8 ≤ height) :
    Ensures s (parameters rules) (Outcome place height s) := by
  unfold parameters
  refine branch_spec (base + 7) entry rfl (by omega) ?_
  intro before t trimmed hentry
  exact loop_outcome (fun afterVariadic u hu =>
    parameterStep_spec place.below serves hu (Nat.le_refl _) afterVariadic) hentry
    (serves.work_lt hentry.toAffords)

/-! ## Dependencies -/

theorem dependencyArgumentStep_spec (place : Place) (serves : Serves rules bound)
    (entry : Entry rules.limit bound base s) (hle : base ≤ height) :
    Ensures s (dependencyArgumentStep rules ())
      (Iterates (fun _ => Entry rules.limit bound base) place height s) := by
  unfold dependencyArgumentStep
  refine Ensures.peek ?_
  split
  · next hstarts =>
    refine (serves.expression entry place hle none).bind ?_
    intro nodes t hreads
    exact .again (hreads.imp fun _ => hstarts) (entry.after hreads.toRan)
  · exact .done (.nil place height s)

theorem dependencyExpression_spec (place : Place) (serves : Serves rules bound)
    (entry : Entry rules.limit (bound + 1) base s) (hfront : s.front = .mark .parenL)
    (hlt : base < height) :
    Ensures s (dependencyExpression rules) (Reads True place height s) := by
  have hfour := entry.four_le
  unfold dependencyExpression
  refine branch_reads base entry rfl hlt ?_
  intro before t trimmed hentry
  have hpos : 0 < base := by omega
  refine (openBracket_spec place.below hentry.wellFormed (trimmed.front ▸ hfront)).bind ?_
  intro opened u hopened
  have hu := hentry.opened hopened
  refine Ensures.isAt_join (P := Outcome place.below base u) ?_ ?_ ?_
  · intro hname
    exact Ensures.toOutcome (namePath_spec place.below serves hu.weaken hname (by omega) _)
  · intro _
    exact missing_spec place.below u hpos _ _
  · intro name v hname
    have hv := hu.after hname.toRan
    refine (loop_outcome
      (fun _ w hw => dependencyArgumentStep_spec place.below serves hw (Nat.le_refl base)) hv
      (serves.work_lt hv.toAffords.weaken)).bind ?_
    intro arguments w harguments
    refine (closeBracket_spec place.below (hv.after harguments.toRan).wellFormed hpos _).bind ?_
    intro closed x hclosed
    have hall := hopened.bracketed (hname.append harguments) hclosed hpos (c := True)
    rw [← List.append_assoc] at hall
    exact hall

theorem dependency_spec (place : Place) (serves : Serves rules bound)
    (entry : Entry rules.limit (bound + 1) base s)
    (hfront : s.front = .identifier ∨ s.front = .mark .parenL) (hle : base + 2 ≤ height) :
    Ensures s (dependency rules) (Reads True place height s) := by
  have hfour := entry.four_le
  unfold dependency
  refine branch_reads (base + 1) entry rfl (by omega) ?_
  intro before t trimmed hentry
  refine Ensures.isAtMark ?_ ?_
  · intro hparen
    exact dependencyExpression_spec place.below serves hentry hparen (Nat.lt_succ_self base)
  · intro hnot
    have hname : t.front = .identifier := by
      rw [trimmed.front] at hnot ⊢
      exact hfront.resolve_right hnot
    exact namePath_spec place.below serves hentry hname (by omega) _

theorem dependencyStep_spec (place : Place) (serves : Serves rules bound)
    (entry : Entry rules.limit (bound + 1) base s) (hle : base + 2 ≤ height) :
    Ensures s (dependencyStep rules ())
      (Iterates (fun _ => Entry rules.limit (bound + 1) base) place height s) := by
  have hpos : 0 < height := by omega
  have hdependency : ∀ {sign t}, Outcome place height s sign t →
      t.front = .identifier ∨ t.front = .mark .parenL →
      Ensures t (dependency rules >>= fun nodes => again (sign ++ nodes))
        (Iterates (fun _ => Entry rules.limit (bound + 1) base) place height s) := by
    intro sign t hsign hfront
    refine (dependency_spec place serves (entry.after hsign.toRan) hfront hle).bind ?_
    intro nodes u hnodes
    have hreads := hsign.append_reads hnodes
    exact .again hreads (entry.after hreads.toRan)
  unfold dependencyStep
  refine Ensures.isAtMark ?_ ?_
  · intro hfront
    refine (bump_spec place entry.wellFormed hfront rfl none).bind ?_
    intro sign t bumped
    have hsign := bumped.outcome hpos
    refine Ensures.peek ?_
    split
    · next hname => exact hdependency hsign (.inl hname)
    · next hparen => exact hdependency hsign (.inr hparen)
    · refine (missing_spec place t hpos none _).bind ?_
      intro nodes u hmissing
      exact .done (hsign.append hmissing)
  · intro _
    have hnone := Outcome.nil place height s
    refine (Ensures.pure (Q := fun sign t => sign = [] ∧ t = s) ⟨rfl, rfl⟩).bind ?_
    rintro _ t ⟨rfl, rfl⟩
    refine Ensures.peek ?_
    split
    · next hname => exact hdependency hnone (.inl hname)
    · next hparen => exact hdependency hnone (.inr hparen)
    · exact .done hnone

theorem dependencies_spec (place : Place) (serves : Serves rules bound)
    (entry : Entry rules.limit (bound + 1) base s) (hle : base + 3 ≤ height) :
    Ensures s (dependencies rules) (Outcome place height s) := by
  unfold dependencies
  refine branch_spec (base + 2) entry rfl (by omega) ?_
  intro before t trimmed hentry
  exact loop_outcome (fun _ u hu => dependencyStep_spec place.below serves hu (Nat.le_refl _))
    hentry (serves.work_lt hentry.toAffords)

/-! ## Headers -/

theorem headerTail_spec (place : Place) (serves : Serves rules bound)
    (entry : Entry rules.limit (bound + 1) base s) (hle : base + 3 ≤ height) :
    Ensures s (headerTail rules) (Outcome place height s) := by
  have hpos : 0 < height := by omega
  unfold headerTail
  refine Ensures.isAtMark ?_ ?_
  · intro hfront
    refine (bump_spec place entry.wellFormed hfront rfl none).bind ?_
    intro colon t bumped
    have hcolon := bumped.outcome hpos
    have ht := entry.after hcolon.toRan
    refine Ensures.bind (P := Outcome place height t) ?_ ?_
    · unfold dependenciesOpt
      refine Ensures.peek ?_
      split
      · exact dependencies_spec place serves ht hle
      · exact dependencies_spec place serves ht hle
      · exact dependencies_spec place serves ht hle
      · exact .nil place height t
    · intro nodes u hnodes
      exact hcolon.append hnodes
  · intro _
    exact missing_spec place s hpos none _

theorem recipeHeader_spec (place : Place) (serves : Serves rules bound)
    (entry : Entry rules.limit (bound + 1) base s) (hle : base + 9 ≤ height) :
    Ensures s (recipeHeader rules)
      (Reads (s.front = .identifier ∨ s.front = .mark .atSign) place height s) := by
  unfold recipeHeader
  refine branch_reads (base + 8) entry rfl (by omega) ?_
  intro before t trimmed hentry
  have hpos : 0 < base + 8 := by omega
  refine (bumpIf_spec place.below hentry.wellFormed rfl hpos).bind ?_
  rintro sign u ⟨hsign, hsame⟩
  have hu := hentry.after hsign.toRan
  refine (expectIdentifier_spec place.below hu.wellFormed hpos _ _).bind ?_
  intro name v hname
  have hv := hu.after hname.toRan
  refine Ensures.bind (P := Outcome place.below (base + 8) v) ?_ ?_
  · unfold parametersOpt
    refine Ensures.peek ?_
    split
    · exact parameters_spec place.below serves hv (Nat.le_refl _)
    · exact .nil place.below (base + 8) v
  · intro inputs w hinputs
    have hw := hv.after hinputs.toRan
    have htail : base + 3 ≤ base + 8 := by omega
    refine (headerTail_spec place.below serves hw htail).bind ?_
    intro tail x htail
    have hrest := hinputs.append htail
    refine ⟨((hsign.toOutcome.append hname.toOutcome).append hinputs).append htail, ?_⟩
    rw [← trimmed.front]
    intro hfront
    refine Nat.lt_of_le_of_lt hrest.work_le ?_
    by_cases hat : t.front = .mark .atSign
    · exact Nat.lt_of_le_of_lt hname.work_le (hsign.work_lt hat)
    · have hnamed : u.front = .identifier := by
        rw [hsame hat]
        exact hfront.resolve_right hat
      exact Nat.lt_of_lt_of_le (hname.work_lt hnamed) hsign.work_le

/-! ## Bodies -/

theorem recipeLineStep_spec (place : Place) (height : Nat) (serves : Serves rules bound)
    (entry : Entry rules.limit (bound + 1) base s) (hlt : base < height) :
    Ensures s (recipeLineStep rules ()) fun result t =>
      Iterates (fun _ => Entry rules.limit (bound + 1) base) place height s result t ∧
        (endsLine s.front = false → t.scanner.work < s.scanner.work) := by
  have hpos : 0 < height := Nat.zero_lt_of_lt hlt
  have hagain : ∀ nodes t, Reads True place height s nodes t →
      Ensures t (again nodes) fun result u =>
        Iterates (fun _ => Entry rules.limit (bound + 1) base) place height s result u ∧
          (endsLine s.front = false → u.scanner.work < s.scanner.work) := by
    intro nodes t hreads
    exact ⟨.again hreads (entry.after hreads.toRan), fun _ => hreads.work_lt trivial⟩
  have hdone : endsLine s.front = true → Ensures s (done []) fun result u =>
      Iterates (fun (_ : Unit) => Entry rules.limit (bound + 1) base) place height s result u ∧
        (endsLine s.front = false → u.scanner.work < s.scanner.work) := by
    intro hend
    refine ⟨.done (.nil place height s), ?_⟩
    rw [hend]
    exact nofun
  unfold recipeLineStep
  refine Ensures.peek ?_
  split
  · next hfront =>
    refine (bump_spec place entry.wellFormed hfront rfl none).bind ?_
    intro nodes t bumped
    exact hagain nodes t (bumped.reads hpos)
  · next hfront =>
    refine (interpolation_spec place serves entry.toAffords hfront
      (Nat.lt_of_lt_of_le hlt (Nat.le_add_right ..)) hpos).bind ?_
    intro nodes t hinterpolated
    exact hagain nodes t hinterpolated.toReads
  · next hfront => exact hdone (by rw [hfront]; rfl)
  · next hfront => exact hdone (by rw [hfront]; rfl)
  · next hfront => exact hdone (by rw [hfront]; rfl)
  · next hend =>
    refine (errorToken_spec place serves entry hend (Nat.le_of_lt hlt) none _).bind ?_
    exact hagain

theorem recipeLine_spec (place : Place) (serves : Serves rules bound)
    (entry : Entry rules.limit (bound + 1) base s) (hle : base + 2 ≤ height) :
    Ensures s (recipeLine rules) (Reads (endsLine s.front = false) place height s) := by
  unfold recipeLine
  refine branch_reads (base + 1) entry rfl (by omega) ?_
  intro before t trimmed hentry
  have hpos : 0 < base + 1 := by omega
  have hlt : base < base + 1 := Nat.lt_succ_self base
  refine (bumpIf_spec place.below hentry.wellFormed rfl hpos).bind ?_
  rintro sign u ⟨hsign, hsame⟩
  have hu := hentry.after hsign.toRan
  have hloop : Ensures u (loop (recipeLineStep rules) rules.budget ())
      (Reads (endsLine u.front = false) place.below (base + 1) u) := by
    refine loop_reads
      (fun _ v hv => (recipeLineStep_spec place.below _ serves hv hlt).mono fun _ _ h => h.1) hu
      (serves.work_lt hu.toAffords) ?_
    intro hnot
    exact (recipeLineStep_spec place.below _ serves hu hlt).mono fun _ _ h => h.2 hnot
  refine hloop.bind ?_
  intro pieces v hpieces
  refine ⟨hsign.toOutcome.append hpieces.toOutcome, ?_⟩
  intro hnot
  by_cases hprefix : t.front = .linePrefix
  · exact Nat.lt_of_le_of_lt hpieces.work_le (hsign.work_lt hprefix)
  · have hfront : endsLine u.front = false := by
      rw [hsame hprefix, trimmed.front]
      exact hnot
    exact Nat.lt_of_lt_of_le (hpieces.work_lt hfront) hsign.work_le

theorem recipeBodyStep_spec (place : Place) (serves : Serves rules bound)
    (entry : Entry rules.limit (bound + 1) base s) (hle : base + 2 ≤ height) :
    Ensures s (recipeBodyStep rules ())
      (Iterates (fun _ => Entry rules.limit (bound + 1) base) place height s) := by
  have hpos : 0 < height := by omega
  unfold recipeBodyStep
  refine Ensures.peek ?_
  split
  · next hfront =>
    refine (bump_spec place entry.wellFormed hfront rfl none).bind ?_
    intro nodes t bumped
    exact .done (bumped.outcome hpos)
  · exact .done (.nil place height s)
  · next hfront =>
    refine (bump_spec place entry.wellFormed hfront rfl none).bind ?_
    intro nodes t bumped
    exact .again (bumped.reads hpos) (entry.after (bumped.outcome hpos).toRan)
  · next hdedent hend hnewline =>
    have hnot := endsLine_eq_false hnewline hend hdedent
    refine (recipeLine_spec place serves entry hle).bind ?_
    intro line t hline
    have ht := entry.after hline.toRan
    refine (bumpIf_spec place ht.wellFormed rfl hpos).bind ?_
    rintro newline u ⟨hnewline, -⟩
    have hreads := (hline.imp (d := True) fun _ => hnot).append hnewline.toOutcome
    exact .again hreads (entry.after hreads.toRan)

theorem bodyShebang_spec (place : Place) (serves : Serves rules bound)
    (entry : Entry rules.limit (bound + 1) base s) (hlt : 1 < height) :
    Ensures s (bodyShebang rules) (Outcome place height s) := by
  unfold bodyShebang
  refine Ensures.isAt ?_ ?_
  · intro hfront
    refine (shebang_spec place serves entry hfront hlt _).bind ?_
    intro line t hline
    have ht := entry.after hline.toRan
    refine (bumpIf_spec place ht.wellFormed rfl (Nat.zero_lt_of_lt hlt)).bind ?_
    rintro newline u ⟨hnewline, -⟩
    exact hline.toOutcome.append hnewline.toOutcome
  · intro _
    exact .nil place height s

/-- A body leaves the mode of bodies behind. -/
theorem recipeBody_spec (place : Place) (serves : Serves rules bound)
    (entry : Entry rules.limit (bound + 1) base s) (hfront : s.front = .indent)
    (hle : base + 3 ≤ height) :
    Ensures s (recipeBody rules) fun nodes t =>
      Derives place height s nodes t ∧ Keeps (s.inMode .body) t ∧
        t.scanner.work ≤ s.scanner.work := by
  unfold recipeBody branch
  refine (trivia_spec entry.wellFormed).bind ?_
  intro before t trimmed
  have hpos : 0 < base + 2 := by omega
  have hbefore := trimmed.outcome place (Nat.lt_of_lt_of_le hpos (by omega : base + 2 ≤ height))
  have ht := entry.after hbefore.toRan
  have hindent : t.step.1.kind = .indent := trimmed.step_kind.trans hfront
  refine Ensures.bind (P := fun children u =>
    (Derives place.below (base + 2) t children u ∧ ∃ rest,
      children = .ofToken none t.step.1 :: rest) ∧ Keeps (t.inMode .body) u ∧
      u.scanner.work ≤ t.scanner.work) ?_ ?_
  · -- No trivia is left in front of the `indent`, so that it is the first child.
    have hbump : Ensures t bump fun nodes u =>
        Bumped place.below t nodes u ∧ nodes = [.ofToken none t.step.1] :=
      ⟨bump_spec place.below ht.wellFormed (trimmed.front ▸ hfront) rfl none,
        (bump_flush_spec trimmed.flush (by rw [hindent]; exact nofun) none).1⟩
    refine hbump.bind ?_
    rintro opened u ⟨bumped, rfl⟩
    have hopened := bumped.outcome hpos
    have hu : Entry rules.limit (bound + 1) base (u.inMode .body) := by
      have hu := ht.after hopened.toRan
      exact ⟨⟨hu.wellFormed, hu.work_lt, hu.reach_le⟩, rfl⟩
    refine Ensures.setMode ?_
    refine (bodyShebang_spec place.below serves hu (by omega : 1 < base + 2)).bind ?_
    intro first v hfirst
    have hv := hu.after hfirst.toRan
    refine (loop_outcome (fun _ w hw => recipeBodyStep_spec place.below serves hw (Nat.le_refl _))
      hv (serves.work_lt hv.toAffords)).bind ?_
    intro lines w hlines
    have hinner := hfirst.append hlines
    have henter : Derives place.below (base + 2) u [] (u.inMode .body) := .within ..
    refine ⟨⟨?_, first ++ lines, rfl⟩, ?_, Nat.le_trans hinner.work_le hopened.work_le⟩
    · have hall := hopened.derives.append (henter.append hinner.derives)
      rw [List.nil_append, ← List.append_assoc] at hall
      exact hall
    · have hkeeps : Keeps (t.inMode .body) (u.inMode .body) :=
        ⟨rfl, hopened.keeps.nesting, hopened.keeps.lineBound, hopened.keeps.depth⟩
      exact hkeeps.trans hinner.keeps
  · rintro children u ⟨⟨hderives, rest, rfl⟩, hkeeps, hwork⟩
    have hopens : (Node.ofToken none t.step.1).kind = .token .indent := by
      rw [Node.ofToken, hindent]
      rfl
    have hkept : Keeps (s.inMode .body) (t.inMode .body) :=
      ⟨rfl, hbefore.keeps.nesting, hbefore.keeps.lineBound, hbefore.keeps.depth⟩
    exact ⟨hbefore.derives.append (.body _ hderives (by omega) hopens), hkept.trans hkeeps,
      Nat.le_trans hwork hbefore.work_le⟩

/-- The body of a recipe, if it has one, between the modes in which it is looked for and left. -/
theorem bodyOpt_spec (place : Place) (serves : Serves rules bound)
    (entry : Entry rules.limit (bound + 1) base s) (hmode : s.stream.mode = .normal)
    (hle : base + 3 ≤ height) (header : Forest) :
    Ensures s (do
      setMode .bodyStart
      let body ← if ← isAt .indent then recipeBody rules else pure []
      setMode .normal
      return header ++ body) fun nodes t =>
        ∃ body, nodes = header ++ body ∧ Ran place height s body t := by
  refine Ensures.setMode ?_
  have hlook : Entry rules.limit (bound + 1) base (s.inMode .bodyStart) :=
    ⟨⟨entry.wellFormed, entry.work_lt, entry.reach_le⟩, rfl⟩
  have henter : Derives place height s [] (s.inMode .bodyStart) := .within ..
  refine Ensures.isAt_join (P := fun body t => Derives place height (s.inMode .bodyStart) body t ∧
    Keeps (s.inMode .normal) (t.inMode .normal) ∧ t.scanner.work ≤ s.scanner.work) ?_ ?_ ?_
  · intro hfront
    refine (recipeBody_spec place serves hlook hfront hle).mono ?_
    rintro body t ⟨hderives, hkeeps, hwork⟩
    exact ⟨hderives, ⟨rfl, hkeeps.nesting, hkeeps.lineBound, hkeeps.depth⟩, hwork⟩
  · intro _
    exact ⟨.nil, ⟨rfl, rfl, rfl, rfl⟩, Nat.le_refl _⟩
  · rintro body t ⟨hderives, hkeeps, hwork⟩
    have hleave : Derives place height t [] (t.inMode .normal) := .within ..
    have hall := henter.append (hderives.append hleave)
    rw [List.append_nil, List.nil_append] at hall
    exact ⟨body, rfl, hall, ⟨hmode.symm, hkeeps.nesting, hkeeps.lineBound, hkeeps.depth⟩, hwork⟩

theorem recipe_spec {place : Place} (hplace : place.below = place) (serves : Serves rules bound)
    (entry : Entry rules.limit (bound + 1) base s) (hmode : s.stream.mode = .normal)
    (hfront : s.front = .identifier ∨ s.front = .mark .atSign) {r : State} {adopted : Forest}
    (hadopted : Ran place (base + 9) r adopted s) (hle : base + 10 ≤ height) :
    Ensures s (recipe rules adopted) fun nodes t =>
      Ran place height r nodes t ∧ t.scanner.work < s.scanner.work := by
  unfold recipe
  refine enclose_spec (base + 9) hplace hadopted rfl (by omega) ?_
  refine (recipeHeader_spec place serves entry (Nat.le_refl _)).bind ?_
  intro header t hheader
  have ht := entry.after hheader.toRan
  refine (lineEnd_spec place serves ht (Nat.le_add_right base 9)).bind ?_
  intro ending u hending
  have hu := ht.after hending.toRan
  have hfirst := hheader.append hending
  have hbase : base + 3 ≤ base + 9 := by omega
  refine (bodyOpt_spec place serves hu (hfirst.keeps.mode.trans hmode) hbase _).mono ?_
  rintro _ v ⟨body, rfl, hbody⟩
  exact ⟨hfirst.toRan.append hbody, Nat.lt_of_le_of_lt hbody.work_le (hfirst.work_lt hfront)⟩

end Justfile.Grammar
