import Justfile.Proofs.Reading.Recovery

/-!
# Reading expressions

Expressions follow the rules of derivations, and their height depends on the room for nested ones
alone. A value adds a fixed number of levels to the expressions in it, and a chain one for each
sign, of which there are no more than the room has; `reach` sums this up over the nesting.

The production for nested expressions is served on a budget (`serves_expressionAt`): each nesting
consumes a token first, so that the work ahead is always less than the fuel.
-/

set_option autoImplicit false

namespace Justfile.Grammar

variable {rules : Rules} {bound base height : Nat} {s : State}

/-! ## Calls -/

theorem argumentStep_spec (place : Place) (serves : Serves rules bound)
    (entry : Entry rules.limit (bound + 1) base s) (hle : base ≤ height) :
    Ensures s (argumentStep rules ())
      (Iterates (fun _ => Entry rules.limit (bound + 1) base) place height s) := by
  have hpos : 0 < height := Nat.lt_of_lt_of_le (Nat.lt_of_lt_of_le (by decide) entry.four_le) hle
  unfold argumentStep
  refine Ensures.isAtMark ?_ ?_
  · intro hfront
    refine (bump_spec place entry.wellFormed hfront rfl none).bind ?_
    intro comma t bumped
    refine Ensures.isAtMark ?_ ?_
    · intro _
      exact .done (bumped.outcome hpos)
    · intro _
      refine (serves.expression (entry.bumped bumped) place hle none).bind ?_
      intro argument u hargument
      have hreads := (bumped.reads hpos (c := True)).append hargument.toOutcome
      exact .again hreads (entry.after hreads.toRan)
  · intro _
    exact .done (.nil place height s)

theorem arguments_spec (place : Place) (serves : Serves rules bound)
    (entry : Entry rules.limit bound base s) (hlt : base < height) :
    Ensures s (arguments rules) (Outcome place height s) := by
  unfold arguments
  refine branch_spec base entry rfl hlt ?_
  intro before t trimmed hentry
  refine (serves.expression hentry place.below (Nat.le_refl base) none).bind ?_
  intro first u hfirst
  have hafter := (hentry.after hfirst.toRan).weaken
  refine (loop_outcome (fun _ v hv => argumentStep_spec place.below serves hv (Nat.le_refl base))
    hafter (serves.work_lt hafter.toAffords)).bind ?_
  intro more v hmore
  exact hfirst.toOutcome.append hmore

theorem functionCall_spec (place : Place) (serves : Serves rules bound)
    (entry : Entry rules.limit (bound + 1) base s) (hname : s.front = .identifier)
    (hparen : (s.stream.nth 1).kind = .mark .parenL) (hle : base + 2 ≤ height) :
    Ensures s (functionCall rules) (Reads True place height s) := by
  unfold functionCall
  refine branch_reads (base + 1) entry rfl (by omega) ?_
  intro before t trimmed hentry
  have hpos : 0 < base + 1 := by omega
  refine (bump_spec place.below hentry.wellFormed (trimmed.front ▸ hname) rfl _).bind ?_
  intro name u hnamed
  have hu := hentry.bumped hnamed
  have hfront : u.front = .mark .parenL := by
    rw [hnamed.front, trimmed.nth, hparen]
  refine (openBracket_spec place.below hu.wellFormed hfront).bind ?_
  intro opened v hopened
  have hv := hu.weaken.opened hopened
  refine Ensures.peek (Ensures.join (P := Outcome place.below (base + 1) v) ?_ ?_ ?_)
  · intro _
    exact arguments_spec place.below serves hv (by omega)
  · intro _
    exact .nil place.below (base + 1) v
  · intro inner w hinner
    refine (closeBracket_spec place.below (hv.after hinner.toRan).wellFormed hpos _).bind ?_
    intro closed x hclosed
    have hall := (hnamed.reads hpos (c := True)).append
      (hopened.bracketed hinner hclosed hpos (c := False)).toOutcome
    rw [← List.append_assoc, ← List.append_assoc] at hall
    exact hall

/-! ## Values -/

theorem parenthesized_spec (place : Place) (serves : Serves rules bound)
    (entry : Entry rules.limit (bound + 1) base s) (hfront : s.front = .mark .parenL)
    (hle : base ≤ height) : Ensures s (parenthesized rules) (Reads True place height s) := by
  have hpos : 0 < height := Nat.lt_of_lt_of_le (Nat.lt_of_lt_of_le (by decide) entry.four_le) hle
  unfold parenthesized
  refine (openBracket_spec place entry.wellFormed hfront).bind ?_
  intro opened t hopened
  have ht := entry.opened hopened
  refine (serves.expression ht place hle none).bind ?_
  intro inner u hinner
  refine (closeBracket_spec place (ht.after hinner.toRan).wellFormed hpos _).bind ?_
  intro closed v hclosed
  exact hopened.bracketed hinner.toOutcome hclosed hpos

/-- A bare number is reported with the span of its leaf. -/
theorem bareNumber_spec (place : Place) (wf : s.scanner.WellFormed) (hfront : s.front = .number)
    (hlt : 1 < height) (field : Option Field) :
    Ensures s (branch field .value bareNumber) (Reads True place height s) := by
  unfold branch bareNumber
  refine (trivia_spec wf).bind ?_
  intro before t trimmed
  have hbefore := trimmed.outcome place (Nat.zero_lt_of_lt hlt)
  have hkind := trimmed.step_kind.trans hfront
  have hne : t.step.1.kind ≠ .endOfInput := by
    rw [hkind]
    exact nofun
  have hwork := Scanner.work_next_lt (trimmed.wellFormed wf) hne
  have hnumber : ∀ offset, Reads True place height t
      [.branch field .value [.ofToken none t.step.1] offset]
      (t.taken.withReport .numberAsValue t.step.1.span) := by
    intro offset
    refine ⟨⟨⟨.number field offset hkind hlt, ⟨rfl, rfl, rfl, rfl⟩, Nat.le_of_lt hwork⟩, ?_⟩,
      fun _ => hwork⟩
    intro hflat settled
    exact settled.next hflat
  refine Ensures.bind (P := fun nodes u => nodes = [.ofToken none t.step.1] ∧
    u = t.taken.withReport .numberAsValue t.step.1.span) ?_ ?_
  · refine Ensures.peekToken ((bump_flush_spec trimmed.flush hne none).bind ?_)
    rintro _ _ ⟨rfl, rfl⟩
    rw [Stream.nth_zero_of_flush trimmed.flush]
    exact ⟨rfl, rfl⟩
  · rintro _ _ ⟨rfl, rfl⟩
    exact hbefore.append_reads (hnumber _)

theorem value_spec (place : Place) (serves : Serves rules bound)
    (entry : Entry rules.limit (bound + 1) base s) (hle : base + 4 ≤ height)
    (field : Option Field) :
    Ensures s (value rules field) (Reads (s.front.startsValue = true) place height s) := by
  have hpos : 0 < height := by omega
  unfold value
  refine Ensures.peek ?_
  split
  · next hfront =>
    refine Ensures.peekAt ?_
    split
    · next hparen =>
      refine branch_reads (base + 3) entry rfl (by omega) ?_
      intro before t trimmed hentry
      have hnext : (t.stream.nth 1).kind = .mark .parenL := by
        rw [trimmed.nth]
        exact beq_iff_eq.1 hparen
      exact Ensures.always (functionCall_spec place.below serves hentry (trimmed.front ▸ hfront)
        hnext (by omega))
    · refine branch_reads 1 entry rfl (by omega) ?_
      intro before t trimmed hentry
      refine (bump_spec place.below hentry.wellFormed (trimmed.front ▸ hfront) rfl none).mono ?_
      intro nodes u bumped
      exact bumped.reads Nat.one_pos
  · next hfront =>
    refine branch_reads (base + 3) entry rfl (by omega) ?_
    intro before t trimmed hentry
    exact Ensures.always (string_spec place.below serves hentry.toAffords (trimmed.front ▸ hfront)
      (by omega) (by omega) none)
  · next hfront =>
    refine branch_reads (base + 3) entry rfl (by omega) ?_
    intro before t trimmed hentry
    exact Ensures.always (command_spec place.below serves hentry.toAffords (trimmed.front ▸ hfront)
      (by omega) (by omega) none)
  · next hfront =>
    exact Ensures.always (bareNumber_spec place entry.wellFormed hfront (by omega) field)
  · next hfront =>
    refine branch_reads base entry rfl (by omega) ?_
    intro before t trimmed hentry
    exact Ensures.always (parenthesized_spec place.below serves hentry (trimmed.front ▸ hfront)
      (Nat.le_refl base))
  · next hfront =>
    refine (bump_fault_spec place entry hfront field).mono ?_
    intro nodes u bumped
    exact bumped.reads hpos
  · next hidentifier hstring hcommand hnumber hparen _ =>
    -- No value starts here: the token ends the expression, or is wrapped as an error.
    split
    · refine (missing_spec place s hpos field _).mono ?_
      intro nodes u h
      refine h.reads ?_
      unfold Token.Kind.startsValue
      split <;> simp_all
    · next hends =>
      have hne : s.front ≠ .endOfInput := by
        intro hend
        rw [hend] at hends
        exact hends rfl
      exact Ensures.always (errorToken_spec place serves entry hne (by omega) field _)

/-! ## Conditionals -/

theorem braced_spec (place : Place) (serves : Serves rules bound)
    (entry : Entry rules.limit bound base s) (hle : base ≤ height) (field : Field) :
    Ensures s (braced rules field) (Outcome place height s) := by
  have hpos : 0 < height := Nat.lt_of_lt_of_le (Nat.lt_of_lt_of_le (by decide) entry.four_le) hle
  unfold braced
  refine Ensures.isAtMark ?_ ?_
  · intro hfront
    refine (openBracket_spec place entry.wellFormed hfront).bind ?_
    intro opened t hopened
    have ht := entry.weaken.opened hopened
    refine (serves.expression ht place hle _).bind ?_
    intro inner u hinner
    refine (closeBracket_spec place (ht.after hinner.toRan).wellFormed hpos _).bind ?_
    intro closed v hclosed
    exact (hopened.bracketed hinner.toOutcome hclosed hpos (c := True)).toOutcome
  · intro _
    refine (missing_spec place s hpos none _).bind ?_
    intro opened t hopened
    refine (serves.expression (entry.after hopened.toRan) place hle _).bind ?_
    intro inner u hinner
    exact hopened.append hinner.toOutcome

theorem pattern_spec (place : Place) (serves : Serves rules bound)
    (entry : Entry rules.limit bound base s) (hle : base + 4 ≤ height) :
    Ensures s (pattern rules) (Outcome place height s) := by
  unfold pattern
  refine Ensures.peek ?_
  split
  · next hfront =>
    refine branch_spec (base + 3) entry rfl (by omega) ?_
    intro before t trimmed hentry
    exact Ensures.toOutcome (string_spec place.below serves hentry.toAffords.weaken
      (trimmed.front ▸ hfront) (by omega) (by omega) none)
  · exact Ensures.toOutcome (serves.expression entry place (by omega) _)

theorem comparison_spec (place : Place) (serves : Serves rules bound)
    (entry : Entry rules.limit bound base s) (hle : base + 4 ≤ height) :
    Ensures s (comparison rules) (Outcome place height s) := by
  have hpos : 0 < height := by omega
  have hsign : ∀ {sign : Mark} {right : Parse Forest}, s.front = .mark sign →
      (∀ t, Entry rules.limit bound base t → Ensures t right (Outcome place height t)) →
      Ensures s (bump >>= fun sign => right >>= fun right => pure (sign ++ right))
        (Outcome place height s) := by
    intro sign right hfront hright
    refine (bump_spec place entry.wellFormed hfront rfl none).bind ?_
    intro nodes t bumped
    have hnodes := bumped.outcome hpos
    refine (hright t (entry.after hnodes.toRan)).bind ?_
    intro more u hmore
    exact hnodes.append hmore
  have hexpression : ∀ t, Entry rules.limit bound base t →
      Ensures t (rules.expression (some .right)) (Outcome place height t) := by
    intro t hentry
    exact Ensures.toOutcome (serves.expression hentry place (by omega) _)
  unfold comparison
  refine Ensures.peek ?_
  split
  · next hfront => exact hsign hfront hexpression
  · next hfront => exact hsign hfront hexpression
  · next hfront => exact hsign hfront fun t hentry => pattern_spec place serves hentry hle
  · exact .nil place height s

theorem condition_spec (place : Place) (serves : Serves rules bound)
    (entry : Entry rules.limit bound base s) (hle : base + 5 ≤ height) :
    Ensures s (condition rules) (Outcome place height s) := by
  unfold condition
  refine branch_spec (base + 4) entry rfl (by omega) ?_
  intro before t trimmed hentry
  have hbase : base ≤ base + 4 := by omega
  refine (serves.expression hentry place.below hbase _).bind ?_
  intro left u hleft
  refine (comparison_spec place.below serves (hentry.after hleft.toRan) (Nat.le_refl _)).bind ?_
  intro right v hright
  exact hleft.toOutcome.append hright

theorem elseStep_spec (place : Place) (serves : Serves rules bound)
    (entry : Entry rules.limit bound base s) (hle : base + 6 ≤ height) :
    Ensures s (elseStep rules ())
      (Iterates (fun _ => Entry rules.limit bound base) place height s) := by
  have hpos : 0 < base + 5 := by omega
  unfold elseStep
  refine Ensures.isKeywordAt ?_ (.done (.nil place height s))
  intro helse
  refine Ensures.isKeywordAt ?_ ?_
  · intro hif
    refine Ensures.bind (P := Reads True place height s) ?_ ?_
    · refine branch_reads (base + 5) entry rfl (by omega) ?_
      intro before t trimmed hentry
      have hfront : t.front = .identifier := trimmed.front.trans helse
      refine (bumpKeyword_spec place.below hentry.wellFormed hfront _).bind ?_
      intro first u hfirst
      have hu := hentry.after (hfirst.outcome hpos).toRan
      have hnext : u.front = .identifier := by
        rw [hfirst.front, trimmed.nth]
        exact hif
      refine (bumpKeyword_spec place.below hu.wellFormed hnext _).bind ?_
      intro second v hsecond
      have hv := hu.after (hsecond.outcome hpos).toRan
      refine (condition_spec place.below serves hv (Nat.le_refl _)).bind ?_
      intro test w htest
      refine (braced_spec place.below serves (hv.after htest.toRan) (Nat.le_add_right base 5)
        _).bind ?_
      intro body x hbody
      exact (((hfirst.reads hpos).append (hsecond.outcome hpos)).append htest).append hbody
    · intro nodes t hreads
      exact .again hreads (entry.after hreads.toRan)
  · refine Ensures.bind (P := Outcome place height s) ?_ ?_
    · refine branch_spec (base + 5) entry rfl (by omega) ?_
      intro before t trimmed hentry
      have hfront : t.front = .identifier := trimmed.front.trans helse
      refine (bumpKeyword_spec place.below hentry.wellFormed hfront _).bind ?_
      intro word u hword
      refine (braced_spec place.below serves (hentry.after (hword.outcome hpos).toRan)
        (Nat.le_add_right base 5) _).bind ?_
      intro body v hbody
      exact (hword.outcome hpos).append hbody
    · intro nodes t houtcome
      exact .done houtcome

theorem ifExpression_spec (place : Place) (serves : Serves rules bound)
    (entry : Entry rules.limit (bound + 1) base s) (hfront : s.front = .identifier)
    (hle : base + 7 ≤ height) : Ensures s (ifExpression rules) (Reads True place height s) := by
  unfold ifExpression
  refine branch_reads (base + 6) entry rfl (by omega) ?_
  intro before t trimmed hentry
  have hpos : 0 < base + 6 := by omega
  refine (bumpKeyword_spec place.below hentry.wellFormed (trimmed.front ▸ hfront) _).bind ?_
  intro word u hword
  have hu := hentry.bumped hword
  have hcondition : base + 5 ≤ base + 6 := by omega
  refine (condition_spec place.below serves hu hcondition).bind ?_
  intro test v htest
  have hv := hu.after htest.toRan
  refine (braced_spec place.below serves hv (Nat.le_add_right base 6) _).bind ?_
  intro body w hbody
  have hw := hv.after hbody.toRan
  refine (loop_outcome (fun _ x hx => elseStep_spec place.below serves hx (Nat.le_refl _)) hw
    (serves.work_lt hw.toAffords.weaken)).bind ?_
  intro more x hmore
  exact (((hword.reads hpos).append htest).append hbody).append hmore

/-! ## Chains -/

theorem operand_spec (place : Place) (serves : Serves rules bound)
    (entry : Entry rules.limit (bound + 1) base s) (hle : base + 7 ≤ height) :
    Ensures s (operand rules) (Reads (s.front.startsValue = true) place height s) := by
  unfold operand
  refine Ensures.isKeywordAt ?_ ?_
  · intro hfront
    exact Ensures.always (ifExpression_spec place serves entry hfront hle)
  · exact value_spec place serves entry (by omega) none

section Depth

variable {c : Prop} {place : Place} {limit : Nat} {r t : State} {front back : Forest}

/-- Deeper inside, there is less room. -/
theorem Entry.atDepth {depth room : Nat} (entry : Entry limit bound base s)
    (h : reach (limit - depth) ≤ room) : Entry limit bound room (s.atDepth depth) :=
  ⟨⟨entry.wellFormed, entry.work_lt, h⟩, entry.outer⟩

theorem Outcome.keepsDepth (h : Outcome place height s front t) : t.atDepth s.depth = t := by
  rw [← h.keeps.depth]
  rfl

/-- What is read at another depth, which is left again. -/
theorem Reads.atDepth {depth : Nat} (h : Reads c place height (s.atDepth depth) front t) :
    Reads c place height s front (t.atDepth s.depth) := by
  refine ⟨⟨⟨?_, ⟨h.keeps.mode, h.keeps.nesting, h.keeps.lineBound, rfl⟩, h.work_le⟩, h.settled⟩,
    h.work_lt⟩
  have henter : Derives place height s [] (s.atDepth depth) := .within ..
  have hleave : Derives place height t [] (t.atDepth s.depth) := .within ..
  have hderives := henter.append (h.derives.append hleave)
  rwa [List.append_nil, List.nil_append] at hderives

/-- What is read at a depth of its own, behind nodes that were read at another one. -/
theorem Reads.around {depth : Nat}
    (first : Reads c place height r front (s.atDepth r.depth))
    (second : Outcome place height (s.atDepth depth) back t) :
    Reads c place height r (front ++ back) (t.atDepth r.depth) := by
  have hinner : Reads False place height ((s.atDepth r.depth).atDepth depth) back t :=
    second.reads not_false
  exact first.append hinner.atDepth.toOutcome

end Depth

/-- The right sides of a chain: each is introduced by a single token, and at a place with less room
it gives operands of the height. -/
structure Links (rules : Rules) (bound base : Nat) (place : Place) (height room : Nat)
    (right? : Token.Kind → Option (Parse Forest)) : Prop where
  isSolid : ∀ {kind p}, right? kind = some p → isSolid place kind = true
  spec : ∀ {kind p}, right? kind = some p → ∀ {t : State},
    Entry rules.limit (bound + 1) base t → rules.limit - t.depth < room →
      Ensures t p (Outcome place height t)

/-- A chain grows by one level with each sign, and there is no sign beyond the room. What its signs
counted is taken back, so it ends at the depth at which it started. -/
theorem chainFrom_spec {place : Place} (hplace : place.below = place) {c : Prop} {operands : Nat}
    {total : Nat} {right? : Token.Kind → Option (Parse Forest)} (serves : Serves rules bound)
    (links : Links rules bound base place operands total right?) {r : State} {fuel wraps : Nat}
    {nodes : Forest} {width room : Nat} (entry : Entry rules.limit (bound + 1) base s)
    (hfuel : s.scanner.work < fuel) (hroom : rules.limit - s.depth ≤ room) (htotal : room ≤ total)
    (hoperands : operands ≤ width) (hbase : base ≤ width) (hle : width + room ≤ height)
    (hwraps : s.depth = r.depth + wraps) (hnodes : Reads c place width r nodes (s.atDepth r.depth)) :
    Ensures s (chainFrom rules right? fuel wraps nodes) (Reads c place height r) := by
  induction fuel generalizing s nodes width room wraps with
  | zero => exact absurd hfuel (Nat.not_lt_zero _)
  | succ fuel ih =>
    have hsurface : ∀ {t : State}, t.depth = r.depth + wraps →
        t.atDepth (t.depth - wraps) = t.atDepth r.depth := by
      intro t ht
      rw [ht, Nat.add_sub_cancel]
    unfold chainFrom
    refine Ensures.peek ?_
    split
    · refine Ensures.modify (.pure ?_)
      change Reads c place height r nodes (s.atDepth (s.depth - wraps))
      rw [hsurface hwraps]
      exact hnodes.mono (by omega)
    · next p hright =>
      refine Ensures.get ?_
      split
      · refine (tooDeep_spec place serves entry hbase none).bind ?_
        intro wrapped t hwrapped
        refine Ensures.modify (.pure ?_)
        change Reads c place height r (nodes ++ wrapped) (t.atDepth (t.depth - wraps))
        rw [hsurface (hwrapped.keeps.depth.trans hwraps)]
        exact (hnodes.around hwrapped.toOutcome).mono (by omega)
      · next hdepth =>
        refine Ensures.offset (Ensures.modify ?_)
        -- What stands before the sign becomes one node, and the rest is read one level deeper.
        have hdeeper : Entry rules.limit (bound + 1) base (s.atDepth (s.depth + 1)) :=
          entry.atDepth (Nat.le_trans (reach_mono (by omega)) entry.reach_le)
        have hleft : Reads c place (width + 1) r
            [.branch (some .left) .expression nodes s.stream.offset] (s.atDepth r.depth) :=
          ⟨⟨⟨.group _ _ (hplace ▸ hnodes.derives) (Nat.lt_succ_self width) rfl, hnodes.keeps,
            hnodes.work_le⟩, hnodes.settled⟩, hnodes.work_lt⟩
        refine (bump_spec place hdeeper.wellFormed rfl (links.isSolid hright) none).bind ?_
        intro sign t bumped
        have hsign := bumped.outcome (Nat.succ_pos width)
        have ht := hdeeper.after hsign.toRan
        have hshift : t.depth = s.depth + 1 := hsign.keeps.depth
        refine Ensures.bind (P := Outcome place (width + 1) t) ?_ ?_
        · refine branch_spec operands ht rfl (by omega) ?_
          intro before u trimmed hu
          rw [hplace]
          refine links.spec hright hu ?_
          have hkeeps := (trimmed.outcome place Nat.one_pos).keeps.depth
          omega
        · intro right u houtcome
          have hall := hleft.around (hsign.append houtcome)
          have hu := ht.after houtcome.toRan
          have hkeeps := houtcome.keeps.depth
          have hwork : u.scanner.work < fuel := by
            have hlt : t.scanner.work < s.scanner.work := bumped.work_lt
            have hle := houtcome.work_le
            omega
          have hless : rules.limit - u.depth ≤ room - 1 := by omega
          exact ih hu hwork hless (by omega) (by omega) (by omega) (by omega) (by omega) hall

theorem chain_spec {place : Place} (hplace : place.below = place) {operands room : Nat}
    {right? : Token.Kind → Option (Parse Forest)} (serves : Serves rules bound)
    (links : Links rules bound base place operands room right?)
    (entry : Entry rules.limit (bound + 1) base s) (hroom : rules.limit - s.depth ≤ room)
    (hbase : base + 7 ≤ operands) (hle : operands + room ≤ height) :
    Ensures s (chain rules right?) (Reads (s.front.startsValue = true) place height s) := by
  unfold chain
  refine (trivia_spec entry.wellFormed).bind ?_
  intro before t trimmed
  have hpos : 0 < height := by omega
  have hbefore := trimmed.outcome place hpos
  have ht := entry.after hbefore.toRan
  refine (operand_spec place serves ht hbase).bind ?_
  intro first u hfirst
  rw [trimmed.front] at hfirst
  have hu := ht.after hfirst.toRan
  have hkeeps := (hbefore.keeps.trans hfirst.keeps).depth
  have hwraps : u.depth = t.depth + 0 := hfirst.keeps.depth
  have hsame := hfirst.toOutcome.keepsDepth
  rw [← hsame] at hfirst
  refine (chainFrom_spec hplace serves links hu (serves.work_lt hu.toAffords)
    (by rw [hkeeps]; exact hroom) (Nat.le_refl room) (Nat.le_refl operands) (by omega) hle
    hwraps hfirst).bind ?_
  intro nodes v hnodes
  exact hbefore.append_reads hnodes

section Signs

variable {place : Place} (hplace : place.below = place) (serves : Serves rules bound)

include hplace serves

theorem factor_spec (entry : Entry rules.limit (bound + 1) base s) {room : Nat}
    (hroom : rules.limit - s.depth ≤ room) (hle : base + 7 + room ≤ height) :
    Ensures s (factor rules) (Reads (s.front.startsValue = true) place height s) :=
  chain_spec hplace serves ⟨nofun, nofun⟩ entry hroom (Nat.le_refl _) hle

theorem term_spec (entry : Entry rules.limit (bound + 1) base s) {room : Nat}
    (hroom : rules.limit - s.depth ≤ room) (hle : base + 7 + 2 * room ≤ height) :
    Ensures s (term rules) (Reads (s.front.startsValue = true) place height s) := by
  refine chain_spec hplace serves (?_ : Links rules bound base place (base + 7 + room) room _) entry
    hroom (by omega) (by omega)
  constructor
  · intro kind p hright
    obtain ⟨rfl, -⟩ := termRight?_eq_some hright
    rfl
  · intro kind p hright t ht hless
    obtain ⟨-, rfl⟩ := termRight?_eq_some hright
    exact Ensures.toOutcome (factor_spec hplace serves ht (Nat.le_of_lt hless) (Nat.le_refl _))

theorem sum_spec (entry : Entry rules.limit (bound + 1) base s) {room : Nat}
    (hroom : rules.limit - s.depth ≤ room) (hle : base + 7 + 3 * room ≤ height) :
    Ensures s (sum rules) (Reads (s.front.startsValue = true) place height s) := by
  refine chain_spec hplace serves (?_ : Links rules bound base place (base + 7 + 2 * room) room _)
    entry hroom (by omega) (by omega)
  constructor
  · intro kind p hright
    obtain ⟨rfl, -⟩ | ⟨rfl, -⟩ := sumRight?_eq_some hright
    · rfl
    · rfl
  · intro kind p hright t ht hless
    obtain ⟨-, rfl⟩ | ⟨-, rfl⟩ := sumRight?_eq_some hright
    · exact Ensures.toOutcome (term_spec hplace serves ht (Nat.le_of_lt hless) (Nat.le_refl _))
    · exact Ensures.toOutcome (factor_spec hplace serves ht (Nat.le_of_lt hless) (by omega))

end Signs

/-! ## Expressions -/

theorem expression_spec (place : Place) (serves : Serves rules bound)
    (entry : Entry rules.limit (bound + 1) base s) (hle : base ≤ height) (field : Option Field) :
    Ensures s (expression rules field)
      (Reads (startsExpression s.front = true) place height s) := by
  unfold expression
  refine Ensures.get ?_
  split
  · exact tooDeep_spec place serves entry hle field
  · next hdepth =>
    obtain ⟨room, hroom⟩ : ∃ room, rules.limit - s.depth = room + 1 :=
      ⟨rules.limit - s.depth - 1, by omega⟩
    have hreach := entry.reach_le
    rw [hroom, reach] at hreach
    have hdeeper : rules.limit - (s.depth + 1) = room := by omega
    have hentry : Entry rules.limit (bound + 1) (reach room) (s.atDepth (s.depth + 1)) :=
      entry.atDepth (Nat.le_of_eq (congrArg reach hdeeper))
    -- The expression leaves the depth at which its parts were read.
    have hleave : ∀ nodes t, Reads (startsExpression s.front = true) place height
        (s.atDepth (s.depth + 1)) nodes t → Reads (startsExpression s.front = true) place height s nodes
          (t.atDepth (t.depth - 1)) := by
      intro nodes t hnodes
      rw [show t.depth - 1 = s.depth by rw [hnodes.keeps.depth]; rfl]
      exact hnodes.atDepth
    refine Ensures.modify ?_
    change Ensures (s.atDepth (s.depth + 1)) _ _
    refine Ensures.bind
      (P := Reads (startsExpression s.front = true) place height (s.atDepth (s.depth + 1))) ?_
      fun nodes t hnodes => Ensures.modify (.pure (hleave nodes t hnodes))
    refine branch_reads (reach room + 7 + 3 * room) hentry rfl (by omega) ?_
    intro before t trimmed ht
    have hpos : 0 < reach room + 7 + 3 * room := by omega
    refine (bumpIf_spec place.below ht.wellFormed rfl hpos).bind ?_
    rintro root u ⟨hroot, hsame⟩
    have hu := ht.after hroot.toRan
    have hshift : rules.limit - u.depth ≤ room := by
      have hkeeps := ((trimmed.outcome place hpos).keeps.trans hroot.keeps).depth
      have hdepth : (s.atDepth (s.depth + 1)).depth = s.depth + 1 := rfl
      omega
    refine (sum_spec place.below_below serves hu hshift (Nat.le_refl _)).bind ?_
    intro nodes v hnodes
    refine ⟨hroot.toOutcome.append hnodes.toOutcome, ?_⟩
    intro hstarts
    -- Either the sign in front is consumed, or a value starts where the expression does.
    by_cases hslash : t.front = .mark .slash
    · exact Nat.lt_of_le_of_lt hnodes.work_le (hroot.work_lt hslash)
    · have hfront : u.front = s.front := by
        rw [hsame hslash]
        exact trimmed.front
      have hvalue : u.front.startsValue = true := by
        rw [hfront]
        have hne : s.front ≠ .mark .slash := trimmed.front ▸ hslash
        simpa [startsExpression, hne] using hstarts
      exact Nat.lt_of_lt_of_le (hnodes.work_lt hvalue) hroot.work_le

/-- An expression on a budget serves every state with less work ahead than its fuel. -/
theorem serves_expressionAt {limit budget fuel : Nat} (hfuel : fuel < budget) :
    Serves ⟨limit, budget, expressionAt limit budget fuel⟩ fuel := by
  induction fuel with
  | zero => exact ⟨hfuel, fun entry => absurd entry.work_lt (Nat.not_lt_zero _)⟩
  | succ fuel ih =>
    refine ⟨hfuel, ?_⟩
    intro base s entry place height hle field
    have hserves := ih (Nat.lt_of_succ_lt hfuel)
    exact expression_spec place hserves ⟨⟨entry.wellFormed, entry.work_lt, entry.reach_le⟩,
      entry.outer⟩ hle field

/-- The rules of a whole file serve every state with less work ahead than the budget. -/
theorem serves_tie {limit bound : Nat} : Serves (.tie limit (bound + 1)) bound := by
  refine ⟨Nat.lt_succ_self bound, ?_⟩
  intro base s entry place height hle field
  have hserves : Serves ⟨limit, bound + 1, expressionAt limit (bound + 1) bound⟩ bound :=
    serves_expressionAt (Nat.lt_succ_self bound)
  exact expression_spec place hserves ⟨⟨entry.wellFormed, Nat.lt_succ_of_lt entry.work_lt,
    entry.reach_le⟩, entry.outer⟩ hle field

end Justfile.Grammar
