import Justfile.Proofs.Simulation.Literal

/-!
# Expressions side by side

Expressions are tracked whatever is nested in them (`pairs_tie`): the second run has no smaller
budget and no lower limit, so that it follows the first one as long as that one neither runs out of
its budget nor reaches a limit of its own.
-/

set_option autoImplicit false

namespace Justfile.Grammar

namespace Simulation.Lawful

variable {z : Simulation} {rules rules' : Rules} {c : Context} {s : State}

section Normal

variable (hmode : c.mode = .normal)
include hmode

/-! ## Calls -/

theorem argumentStep (lawful : z.Lawful) (pairs : z.Pairs rules rules') :
    z.Iterates c c.bodies z.live z.live s (Grammar.argumentStep rules ())
      (Grammar.argumentStep rules' ()) := by
  unfold Grammar.argumentStep
  refine lawful.isAtMark ?_ ?_
  · intro _
    refine (lawful.bump_live none (c.allows_of_normal hmode _)).bind ?_
    intro comma u _
    refine lawful.isAtMark ?_ ?_
    · intro _
      exact done rfl
    · intro _
      refine (pairs.expression none hmode).bind ?_
      intro argument v _
      exact again (by simp) ()
  · intro _
    exact done rfl

theorem arguments (lawful : z.Lawful) (pairs : z.Pairs rules rules') :
    z.Follows c z.live z.live s (Grammar.arguments rules) (Grammar.arguments rules') := by
  unfold Grammar.arguments
  refine lawful.branch _ _ ?_
  intro before u _
  refine (pairs.expression none hmode).bind ?_
  intro first v _
  refine (lawful.loop (fun _ => lawful.calm_of_live) (fun _ w => lawful.argumentStep hmode pairs)
    pairs.budget_le ()).bind ?_
  intro more w _
  exact Follows.pure (by simp)

theorem functionCall (lawful : z.Lawful) (pairs : z.Pairs rules rules')
    (hname : s.front = .identifier) (hparen : (s.stream.nth 1).kind = .mark .parenL) :
    z.Follows c z.peer z.live s (Grammar.functionCall rules) (Grammar.functionCall rules') := by
  unfold Grammar.functionCall
  refine lawful.branch_peer none _ ?_
  intro before u trimmed
  refine Tracks.of_inv fun hinv => ?_
  have hu : u.front ≠ .endOfInput := by
    rw [trimmed.front, hname]
    exact nofun
  refine (lawful.bump_peer _ (c.allows_of_normal hmode _) hu).bind ?_
  intro name v hv
  have hfront : v.front = .mark .parenL :=
    lawful.front_of_bump hinv hu (by rw [trimmed.nth, hparen]) hv
  refine (lawful.openBracket hmode hfront).bind ?_
  intro opened w _
  refine Tracks.mono_pre (lawful.peek (Follows.join z.live (fun _ => ?_) (fun _ => ?_) ?_))
    fun _ => lawful.calm_of_live
  · exact lawful.arguments (c := c.nested) hmode pairs
  · exact Follows.pure rfl
  · intro inner x
    refine ((lawful.closeBracket hmode .parenR).mono_post fun _ _ _ _ => lawful.calm_of_live).bind ?_
    intro closed y _
    exact Follows.pure (by simp)

omit hmode in
theorem stops_functionCall : Stops s (Grammar.functionCall rules) := by
  refine stops_branch none _ fun u => ?_
  refine Ensures.last fun name v => Ensures.last fun opened w => Ensures.peek ?_
  split <;> exact Ensures.last fun _ _ => (stops_closeBracket _).and_return _

/-! ## Values -/

theorem parenthesized (lawful : z.Lawful) (pairs : z.Pairs rules rules')
    (hfront : s.front = .mark .parenL) :
    z.Follows c z.live z.calm s (Grammar.parenthesized rules) (Grammar.parenthesized rules') := by
  unfold Grammar.parenthesized
  refine (lawful.openBracket hmode hfront).bind ?_
  intro opened u _
  refine ((pairs.expression (c := c.nested) none hmode).mono_pre
    fun _ => lawful.calm_of_live).bind ?_
  intro inner v _
  refine (lawful.closeBracket hmode .parenR).bind ?_
  intro closed w _
  exact Follows.pure (by simp)

theorem bareNumber (lawful : z.Lawful) :
    z.Follows c z.live z.live s Grammar.bareNumber Grammar.bareNumber := by
  unfold Grammar.bareNumber
  refine lawful.peekToken ?_
  intro token alike
  refine (lawful.bump_live none (c.allows_of_normal hmode _)).bind ?_
  intro nodes u _
  rw [alike.span hmode]
  refine ((lawful.report (fun _ => lawful.calm_of_live) _ _).mono_pre
    fun _ => lawful.live_of_peer).bind ?_
  intro _ v _
  exact Follows.pure rfl

theorem value (lawful : z.Lawful) (pairs : z.Pairs rules rules') (field : Option Field) :
    z.Follows c z.live z.live s (Grammar.value rules field) (Grammar.value rules' field) := by
  have hallows := c.allows_of_normal hmode
  have hadmits : c.Admits c.mode := hmode ▸ c.admits_normal
  unfold Grammar.value
  refine lawful.peek ?_
  split
  · next hfront =>
    -- A name is consumed in either case, and then reading goes on behind it.
    refine Tracks.mono_pre (lawful.peekNext hmode ?_) fun _ => lawful.live_of_peer
    split
    · next hparen =>
      refine lawful.branch_peer field _ ?_
      intro before u trimmed
      have hnext : (u.stream.nth 1).kind = .mark .parenL := by
        rw [trimmed.nth]
        exact beq_iff_eq.1 hparen
      exact lawful.functionCall hmode pairs (trimmed.front.trans hfront) hnext
    · refine lawful.branch_peer field _ ?_
      intro before u trimmed
      refine lawful.bump_peer none (hallows _) ?_
      rw [trimmed.front, hfront]
      exact nofun
  · next hfront =>
    refine lawful.branch field _ ?_
    intro before u trimmed
    exact (lawful.string pairs (trimmed.front.trans hfront) hadmits none).mono_post
      fun _ _ _ _ => lawful.wide_of_live
  · next hfront =>
    refine lawful.branch field _ ?_
    intro before u trimmed
    exact (lawful.command pairs (trimmed.front.trans hfront) hadmits none).mono_post
      fun _ _ _ _ => lawful.wide_of_live
  · refine lawful.branch field _ ?_
    intro before u _
    exact lawful.bareNumber hmode
  · next hfront =>
    refine lawful.branch field _ ?_
    intro before u trimmed
    exact (lawful.parenthesized hmode pairs (trimmed.front.trans hfront)).mono_post
      fun _ _ _ _ => lawful.calm_of_live
  · exact lawful.bump_live field (hallows _)
  · split
    · exact lawful.missing_live (fun _ => lawful.calm_of_live) field _
    · exact (lawful.errorToken pairs (hallows _) hadmits field _).mono_post
        fun _ _ _ _ => lawful.calm_of_live

omit hmode in
theorem stops_value (lawful : z.Lawful) (pairs : z.Pairs rules rules') (hinv : z.inv c s)
    (field : Option Field) : Stops s (Grammar.value rules field) := by
  unfold Grammar.value
  refine Ensures.peek ?_
  split
  · next hfront =>
    refine Ensures.peekAt ?_
    split
    · exact stops_branch field _ fun _ => stops_functionCall
    · refine stops_branchIn lawful hinv ?_
      intro before u trimmed _
      exact stops_bump (trimmed.front.trans hfront) rfl none
  · next hfront =>
    refine stops_branchIn lawful hinv ?_
    intro before u trimmed hu
    exact lawful.stops_string pairs (trimmed.front.trans hfront) hu none
  · next hfront =>
    refine stops_branchIn lawful hinv ?_
    intro before u trimmed hu
    exact lawful.stops_command pairs (trimmed.front.trans hfront) hu none
  · exact stops_branch field _ fun _ => midLine_of_reports (List.cons_ne_nil _ _)
  · refine stops_branch field _ fun _ => ?_
    exact Ensures.last fun _ _ => Ensures.last fun _ _ => (stops_closeBracket _).and_return _
  · next hfront => exact stops_bump hfront rfl field
  · split
    · exact stops_missing field _
    · exact stops_errorToken field _

/-! ## Conditionals -/

theorem braced (lawful : z.Lawful) (pairs : z.Pairs rules rules') (field : Field) :
    z.Follows c z.live z.live s (Grammar.braced rules field) (Grammar.braced rules' field) := by
  unfold Grammar.braced
  refine lawful.isAtMark ?_ ?_
  · intro hfront
    refine (lawful.openBracket hmode hfront).bind ?_
    intro opened u _
    refine ((pairs.expression (c := c.nested) _ hmode).mono_pre
      fun _ => lawful.calm_of_live).bind ?_
    intro inner v _
    refine ((lawful.closeBracket hmode .braceR).mono_post fun _ _ _ _ => lawful.calm_of_live).bind ?_
    intro closed w _
    exact Follows.pure (by simp)
  · intro _
    refine (lawful.missing_live (fun _ => lawful.calm_of_live) none _).bind ?_
    intro opened u _
    refine (pairs.expression _ hmode).bind ?_
    intro inner v _
    exact Follows.pure (by simp)

theorem stops_braced (lawful : z.Lawful) (pairs : z.Pairs rules rules') (hinv : z.inv c s)
    (field : Field) : Stops s (Grammar.braced rules field) := by
  unfold Grammar.braced
  refine Ensures.isAtMark ?_ ?_
  · intro _
    exact Ensures.last fun _ _ => Ensures.last fun _ _ => (stops_closeBracket _).and_return _
  · intro _
    refine (lawful.missing_live (fun _ => id) none _).skip hinv ?_
    intro _ u hu
    exact pairs.stops _ hmode hu

theorem pattern (lawful : z.Lawful) (pairs : z.Pairs rules rules') :
    z.Follows c z.live z.live s (Grammar.pattern rules) (Grammar.pattern rules') := by
  unfold Grammar.pattern
  refine lawful.peek ?_
  split
  · next hfront =>
    refine lawful.branch _ _ ?_
    intro before u trimmed
    exact (lawful.string pairs (trimmed.front.trans hfront) (hmode ▸ c.admits_normal)
      none).mono_post fun _ _ _ _ => lawful.wide_of_live
  · exact pairs.expression _ hmode

theorem comparison (lawful : z.Lawful) (pairs : z.Pairs rules rules') :
    z.Follows c z.live z.live s (Grammar.comparison rules) (Grammar.comparison rules') := by
  have hsign : ∀ {right right' : Parse Forest}, (∀ u, z.Follows c z.live z.live u right right') →
      z.Follows c z.live z.live s
        (Grammar.bump >>= fun sign => right >>= fun nodes => Pure.pure (sign ++ nodes))
        (Grammar.bump >>= fun sign => right' >>= fun nodes => Pure.pure (sign ++ nodes)) := by
    intro right right' hright
    refine (lawful.bump_live none (c.allows_of_normal hmode _)).bind ?_
    intro sign u _
    refine (hright u).bind ?_
    intro nodes v _
    exact Follows.pure (by simp)
  unfold Grammar.comparison
  refine lawful.peek ?_
  split
  · exact hsign fun u => pairs.expression _ hmode
  · exact hsign fun u => pairs.expression _ hmode
  · exact hsign fun u => lawful.pattern hmode pairs
  · exact Follows.pure rfl

theorem condition (lawful : z.Lawful) (pairs : z.Pairs rules rules') :
    z.Follows c z.live z.live s (Grammar.condition rules) (Grammar.condition rules') := by
  unfold Grammar.condition
  refine lawful.branch none _ ?_
  intro before u _
  refine (pairs.expression _ hmode).bind ?_
  intro left v _
  refine (lawful.comparison hmode pairs).bind ?_
  intro right w _
  exact Follows.pure (by simp)

theorem elseStep (lawful : z.Lawful) (pairs : z.Pairs rules rules') :
    z.Iterates c c.bodies z.live z.live s (Grammar.elseStep rules ())
      (Grammar.elseStep rules' ()) := by
  unfold Grammar.elseStep
  refine lawful.isKeyword ?_ (done rfl)
  intro helse
  refine Tracks.mono_pre (lawful.isKeywordNext hmode ?_ ?_) fun _ => lawful.live_of_peer
  · intro hif
    refine (lawful.branch_peer _ _ ?_).bind fun nodes u _ => again rfl ()
    intro before u trimmed
    have hu : u.front = .identifier := trimmed.front.trans helse
    refine Tracks.of_inv fun hinv => (lawful.keyword_peer hmode _ hu).bind ?_
    intro first v hv
    have hv' : v.front = .identifier :=
      lawful.front_of_bump hinv (by rw [hu]; exact nofun) (by rw [trimmed.nth, hif]) hv
    refine (lawful.keyword_live hmode _ hv').bind ?_
    intro second w _
    refine (lawful.condition hmode pairs).bind ?_
    intro test x _
    refine (lawful.braced hmode pairs _).bind ?_
    intro body y _
    exact Follows.pure (by simp)
  · refine (lawful.branch_peer _ _ ?_).bind fun nodes u _ => done rfl
    intro before u trimmed
    refine (lawful.keyword_peer hmode _ (trimmed.front.trans helse)).bind ?_
    intro word v _
    refine (lawful.braced hmode pairs _).bind ?_
    intro body w _
    exact Follows.pure (by simp)

theorem stops_elseStep (lawful : z.Lawful) (pairs : z.Pairs rules rules') (hinv : z.inv c s)
    (hmid : s.MidLine) : Ensures s (Grammar.elseStep rules ()) fun _ t => t.MidLine := by
  unfold Grammar.elseStep
  refine Ensures.isKeywordAt ?_ hmid
  intro helse
  refine Ensures.isKeywordAt ?_ ?_
  · intro hif
    refine Ensures.bind (P := fun _ t => t.MidLine) (stops_branchIn lawful hinv ?_) fun _ _ h => h
    intro before u trimmed hu
    have hfront : u.front = .identifier := trimmed.front.trans helse
    have hfirst : Ensures u (bumpKeyword .elseWord) fun _ v => v.front = .identifier ∧ z.inv c v :=
      ⟨lawful.front_of_bump hu (by rw [hfront]; exact nofun) (by rw [trimmed.nth, hif]) rfl,
        (lawful.keyword_live hmode _ hfront hu).1⟩
    refine hfirst.bind ?_
    rintro first v ⟨hv', hv⟩
    refine (lawful.keyword_live hmode _ hv').skip hv fun _ w hw => ?_
    refine (lawful.condition hmode pairs).skip hw fun _ x hx => ?_
    exact (lawful.stops_braced hmode pairs hx _).and_return _
  · refine Ensures.bind (P := fun _ t => t.MidLine) (stops_branchIn lawful hinv ?_) fun _ _ h => h
    intro before u trimmed hu
    refine (lawful.keyword_live hmode _ (trimmed.front.trans helse)).skip hu fun _ v hv => ?_
    exact (lawful.stops_braced hmode pairs hv _).and_return _

theorem ifExpression (lawful : z.Lawful) (pairs : z.Pairs rules rules')
    (hfront : s.front = .identifier) :
    z.Follows c z.live z.live s (Grammar.ifExpression rules) (Grammar.ifExpression rules') := by
  unfold Grammar.ifExpression
  refine lawful.branch none _ ?_
  intro before u trimmed
  refine (lawful.keyword_live hmode _ (trimmed.front.trans hfront)).bind ?_
  intro word v _
  refine (lawful.condition hmode pairs).bind ?_
  intro test w _
  refine (lawful.braced hmode pairs _).bind ?_
  intro body x _
  refine (lawful.loop (fun _ => lawful.calm_of_live) (fun _ y => lawful.elseStep hmode pairs)
    pairs.budget_le ()).bind ?_
  intro more y _
  exact Follows.pure (by simp)

theorem stops_ifExpression (lawful : z.Lawful) (pairs : z.Pairs rules rules') (hinv : z.inv c s)
    (hfront : s.front = .identifier) : Stops s (Grammar.ifExpression rules) := by
  unfold Grammar.ifExpression
  refine stops_branchIn lawful hinv ?_
  intro before u trimmed hu
  refine (lawful.keyword_live hmode _ (trimmed.front.trans hfront)).skip hu fun _ v hv => ?_
  refine (lawful.condition hmode pairs).skip hv fun _ w hw => ?_
  have hbody : Ensures w (Grammar.braced rules .consequence) fun _ x => x.MidLine ∧ z.inv c x :=
    ⟨lawful.stops_braced hmode pairs hw _, (lawful.braced hmode pairs _ hw).1⟩
  refine hbody.bind ?_
  rintro body x ⟨hmid, hx⟩
  exact stops_loop (fun _ y => lawful.elseStep hmode pairs)
    (fun _ y hy => lawful.stops_elseStep hmode pairs hy) hx
    (lawful.stops_elseStep hmode pairs hx hmid) rules.budget

/-! ## Chains -/

theorem operand (lawful : z.Lawful) (pairs : z.Pairs rules rules') :
    z.Follows c z.live z.live s (Grammar.operand rules) (Grammar.operand rules') := by
  unfold Grammar.operand
  refine lawful.isKeyword ?_ ?_
  · intro hfront
    exact lawful.ifExpression hmode pairs hfront
  · exact lawful.value hmode pairs none

theorem stops_operand (lawful : z.Lawful) (pairs : z.Pairs rules rules') (hinv : z.inv c s) :
    Stops s (Grammar.operand rules) := by
  unfold Grammar.operand
  refine Ensures.isKeywordAt ?_ (lawful.stops_value pairs hinv none)
  intro hfront
  exact lawful.stops_ifExpression hmode pairs hinv hfront

/-- What can stand beside a sign: it is tracked, and ends in the middle of a line. -/
structure Operates (z : Simulation) (c : Context) (p p' : Parse Forest) : Prop where
  follows : ∀ s, z.Follows c z.live z.live s p p'
  stops : ∀ s, z.inv c s → Stops s p

/-- The right sides of two chains: both have one behind the same tokens. -/
def Links (z : Simulation) (c : Context) (right? right?' : Token.Kind → Option (Parse Forest)) :
    Prop :=
  ∀ kind, (right? kind = none ∧ right?' kind = none) ∨
    ∃ p p', right? kind = some p ∧ right?' kind = some p' ∧ Operates z c p p'

/-- Each sign of a chain counts as one expression around what follows it. -/
theorem deepen (lawful : z.Lawful) :
    z.Tracks c z.live id (fun _ => c) (fun _ => z.live) s Grammar.deepen Grammar.deepen :=
  lawful.recount (hmode ▸ c.admits_normal) (· + 1)

/-- A chain returns its operands and takes back what its signs counted. -/
theorem surface_return (lawful : z.Lawful) (count : Nat) {nodes more : Forest}
    (h : more = z.moved nodes) :
    z.Follows c z.live z.live s (Grammar.surface count >>= fun _ => pure nodes)
      (Grammar.surface count >>= fun _ => pure more) :=
  (lawful.recount (hmode ▸ c.admits_normal) (· - count)).bind fun _ _ _ => Follows.pure h

theorem chainFrom (lawful : z.Lawful) (pairs : z.Pairs rules rules')
    {right? right?' : Token.Kind → Option (Parse Forest)} (links : Links z c right? right?')
    {fuel fuel' : Nat} (hle : fuel ≤ fuel') (wraps : Nat) (nodes : Forest) :
    z.Follows c z.live z.live s (Grammar.chainFrom rules right? fuel wraps nodes)
      (Grammar.chainFrom rules' right?' fuel' wraps (z.moved nodes)) := by
  induction fuel generalizing fuel' wraps nodes s with
  | zero =>
    intro hinv
    have hreturn : z.Follows c z.live z.live s.spent
        (Grammar.surface wraps >>= fun _ => pure nodes)
        (Grammar.surface wraps >>= fun _ => pure (z.moved nodes)) :=
      lawful.surface_return hmode wraps rfl
    obtain ⟨hafter, hrun⟩ := hreturn (lawful.inv_spent c.bodies hinv)
    exact ⟨hafter,
      fun hlive => absurd (lawful.calm_of_live (hrun hlive).1) lawful.not_calm_spent⟩
  | succ fuel ih =>
    obtain ⟨more, rfl⟩ : ∃ more, fuel' = more + 1 := ⟨fuel' - 1, by omega⟩
    unfold Grammar.chainFrom
    refine lawful.peek ?_
    -- No sign for either, or the same sign, whose right sides correspond.
    rcases links s.front with ⟨hright, hright'⟩ | ⟨p, p', hright, hright', operates⟩
    · rw [hright, hright']
      exact lawful.surface_return hmode wraps rfl
    · rw [hright, hright']
      refine lawful.limited pairs.limit_le ?_ ?_
      · intro _
        refine ⟨(lawful.tooDeep hmode pairs (fun _ => lawful.calm_of_live) none).bind
          fun wrapped u _ => lawful.surface_return hmode wraps (by simp), ?_⟩
        refine pairs.limit_eq.imp_right fun hdead hlive => ?_
        have hbefore : z.live (Grammar.tooDeep rules none s).2 := lawful.live_atDepth hlive
        exact hdead _ _ (lawful.calm_of_live hbefore)
      · intro _
        refine lawful.offset_bind ?_
        refine (lawful.deepen hmode).bind ?_
        intro _ u _
        refine (lawful.bump_live none (c.allows_of_normal hmode _)).bind ?_
        intro sign v _
        refine (lawful.branch _ _ fun _ w _ => operates.follows w).bind ?_
        intro right w _
        have hmore : fuel ≤ more := by omega
        have hnext := ih (s := w) hmore (wraps + 1)
          (Node.branch (some .left) .expression nodes s.stream.offset :: sign ++ right)
        simpa using hnext

omit hmode in
/-- Where a line stops does not depend on the expressions around it. -/
theorem stops_surface {p : Parse Forest} (h : Stops s p) (count : Nat) (f : Forest → Forest) :
    Stops s (p >>= fun nodes => Grammar.surface count >>= fun _ => pure (f nodes)) :=
  h

theorem stops_chainFrom (lawful : z.Lawful)
    {right? right?' : Token.Kind → Option (Parse Forest)} (links : Links z c right? right?')
    (hinv : z.inv c s) (hmid : s.MidLine) (fuel wraps : Nat) (nodes : Forest) :
    Stops s (Grammar.chainFrom rules right? fuel wraps nodes) := by
  induction fuel generalizing s wraps nodes with
  | zero =>
    intro _ hspent
    cases hspent
  | succ fuel ih =>
    unfold Grammar.chainFrom
    refine Ensures.peek ?_
    rcases links s.front with ⟨hright, -⟩ | ⟨p, p', hright, -, operates⟩
    · rw [hright]
      exact hmid
    · rw [hright]
      refine Ensures.get ?_
      split
      · exact stops_surface (stops_errorBranch none _ _) wraps (nodes ++ ·)
      · refine Ensures.offset ?_
        refine (lawful.deepen hmode).skip hinv fun _ u hu => ?_
        refine (lawful.bump_live none (c.allows_of_normal hmode _)).skip hu fun sign v hv => ?_
        have hnode : Ensures v (Grammar.branch (some .right) .expression p) fun _ w =>
            w.MidLine ∧ z.inv c w :=
          ⟨stops_branchIn lawful hv fun _ w _ hw => operates.stops w hw,
            (lawful.branch _ _ (fun _ w _ => operates.follows w) hv).1⟩
        refine hnode.bind ?_
        rintro right w ⟨hmid', hw⟩
        exact ih hw hmid' _ _

theorem chain (lawful : z.Lawful) (pairs : z.Pairs rules rules')
    {right? right?' : Token.Kind → Option (Parse Forest)} (links : Links z c right? right?') :
    Operates z c (Grammar.chain rules right?) (Grammar.chain rules' right?') := by
  refine ⟨fun s => ?_, fun s hinv => ?_⟩
  · unfold Grammar.chain
    refine lawful.trivia.bind ?_
    intro before u _
    refine (lawful.operand hmode pairs).bind ?_
    intro first v _
    refine (lawful.chainFrom hmode pairs links pairs.budget_le 0 first).bind ?_
    intro nodes w _
    exact Follows.pure (by simp)
  · unfold Grammar.chain
    refine lawful.trivia.skip hinv fun before u hu => ?_
    have hfirst : Ensures u (Grammar.operand rules) fun _ v => v.MidLine ∧ z.inv c v :=
      ⟨lawful.stops_operand hmode pairs hu, (lawful.operand hmode pairs hu).1⟩
    refine hfirst.bind ?_
    rintro first v ⟨hmid, hv⟩
    exact (lawful.stops_chainFrom hmode links hv hmid rules.budget 0 first).and_return _

theorem factor (lawful : z.Lawful) (pairs : z.Pairs rules rules') :
    Operates z c (Grammar.factor rules) (Grammar.factor rules') :=
  lawful.chain hmode pairs fun _ => .inl ⟨rfl, rfl⟩

theorem term (lawful : z.Lawful) (pairs : z.Pairs rules rules') :
    Operates z c (Grammar.term rules) (Grammar.term rules') := by
  refine lawful.chain hmode pairs fun kind => ?_
  unfold termRight?
  split
  · exact .inr ⟨_, _, rfl, rfl, lawful.factor hmode pairs⟩
  · exact .inl ⟨rfl, rfl⟩

theorem sum (lawful : z.Lawful) (pairs : z.Pairs rules rules') :
    Operates z c (Grammar.sum rules) (Grammar.sum rules') := by
  refine lawful.chain hmode pairs fun kind => ?_
  unfold sumRight?
  split
  · exact .inr ⟨_, _, rfl, rfl, lawful.term hmode pairs⟩
  · exact .inr ⟨_, _, rfl, rfl, lawful.factor hmode pairs⟩
  · exact .inl ⟨rfl, rfl⟩

theorem expression (lawful : z.Lawful) (pairs : z.Pairs rules rules') (field : Option Field) :
    z.Follows c z.live z.live s (Grammar.expression rules field)
      (Grammar.expression rules' field) := by
  unfold Grammar.expression
  refine lawful.limited pairs.limit_le ?_ ?_
  · intro _
    refine ⟨lawful.tooDeep hmode pairs (fun _ => lawful.calm_of_live) field, ?_⟩
    refine pairs.limit_eq.imp_right fun hdead hlive => ?_
    exact hdead _ _ (lawful.calm_of_live hlive)
  · intro _
    refine (lawful.deepen hmode).bind ?_
    intro _ t _
    refine (lawful.branch field _ ?_).bind fun _ _ _ => lawful.surface_return hmode 1 rfl
    intro before u _
    refine (lawful.bumpIf hmode _).bind ?_
    intro root v _
    refine ((lawful.sum hmode pairs).follows v).bind ?_
    intro nodes w _
    exact Follows.pure (by simp)

theorem stops_expression (lawful : z.Lawful) (pairs : z.Pairs rules rules') (hinv : z.inv c s)
    (field : Option Field) : Stops s (Grammar.expression rules field) := by
  unfold Grammar.expression
  refine Ensures.get ?_
  split
  · exact stops_errorBranch field _ _
  · refine (lawful.deepen hmode).skip hinv fun _ t ht => ?_
    refine stops_surface (stops_branchIn lawful ht ?_) 1 id
    intro before u _ hu
    refine (lawful.bumpIf hmode _).skip hu fun root v hv => ?_
    exact ((lawful.sum hmode pairs).stops v hv).and_return _

end Normal

/-! ## Nested expressions -/

section Tie

variable {limit limit' budget budget' : Nat}

theorem expressionAt (lawful : z.Lawful) (hlimit : limit ≤ limit')
    (hreached : limit = limit' ∨
      ∀ (s : State) (span : Span), ¬z.calm (s.withReport (.nestingTooDeep limit) span))
    (hbudget : budget ≤ budget') {fuel fuel' : Nat} (hle : fuel ≤ fuel') (hmode : c.mode = .normal)
    (field : Option Field) :
    Operates z c (Grammar.expressionAt limit budget fuel field)
      (Grammar.expressionAt limit' budget' fuel' field) := by
  induction fuel generalizing fuel' c field with
  | zero =>
    refine ⟨fun s hinv => ?_, fun s _ _ hspent => ?_⟩
    · exact ⟨lawful.inv_spent c.bodies hinv,
        fun hlive => absurd (lawful.calm_of_live hlive) lawful.not_calm_spent⟩
    · cases hspent
  | succ fuel ih =>
    obtain ⟨more, rfl⟩ : ∃ more, fuel' = more + 1 := ⟨fuel' - 1, by omega⟩
    have hmore : fuel ≤ more := by omega
    have pairs : z.Pairs ⟨limit, budget, Grammar.expressionAt limit budget fuel⟩
        ⟨limit', budget', Grammar.expressionAt limit' budget' more⟩ :=
      ⟨hlimit, hreached, hbudget, fun field hmode => (ih hmore hmode field).follows _,
        fun field hmode hinv => (ih hmore hmode field).stops _ hinv⟩
    exact ⟨fun _ => lawful.expression hmode pairs field,
      fun _ hinv => lawful.stops_expression hmode pairs hinv field⟩

/-- The rules of the two runs, tied to themselves. -/
theorem pairs_tie (lawful : z.Lawful) (hlimit : limit ≤ limit')
    (hreached : limit = limit' ∨
      ∀ (s : State) (span : Span), ¬z.calm (s.withReport (.nestingTooDeep limit) span))
    (hbudget : budget ≤ budget') : z.Pairs (.tie limit budget) (.tie limit' budget') := by
  have hnested : ∀ {c : Context} (field : Option Field), c.mode = .normal →
      Operates z c (Grammar.expressionAt limit budget budget field)
        (Grammar.expressionAt limit' budget' budget' field) :=
    fun field hmode => lawful.expressionAt hlimit hreached hbudget hbudget hmode field
  exact ⟨hlimit, hreached, hbudget, fun field hmode => (hnested field hmode).follows _,
    fun field hmode hinv => (hnested field hmode).stops _ hinv⟩

end Tie

end Simulation.Lawful

end Justfile.Grammar
