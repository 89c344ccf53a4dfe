import Justfile.Proofs.Simulation.Primitive

/-!
# Literals and recovery side by side

Strings, commands and interpolations are tracked (`Lawful.string`, `Lawful.command`), and so is what
wraps tokens that fit nowhere. Inside a literal the guard only asks that the input is not at its end;
a literal that is not closed is either reported or found at the end of the input.
-/

set_option autoImplicit false

namespace Justfile.Grammar

/-- What the productions of the two runs are run with: the second run has no less room, and nested
expressions are tracked. Reaching the lower limit rules out the comparison, if the limits differ. -/
structure Simulation.Pairs (z : Simulation) (rules rules' : Rules) : Prop where
  limit_le : rules.limit ≤ rules'.limit
  limit_eq : rules.limit = rules'.limit ∨
    ∀ (s : State) (span : Span), ¬z.calm (s.withReport (.nestingTooDeep rules.limit) span)
  budget_le : rules.budget ≤ rules'.budget
  expression : ∀ {c s} (field : Option Field), c.mode = .normal →
    z.Follows c z.live z.live s (rules.expression field) (rules'.expression field)
  stops : ∀ {c s} (field : Option Field), c.mode = .normal → z.inv c s →
    Stops s (rules.expression field)

/-! ## Productions in a known context -/

theorem closeBraces_bind {α : Type} (f : Forest → Parse α) :
    (closeBraces >>= f) = get >>= fun s =>
      if s.stream.atGlued (.mark .braceR) (.mark .braceR) then bumpGlued .interpolationClose >>= f
      else missing none (.token .interpolationClose) >>= f := by
  funext s
  change (closeBraces >>= f) s = (if s.stream.atGlued (.mark .braceR) (.mark .braceR) then
    bumpGlued .interpolationClose >>= f else missing none (.token .interpolationClose) >>= f) s
  change f (closeBraces s).1 (closeBraces s).2 = _
  rw [closeBraces_eq]
  split <;> rfl

theorem get_bind {α : Type} (f : State → Parse α) (s : State) : (get >>= f) s = f s s := rfl

section Contexts

variable (rules : Rules) (c : Context)

/-- An interpolation in a context. -/
def interpolationIn : Parse Forest :=
  branch none .interpolation do
    let opened ← bump
    setMode .normal
    onStream (·.enterLine)
    let inner ← rules.expression none
    let closed ← closeBraces
    onStream fun s => { s with nesting := c.nesting, lineBound := c.lineBound }
    setMode c.mode
    return opened ++ inner ++ closed

theorem interpolation_eq {s : State} (h : c.Governs s.stream) :
    interpolation rules s = interpolationIn rules c s := by
  obtain ⟨hmode, hnesting, hlineBound⟩ := h
  unfold interpolationIn
  simp only [closeBraces_bind]
  rw [← hmode, ← hnesting, ← hlineBound]
  rfl

/-- The delimiters of a string in a context, and what stands between them. -/
def stringPartsIn (dialect : Dialect) : Parse Forest := do
  let opened ← bump
  setMode (.stringContent dialect)
  let contents ← loop (stringStep rules) rules.budget ()
  setMode c.mode
  return opened ++ contents

theorem stringParts_eq {s : State} (h : c.Governs s.stream) (dialect : Dialect) :
    stringParts rules dialect s = stringPartsIn rules c dialect s := by
  unfold stringParts
  rw [get_bind, h.mode]
  rfl

/-- A command in a context. -/
def commandIn (field : Option Field) (indented : Bool) : Parse Forest :=
  branch field .externalCommand do
    let opened ← bump
    setMode (.commandContent indented)
    let contents ← commandBody rules
    let closed ← commandEnd
    setMode c.mode
    return opened ++ contents ++ closed

theorem command_eq {s : State} (h : c.Governs s.stream) (field : Option Field) (indented : Bool) :
    command rules field indented s = commandIn rules c field indented s := by
  unfold command
  rw [get_bind, h.mode]
  rfl

end Contexts

theorem isErrorRecovery_eq_false {kind : Token.Kind} (h : ∀ fault, kind ≠ .errorRecovery fault) :
    kind.isErrorRecovery = false := by
  unfold Token.Kind.isErrorRecovery
  split
  · next fault => exact absurd rfl (h fault)
  · rfl

namespace Simulation.Lawful

variable {z : Simulation} {rules rules' : Rules} {c : Context} {post : State → Prop} {s : State}

/-! ## Interpolations -/

theorem interpolation (lawful : z.Lawful) (pairs : z.Pairs rules rules')
    (hfront : s.front = .interpolationOpen) (hallows : c.Allows .interpolationOpen)
    (hadmits : c.Admits c.mode) :
    z.Follows c z.live z.calm s (Grammar.interpolation rules) (Grammar.interpolation rules') := by
  refine Tracks.congr (fun hinv => interpolation_eq rules c (lawful.governs hinv))
    (fun t hrel => interpolation_eq rules' c (lawful.governs_rel hrel)) ?_
  unfold interpolationIn
  refine lawful.branch none _ ?_
  intro before u trimmed
  have hu : u.front = .interpolationOpen := trimmed.front.trans hfront
  refine Tracks.of_inv fun hinv => ?_
  refine (lawful.bump none (hu ▸ hallows) (by rw [hu]; exact nofun)).bind ?_
  intro opened v hv
  -- Behind the opening token the mode may change: a token was consumed in the old one.
  have hentered : v.Entered := entered_bump (.inr hu) hv (lawful.wellFormed hinv)
  refine (lawful.setMode lawful.portable_calm c.admits_normal fun _ => .inr (.inr hentered)).bind ?_
  intro _ w _
  have henter : ∀ x : State, (c.within .normal c.nesting c.lineBound).Governs x.stream →
      { x with stream := x.stream.enterLine } = x.within .normal 0 true x.depth := by
    rintro x ⟨hmode, -, -⟩
    rw [← show x.stream.mode = .normal from hmode]
    rfl
  refine (lawful.change id (Context.admits_normal _) (Context.leaves_self _ w) henter ?_).bind ?_
  · exact lawful.portable_calm w w.stream.mode 0 true w.depth
  intro _ x _
  refine ((pairs.expression none rfl).mono_pre fun _ => lawful.calm_of_live).bind ?_
  intro inner y _
  refine (lawful.close_braces rfl).bind ?_
  intro closed k _
  have hleave : ∀ x : State, ((c.within .normal c.nesting c.lineBound).within .normal 0 true).Governs
      x.stream → { x with stream :=
        { x.stream with nesting := c.nesting, lineBound := c.lineBound } } =
          x.within .normal c.nesting c.lineBound x.depth := by
    rintro x ⟨hmode, -, -⟩
    rw [← show x.stream.mode = .normal from hmode]
    rfl
  refine (lawful.change id (Context.admits_normal _) (Context.leaves_self _ k) hleave ?_).bind ?_
  · exact lawful.portable_calm k k.stream.mode c.nesting c.lineBound k.depth
  intro _ j _
  refine (lawful.setMode (c := c.within .normal c.nesting c.lineBound) lawful.portable_calm
    hadmits (Context.leaves_of_ne (by exact nofun) _ j)).bind ?_
  intro _ l _
  exact Follows.pure (by simp)

theorem stops_interpolation : Stops s (Grammar.interpolation rules) := by
  have hin := interpolation_eq rules
    ⟨s.stream.mode, s.stream.nesting, s.stream.lineBound, 0, false⟩ (s := s) ⟨rfl, rfl, rfl⟩
  unfold Stops Ensures
  rw [hin]
  refine stops_branch none _ fun u => ?_
  refine Ensures.last fun opened v => Ensures.last fun _ w => Ensures.last fun _ x => ?_
  exact Ensures.last fun inner y => Ensures.bind stops_closeBraces fun closed _ hmid => hmid

/-! ## Strings -/

section Contents

variable {dialect : Dialect} {indented : Bool}

theorem stringStep (lawful : z.Lawful) (pairs : z.Pairs rules rules')
    (hmode : c.mode = .stringContent dialect) (hliteral : c.literal = true) :
    z.Iterates c c.bodies z.live z.wide s (Grammar.stringStep rules ())
      (Grammar.stringStep rules' ()) := by
  have hallows : ∀ kind, c.Allows kind := fun kind => .inl (by rw [hmode]; rfl)
  have hadmits : c.Admits c.mode := by
    rw [hmode]
    exact ⟨fun _ => hliteral, nofun, nofun⟩
  unfold Grammar.stringStep
  refine lawful.peek ?_
  split
  · exact (lawful.bump_live none (hallows _)).bind fun nodes u _ => again rfl ()
  · exact (lawful.bump_live none (hallows _)).bind fun nodes u _ => again rfl ()
  · next hfront =>
    refine (lawful.interpolation pairs hfront (hallows _) hadmits).bind ?_
    intro nodes u _
    exact (again rfl ()).mono_pre fun _ => lawful.calm_of_live
  · next hfront =>
    refine (lawful.bump none (hallows _) (by rw [hfront]; exact nofun)).bind ?_
    intro nodes u _
    exact (done rfl).mono_pre fun _ => lawful.calm_of_wide
  · next hfront =>
    refine (lawful.bump none (hallows _) (by rw [hfront]; exact nofun)).bind ?_
    intro nodes u _
    exact (done rfl).mono_pre fun _ => lawful.calm_of_wide
  · next hfault =>
    have hcontent : c.mode.fault?.isSome = true := by
      rw [hmode]
      rfl
    refine (done rfl).mono_pre fun hinv hwide => ?_
    exact lawful.live_of_wide hinv hwide hcontent (isErrorRecovery_eq_false hfault)

/-- The opening token of a literal, behind which its contents are read. -/
theorem open_contents (lawful : z.Lawful) (l : Literal) (hfront : s.front = l.opening)
    {f g : Forest → Parse Forest} {e : Context}
    (h : ∀ opened u, z.Tracks (c.opened.within l.mode c.nesting c.lineBound) z.calm z.moved
      (fun _ => e) (fun _ => post) u (f opened) (g (z.moved opened))) :
    z.Tracks c z.live z.moved (fun _ => e) (fun _ => post) s
      (Grammar.bump >>= fun opened => Grammar.setMode l.mode >>= fun _ => f opened)
      (Grammar.bump >>= fun opened => Grammar.setMode l.mode >>= fun _ => g opened) := by
  have hopens : s.front.opensLiteral = true := by
    rw [hfront]
    cases l <;> rfl
  refine Tracks.of_inv fun hinv => ?_
  refine (lawful.open_literal none hopens).bind ?_
  intro opened u hu
  have hentered : u.Entered := entered_bump (.inl hopens) hu (lawful.wellFormed hinv)
  have hadmits : c.opened.Admits l.mode := by
    cases l <;> exact ⟨fun _ => rfl, nofun, nofun⟩
  refine (lawful.setMode lawful.portable_calm hadmits fun _ => .inr (.inr hentered)).bind ?_
  intro _ v _
  exact h opened v

theorem stringParts (lawful : z.Lawful) (pairs : z.Pairs rules rules')
    (hfront : s.front = .stringOpen dialect) (hadmits : c.Admits c.mode) :
    z.Follows c z.live z.wide s (Grammar.stringParts rules dialect)
      (Grammar.stringParts rules' dialect) := by
  refine Tracks.congr (fun hinv => stringParts_eq rules c (lawful.governs hinv) dialect)
    (fun t hrel => stringParts_eq rules' c (lawful.governs_rel hrel) dialect) ?_
  unfold stringPartsIn
  refine lawful.open_contents (.string dialect) hfront ?_
  intro opened u
  refine ((lawful.loop (fun _ => lawful.calm_of_wide) (fun _ v => lawful.stringStep pairs rfl rfl)
    pairs.budget_le ()).mono_pre fun _ => lawful.calm_of_live).bind ?_
  intro contents v _
  have hback : (c.opened.within (.stringContent dialect) c.nesting c.lineBound).Admits c.mode :=
    ⟨fun _ => rfl, hadmits.2⟩
  refine Tracks.mono_context (d := fun _ => c.opened) ?_ (fun _ _ => lawful.inv_opened)
    fun _ _ _ => lawful.rel_opened
  have hleaves : (c.opened.within (.stringContent dialect) c.nesting c.lineBound).Leaves c.mode v :=
    Context.leaves_of_ne (by exact nofun) _ v
  refine (lawful.setMode lawful.portable_wide hback hleaves).bind ?_
  intro _ w _
  exact Follows.pure (by simp)

/-- A string is tracked as long as the input goes on behind it. -/
theorem string (lawful : z.Lawful) (pairs : z.Pairs rules rules')
    (hfront : s.front = .stringOpen dialect) (hadmits : c.Admits c.mode) (field : Option Field) :
    z.Follows c z.live z.wide s (Grammar.string rules field dialect)
      (Grammar.string rules' field dialect) := by
  unfold Grammar.string
  refine lawful.branch field _ ?_
  intro before u trimmed
  have hu : u.front = .stringOpen dialect := trimmed.front.trans hfront
  split
  · refine lawful.branch none _ ?_
    intro before' v trimmed'
    exact lawful.stringParts pairs (trimmed'.front.trans hu) hadmits
  · exact lawful.stringParts pairs hu hadmits

theorem stops_stringStep (hmid : s.MidLine) :
    Ensures s (Grammar.stringStep rules ()) fun _ t => t.MidLine := by
  unfold Grammar.stringStep
  refine Ensures.peek ?_
  split
  · next hfront => exact (stops_bump hfront rfl none).and_again _
  · next hfront => exact (stops_bump hfront rfl none).and_again _
  · exact stops_interpolation.and_again _
  · next hfront => exact (stops_bump hfront rfl none).and_done _
  · next hfront => exact (stops_bump hfront rfl none).and_done _
  · exact hmid

theorem stops_stringParts (lawful : z.Lawful) (pairs : z.Pairs rules rules')
    (hfront : s.front = .stringOpen dialect) (hinv : z.inv c s) :
    Stops s (Grammar.stringParts rules dialect) := by
  unfold Grammar.stringParts
  refine Ensures.get ?_
  have hopens : s.front.opensLiteral = true := by
    rw [hfront]
    rfl
  have hopened : Ensures s Grammar.bump fun _ u => u.MidLine ∧ z.inv c.opened u ∧ u.Entered :=
    ⟨stops_bump hfront rfl none, (lawful.open_literal none hopens hinv).1,
      entered_bump (.inl hopens) rfl (lawful.wellFormed hinv)⟩
  refine hopened.bind ?_
  rintro opened u ⟨hmid, hinv', hentered⟩
  have hadmits : c.opened.Admits (.stringContent dialect) := ⟨fun _ => rfl, nofun, nofun⟩
  exact stops_loop (fun _ v => lawful.stringStep pairs rfl rfl)
    (fun _ v _ => stops_stringStep) (lawful.setMode lawful.portable_calm hadmits
      (fun _ => .inr (.inr hentered)) hinv').1 (stops_stringStep hmid) rules.budget

theorem stops_string (lawful : z.Lawful) (pairs : z.Pairs rules rules')
    (hfront : s.front = .stringOpen dialect) (hinv : z.inv c s) (field : Option Field) :
    Stops s (Grammar.string rules field dialect) := by
  unfold Grammar.string
  refine stops_branchIn lawful hinv ?_
  intro before u trimmed hu
  have hfront' := trimmed.front.trans hfront
  split
  · refine stops_branchIn lawful hu ?_
    intro before' v trimmed' hv
    exact lawful.stops_stringParts pairs (trimmed'.front.trans hfront') hv
  · exact lawful.stops_stringParts pairs hfront' hu

theorem stringOr (lawful : z.Lawful) (pairs : z.Pairs rules rules') (hmode : c.mode = .normal)
    (field : Option Field) (expected : Expected) :
    z.Follows c z.live z.wide s (Grammar.stringOr rules field expected)
      (Grammar.stringOr rules' field expected) := by
  unfold Grammar.stringOr
  refine lawful.peek ?_
  split
  · next hfront => exact lawful.string pairs hfront (hmode ▸ c.admits_normal) field
  · exact lawful.missing_live (fun _ => lawful.calm_of_wide) field expected

theorem stops_stringOr (lawful : z.Lawful) (pairs : z.Pairs rules rules') (hinv : z.inv c s)
    (field : Option Field) (expected : Expected) :
    Stops s (Grammar.stringOr rules field expected) := by
  unfold Grammar.stringOr
  refine Ensures.peek ?_
  split
  · next hfront => exact lawful.stops_string pairs hfront hinv field
  · exact stops_missing field expected

/-! ## Commands -/

theorem commandStep (lawful : z.Lawful) (pairs : z.Pairs rules rules')
    (hmode : c.mode = .commandContent indented) (hliteral : c.literal = true) :
    z.Iterates c c.bodies z.live z.live s (Grammar.commandStep rules ())
      (Grammar.commandStep rules' ()) := by
  have hallows : ∀ kind, c.Allows kind := fun kind => .inl (by rw [hmode]; rfl)
  have hadmits : c.Admits c.mode := by
    rw [hmode]
    exact ⟨fun _ => hliteral, nofun, nofun⟩
  unfold Grammar.commandStep
  refine lawful.peek ?_
  split
  · exact (lawful.bump_live none (hallows _)).bind fun nodes u _ => again rfl ()
  · next hfront =>
    refine (lawful.interpolation pairs hfront (hallows _) hadmits).bind ?_
    intro nodes u _
    exact (again rfl ()).mono_pre fun _ => lawful.calm_of_live
  · exact done rfl

theorem commandBody (lawful : z.Lawful) (pairs : z.Pairs rules rules')
    (hmode : c.mode = .commandContent indented) (hliteral : c.literal = true) :
    z.Follows c z.live z.live s (Grammar.commandBody rules) (Grammar.commandBody rules') := by
  have hbody : z.Follows c z.live z.live s
      (Grammar.branch none .commandBody (Grammar.loop (Grammar.commandStep rules) rules.budget ()))
      (Grammar.branch none .commandBody
        (Grammar.loop (Grammar.commandStep rules') rules'.budget ())) := by
    refine lawful.branch none _ ?_
    intro before u _
    exact lawful.loop (fun _ => lawful.calm_of_live)
      (fun _ v => lawful.commandStep pairs hmode hliteral) pairs.budget_le ()
  unfold Grammar.commandBody
  refine lawful.peek ?_
  split
  · exact hbody
  · exact hbody
  · exact Follows.pure rfl

theorem commandEnd (lawful : z.Lawful) (hmode : c.mode = .commandContent indented) :
    z.Follows c z.live z.wide s Grammar.commandEnd Grammar.commandEnd := by
  have hallows : ∀ kind, c.Allows kind := fun kind => .inl (by rw [hmode]; rfl)
  have hbump : s.front ≠ .endOfInput →
      z.Follows c z.live z.wide s Grammar.bump Grammar.bump := by
    intro hne
    exact (lawful.bump none (hallows _) hne).mono_post fun _ _ _ _ => lawful.calm_of_wide
  unfold Grammar.commandEnd
  refine lawful.peek ?_
  split
  · next hfront => exact hbump (by rw [hfront]; exact nofun)
  · next hfront => exact hbump (by rw [hfront]; exact nofun)
  · next hfault =>
    have hcontent : c.mode.fault?.isSome = true := by
      rw [hmode]
      rfl
    refine (Follows.pure rfl).mono_pre fun hinv hwide => ?_
    exact lawful.live_of_wide hinv hwide hcontent (isErrorRecovery_eq_false hfault)

theorem command (lawful : z.Lawful) (pairs : z.Pairs rules rules')
    (hfront : s.front = .commandOpen indented) (hadmits : c.Admits c.mode) (field : Option Field) :
    z.Follows c z.live z.wide s (Grammar.command rules field indented)
      (Grammar.command rules' field indented) := by
  refine Tracks.congr (fun hinv => command_eq rules c (lawful.governs hinv) field indented)
    (fun t hrel => command_eq rules' c (lawful.governs_rel hrel) field indented) ?_
  unfold commandIn
  refine lawful.branch field _ ?_
  intro before u trimmed
  have hu : u.front = .commandOpen indented := trimmed.front.trans hfront
  refine lawful.open_contents (.command indented) hu ?_
  intro opened v
  refine ((lawful.commandBody pairs rfl rfl).mono_pre fun _ => lawful.calm_of_live).bind ?_
  intro contents w _
  refine (lawful.commandEnd rfl).bind ?_
  intro closed x _
  have hback : (c.opened.within (.commandContent indented) c.nesting c.lineBound).Admits c.mode :=
    ⟨fun _ => rfl, hadmits.2⟩
  refine Tracks.mono_context (d := fun _ => c.opened) ?_ (fun _ _ => lawful.inv_opened)
    fun _ _ _ => lawful.rel_opened
  have hleaves : (c.opened.within (.commandContent indented) c.nesting c.lineBound).Leaves c.mode x :=
    Context.leaves_of_ne (by exact nofun) _ x
  refine (lawful.setMode lawful.portable_wide hback hleaves).bind ?_
  intro _ y _
  exact Follows.pure (by simp)

theorem stops_commandStep (hmid : s.MidLine) :
    Ensures s (Grammar.commandStep rules ()) fun _ t => t.MidLine := by
  unfold Grammar.commandStep
  refine Ensures.peek ?_
  split
  · next hfront => exact (stops_bump hfront rfl none).and_again _
  · exact stops_interpolation.and_again _
  · exact hmid

theorem stops_commandBody (lawful : z.Lawful) (pairs : z.Pairs rules rules')
    (hmode : c.mode = .commandContent indented) (hliteral : c.literal = true) (hinv : z.inv c s)
    (hmid : s.MidLine) : Stops s (Grammar.commandBody rules) := by
  have hbody : (∀ u : State, u.front = s.front →
      Ensures u (Grammar.commandStep rules ()) fun _ t => t.MidLine) →
      Stops s (Grammar.branch none .commandBody
        (Grammar.loop (Grammar.commandStep rules) rules.budget ())) := by
    intro hfirst
    refine stops_branchIn lawful hinv ?_
    intro before u trimmed hu
    exact stops_loop (fun _ v => lawful.commandStep pairs hmode hliteral)
      (fun _ v _ => stops_commandStep) hu (hfirst u trimmed.front) rules.budget
  unfold Grammar.commandBody
  refine Ensures.peek ?_
  split
  · next hfront =>
    refine hbody fun u hu => Ensures.peek ?_
    rw [hu, hfront]
    exact (stops_bump (hu.trans hfront) rfl none).and_again _
  · next hfront =>
    refine hbody fun u hu => Ensures.peek ?_
    rw [hu, hfront]
    exact stops_interpolation.and_again _
  · exact hmid

theorem stops_command (lawful : z.Lawful) (pairs : z.Pairs rules rules')
    (hfront : s.front = .commandOpen indented) (hinv : z.inv c s) (field : Option Field) :
    Stops s (Grammar.command rules field indented) := by
  unfold Grammar.command
  refine Ensures.get (stops_branchIn lawful hinv ?_)
  intro before u trimmed hu
  have hfront' : u.front = .commandOpen indented := trimmed.front.trans hfront
  have hopens : u.front.opensLiteral = true := by
    rw [hfront']
    rfl
  have hopened : Ensures u Grammar.bump fun _ v => v.MidLine ∧ z.inv c.opened v ∧ v.Entered :=
    ⟨stops_bump hfront' rfl none, (lawful.open_literal none hopens hu).1,
      entered_bump (.inl hopens) rfl (lawful.wellFormed hu)⟩
  refine hopened.bind ?_
  rintro opened v ⟨hmid, hv, hentered⟩
  have hadmits : c.opened.Admits (.commandContent indented) := ⟨fun _ => rfl, nofun, nofun⟩
  refine Ensures.setMode ?_
  have hbody := lawful.stops_commandBody pairs rfl rfl
    (lawful.setMode lawful.portable_calm hadmits (fun _ => .inr (.inr hentered)) hv).1 hmid
  refine hbody.bind ?_
  intro contents w hw
  have hend : Stops w Grammar.commandEnd := by
    unfold Grammar.commandEnd
    refine Ensures.peek ?_
    split
    · next hfront => exact stops_bump hfront rfl none
    · next hfront => exact stops_bump hfront rfl none
    · exact hw
  exact hend

end Contents

/-! ## Recovery -/

theorem bumpAny (lawful : z.Lawful) (pairs : z.Pairs rules rules') (hallows : c.Allows s.front)
    (hadmits : c.Admits c.mode) :
    z.Follows c z.live z.live s (Grammar.bumpAny rules) (Grammar.bumpAny rules') := by
  unfold Grammar.bumpAny
  refine lawful.peek ?_
  split
  · next hfront =>
    exact (lawful.string pairs hfront hadmits none).mono_post fun _ _ _ _ => lawful.wide_of_live
  · next hfront =>
    exact (lawful.command pairs hfront hadmits none).mono_post fun _ _ _ _ => lawful.wide_of_live
  · exact lawful.bump_live none hallows

/-- A token that fits nowhere is reported, or was reported before. -/
theorem errorToken (lawful : z.Lawful) (pairs : z.Pairs rules rules') (hallows : c.Allows s.front)
    (hadmits : c.Admits c.mode) (field : Option Field) (expected : Expected) :
    z.Follows c z.live z.calm s (Grammar.errorToken rules field expected)
      (Grammar.errorToken rules' field expected) := by
  unfold Grammar.errorToken
  refine lawful.peekToken ?_
  intro token alike
  rw [alike.kind, alike.found]
  split
  · next hfault =>
    refine lawful.bump field hallows ?_
    intro hend
    rw [show (s.stream.nth 0).kind = .endOfInput from hend] at hfault
    cases hfault
  · refine lawful.errorBranch (fun _ => id) field _ ?_
    intro before u trimmed
    exact lawful.bumpAny pairs (trimmed.front ▸ hallows) hadmits

theorem stops_errorToken (field : Option Field) (expected : Expected) :
    Stops s (Grammar.errorToken rules field expected) := by
  unfold Grammar.errorToken
  refine Ensures.peekToken ?_
  split
  · next hfault =>
    have hline : isInLine s.front = true := by
      cases hfront : s.front with
      | errorRecovery fault => rfl
      | _ =>
        rw [show (s.stream.nth 0).kind = _ from hfront] at hfault
        cases hfault
    exact stops_bump rfl hline field
  · exact stops_errorBranch field _ _

section Lines

variable (hmode : c.mode = .normal)
include hmode

theorem recoverStep (lawful : z.Lawful) (pairs : z.Pairs rules rules') :
    z.Iterates c c.bodies z.live z.live s (Grammar.recoverStep rules ())
      (Grammar.recoverStep rules' ()) := by
  unfold Grammar.recoverStep
  refine lawful.isAtLineEnd ?_ ?_
  · intro _
    exact done rfl
  · intro _
    refine (lawful.bumpAny pairs (c.allows_of_normal hmode _) (hmode ▸ c.admits_normal)).bind ?_
    intro nodes u _
    exact again rfl ()

theorem recoverLine (lawful : z.Lawful) (pairs : z.Pairs rules rules') (expected : Expected) :
    z.Follows c z.live z.calm s (Grammar.recoverLine rules expected)
      (Grammar.recoverLine rules' expected) := by
  unfold Grammar.recoverLine
  refine lawful.isAtLineEnd ?_ ?_
  · intro _
    exact lawful.missing_live (fun _ => id) none expected
  · intro _
    refine lawful.peekToken ?_
    intro token alike
    rw [alike.found]
    refine lawful.errorBranch (fun _ => id) none _ ?_
    intro before u _
    exact lawful.loop (fun _ => lawful.calm_of_live) (fun _ v => lawful.recoverStep hmode pairs)
      pairs.budget_le ()

omit hmode in
/-- Wrapping the rest of a line is always reported. -/
theorem reports_recoverLine (rules : Rules) (expected : Expected) (s : State) :
    (Grammar.recoverLine rules expected s).2.reports ≠ [] := by
  change ((if endsLine s.front = true then Grammar.missing none expected else _) s).2.reports ≠ []
  split
  · exact List.cons_ne_nil _ _
  · exact List.cons_ne_nil _ _

/-- Once something is reported, the end of the line can be looked for under the weakest guard. -/
theorem bumpIf_reported (lawful : z.Lawful) (hreports : s.reports ≠ []) (kind : Token.Kind)
    (hkind : kind ≠ .endOfInput) :
    z.Follows c z.calm z.calm s (Grammar.bumpIf kind) (Grammar.bumpIf kind) := by
  unfold Grammar.bumpIf
  refine Tracks.mono_pre (lawful.isAt ?_ ?_) fun _ => lawful.calm_of_live
  · intro hfront
    exact lawful.bump_calm hmode none hfront hkind
  · intro _
    refine (Follows.pure rfl).mono_pre fun _ hcalm => ?_
    exact lawful.live_of_peer (lawful.peer_of_reported hreports hcalm)

theorem lineEnd (lawful : z.Lawful) (pairs : z.Pairs rules rules') (hnesting : c.nesting = 0)
    (hmid : s.MidLine) :
    z.Follows c z.live z.calm s (Grammar.lineEnd rules) (Grammar.lineEnd rules') := by
  unfold Grammar.lineEnd
  refine lawful.peek ?_
  split
  · next hfront => exact lawful.bump_calm hmode none hfront nofun
  · next hfront =>
    refine (Follows.pure rfl).mono_pre fun hinv hcalm => ?_
    exact lawful.live_of_midLine hinv hmid hcalm hmode hnesting (.inl hfront)
  · next hfront =>
    refine (Follows.pure rfl).mono_pre fun hinv hcalm => ?_
    exact lawful.live_of_midLine hinv hmid hcalm hmode hnesting (.inr hfront)
  · refine (lawful.recoverLine hmode pairs _).bind ?_
    intro wrapped u hu
    have hreports : u.reports ≠ [] := by
      have hall := reports_recoverLine rules .endOfLine s
      rwa [hu] at hall
    refine (lawful.bumpIf_reported hmode hreports .newline nofun).bind ?_
    intro newline v _
    exact Follows.pure (by simp)

/-! ## Constructs that are nested too deep -/

theorem tooDeepStep (lawful : z.Lawful) (pairs : z.Pairs rules rules') (balance : Nat) :
    z.Iterates c c.bodies z.live z.live s (Grammar.tooDeepStep rules balance)
      (Grammar.tooDeepStep rules' balance) := by
  have hallows := c.allows_of_normal hmode
  have hbump : ∀ next : Nat, z.Iterates c c.bodies z.live z.live s
      (Grammar.bump >>= fun nodes => Pure.pure (nodes, some next))
      (Grammar.bump >>= fun nodes => Pure.pure (nodes, some next)) := by
    intro next
    exact (lawful.bump_live none (hallows _)).bind fun nodes u _ => again rfl next
  unfold Grammar.tooDeepStep
  refine lawful.peek ?_
  split
  · exact done rfl
  · exact done rfl
  · exact done rfl
  · exact hbump (balance + 1)
  · exact hbump (balance + 1)
  · exact hbump (balance + 1)
  · cases balance with
    | zero => exact done rfl
    | succ balance => exact hbump balance
  · cases balance with
    | zero => exact done rfl
    | succ balance => exact hbump balance
  · cases balance with
    | zero => exact done rfl
    | succ balance => exact hbump balance
  · refine (lawful.bumpAny pairs (hallows _) (hmode ▸ c.admits_normal)).bind ?_
    intro nodes u _
    exact again rfl balance

/-- What is nested too deep in the first run is so in the second, or rules out the comparison. -/
theorem tooDeep (lawful : z.Lawful) (pairs : z.Pairs rules rules')
    (hcalm : ∀ u, post u → z.calm u) (field : Option Field) :
    z.Follows c z.live post s (Grammar.tooDeep rules field) (Grammar.tooDeep rules' field) := by
  have hbody : z.Follows c z.live post s (Grammar.tooDeep rules field)
      (Grammar.errorBranch field (.nestingTooDeep rules.limit)
        (Grammar.loop (Grammar.tooDeepStep rules') rules'.budget 0)) := by
    unfold Grammar.tooDeep
    refine lawful.errorBranch hcalm field _ ?_
    intro before u _
    exact lawful.loop (fun _ => lawful.calm_of_live)
      (fun balance v => lawful.tooDeepStep hmode pairs balance) pairs.budget_le 0
  rcases pairs.limit_eq with heq | hdead
  · rw [heq] at hbody
    exact hbody
  · refine hbody.vacuous ?_
    intro hpost
    exact hdead _ _ (hcalm _ hpost)

end Lines

end Simulation.Lawful

end Justfile.Grammar
