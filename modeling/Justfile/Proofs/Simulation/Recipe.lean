import Justfile.Proofs.Simulation.Expression

/-!
# Recipes side by side

Headers are tracked under the guard of expressions. A body is different: where its next line starts,
and whether there is one, is seen from the text up to that line alone. So bodies are tracked under
the weakest guard (`Lawful.recipeBody`), and a recipe may be the last thing the two runs have in
common (`Lawful.recipe`).
-/

set_option autoImplicit false

namespace Justfile.Grammar

theorem Context.within_self {c : Context} {mode : Mode} (h : c.mode = mode) :
    c.within mode c.nesting c.lineBound = c := by
  rw [← h]
  rfl

namespace Simulation.Lawful

variable {z : Simulation} {rules rules' : Rules} {c : Context} {s : State}

/-! ## Guards under which the next token is seen -/

/-- A guard under which the next token is the same in both runs, and which is kept by consuming it
inside a line. -/
structure Watches (z : Simulation) (c : Context) (guard : State → Prop) : Prop where
  calm : ∀ {s}, guard s → z.calm s
  front : ∀ {s t}, z.inv c s → guard s → z.rel c s t → t.front = s.front
  bump : ∀ {s} (field : Option Field) {kind : Token.Kind}, s.front = kind → kind ≠ .endOfInput →
    kind ≠ .dedent → z.Follows c guard guard s (Grammar.bump field) (Grammar.bump field)

theorem watches_live (lawful : z.Lawful) (hmode : c.mode = .normal) : Watches z c z.live where
  calm := lawful.calm_of_live
  front := lawful.front
  bump field _ _ _ _ := lawful.bump_live field (c.allows_of_normal hmode _)

theorem watches_body (lawful : z.Lawful) (hmode : c.mode = .body) (hbodies : c.bodies ≠ 0) :
    Watches z c z.calm where
  calm := id
  front hinv := lawful.front_body hinv hmode hbodies
  bump field _ hfront hend hlevel :=
    (lawful.bump field (.inr ⟨hmode, hbodies, hfront ▸ hlevel⟩) (hfront ▸ hend)).mono_pre
      fun _ => lawful.calm_of_live

section Watches

variable {α β : Type} {m : α → β} {d : α → Context} {Q : α → State → Prop} {guard : State → Prop}

theorem Watches.peek (watches : Watches z c guard) {f : Token.Kind → Parse α}
    {g : Token.Kind → Parse β} (h : z.Tracks c guard m d Q s (f s.front) (g s.front)) :
    z.Tracks c guard m d Q s (Grammar.peek >>= f) (Grammar.peek >>= g) :=
  Tracks.look State.front (fun _ => watches.front) h

theorem Watches.isAt (watches : Watches z c guard) {kind : Token.Kind} {f : Bool → Parse α}
    {g : Bool → Parse β} (hat : s.front = kind → z.Tracks c guard m d Q s (f true) (g true))
    (hnot : s.front ≠ kind → z.Tracks c guard m d Q s (f false) (g false)) :
    z.Tracks c guard m d Q s (Grammar.isAt kind >>= f) (Grammar.isAt kind >>= g) := by
  refine watches.peek (f := fun front => f (front == kind)) (g := fun front => g (front == kind)) ?_
  cases heq : s.front == kind with
  | true => exact hat (beq_iff_eq.1 heq)
  | false => exact hnot (beq_eq_false_iff_ne.1 heq)

theorem Watches.bumpIf (watches : Watches z c guard) (kind : Token.Kind)
    (hend : kind ≠ .endOfInput) (hlevel : kind ≠ .dedent) :
    z.Follows c guard guard s (Grammar.bumpIf kind) (Grammar.bumpIf kind) := by
  unfold Grammar.bumpIf
  refine watches.isAt ?_ fun _ => Follows.pure (by simp)
  intro hfront
  exact watches.bump none hfront hend hlevel

/-! ## Shebang lines -/

theorem shebangStep (watches : Watches z c guard) :
    z.Iterates c c.bodies guard guard s (Grammar.shebangStep ()) (Grammar.shebangStep ()) := by
  have hpiece : ∀ {kind : Token.Kind}, s.front = kind → kind ≠ .endOfInput → kind ≠ .dedent →
      z.Iterates c c.bodies guard guard s
        (Grammar.bump >>= fun nodes => Grammar.again nodes)
        (Grammar.bump >>= fun nodes => Grammar.again nodes) := by
    intro kind hfront hend hlevel
    exact (watches.bump none hfront hend hlevel).bind fun nodes u _ => again rfl ()
  unfold Grammar.shebangStep
  refine watches.peek ?_
  split
  · next hfront => exact hpiece hfront nofun nofun
  · next hfront => exact hpiece hfront nofun nofun
  · next hfront => exact hpiece hfront nofun nofun
  · next hfront => exact hpiece hfront nofun nofun
  · next hfront => exact hpiece hfront nofun nofun
  · exact done rfl

theorem shebang (lawful : z.Lawful) (pairs : z.Pairs rules rules') (watches : Watches z c guard)
    (hfirst : ∀ {u : State}, u.front = .shebangStart → z.inv c u → guard u → z.live u)
    (hfront : s.front = .shebangStart) (field : Option Field) :
    z.Follows c z.live guard s (Grammar.shebang rules field) (Grammar.shebang rules' field) := by
  unfold Grammar.shebang
  refine lawful.branch field _ ?_
  intro before u trimmed
  have hu : u.front = .shebangStart := trimmed.front.trans hfront
  refine ((watches.bump none hu nofun nofun).mono_pre (hfirst hu)).bind ?_
  intro start v _
  refine (lawful.loop (fun _ => watches.calm) (fun _ w => shebangStep watches) pairs.budget_le
    ()).bind ?_
  intro pieces w _
  exact Follows.pure (by simp)

end Watches

theorem stops_shebangStep (hmid : s.MidLine) :
    Ensures s (Grammar.shebangStep ()) fun _ t => t.MidLine := by
  unfold Grammar.shebangStep
  refine Ensures.peek ?_
  split
  · next hfront => exact (stops_bump hfront rfl none).and_again _
  · next hfront => exact (stops_bump hfront rfl none).and_again _
  · next hfront => exact (stops_bump hfront rfl none).and_again _
  · next hfront => exact (stops_bump hfront rfl none).and_again _
  · next hfront => exact (stops_bump hfront rfl none).and_again _
  · exact hmid

theorem stops_shebang (lawful : z.Lawful) (hmode : c.mode = .normal) (hinv : z.inv c s)
    (hfront : s.front = .shebangStart) (field : Option Field) :
    Stops s (Grammar.shebang rules field) := by
  unfold Grammar.shebang
  refine stops_branchIn lawful hinv ?_
  intro before u trimmed hu
  have hstart : Ensures u Grammar.bump fun _ v => v.MidLine ∧ z.inv c v :=
    ⟨stops_bump (trimmed.front.trans hfront) rfl none,
      (lawful.bump_live none (c.allows_of_normal hmode _) hu).1⟩
  refine hstart.bind ?_
  rintro start v ⟨hmid, hv⟩
  exact (stops_loop (fun _ w => shebangStep (lawful.watches_live hmode))
    (fun _ w _ => stops_shebangStep) hv (stops_shebangStep hmid) rules.budget).and_return _

section Normal

variable (hmode : c.mode = .normal)
include hmode

/-! ## Names -/

theorem pathStep (lawful : z.Lawful) :
    z.Iterates c c.bodies z.live z.live s (Grammar.pathStep ()) (Grammar.pathStep ()) := by
  have hallows := c.allows_of_normal hmode
  unfold Grammar.pathStep
  refine lawful.isAtMark ?_ ?_
  · intro _
    refine (lawful.bump_live none (hallows _)).bind ?_
    intro sign u _
    refine lawful.isAt ?_ ?_
    · intro _
      refine (lawful.bump_live none (hallows _)).bind ?_
      intro name v _
      exact again (by simp) ()
    · intro _
      refine (lawful.missing_live (fun _ => lawful.calm_of_live) none _).bind ?_
      intro name v _
      exact done (by simp)
  · intro _
    exact done rfl

/-- A name is followed by something, which is looked at before it is consumed. -/
theorem namePath (lawful : z.Lawful) (pairs : z.Pairs rules rules') (hfront : s.front = .identifier)
    (field : Field) :
    z.Follows c z.peer z.live s (Grammar.namePath rules field) (Grammar.namePath rules' field) := by
  have hallows := c.allows_of_normal hmode
  have hname : ∀ {u : State}, u.front = .identifier → ∀ field : Option Field,
      z.Follows c z.peer z.live u (Grammar.bump field) (Grammar.bump field) := by
    intro u hu field
    exact lawful.bump_peer field (hallows _) (by rw [hu]; exact nofun)
  unfold Grammar.namePath
  refine lawful.peekNext hmode ?_
  split
  · refine lawful.branch_peer _ _ ?_
    intro before u trimmed
    refine (hname (trimmed.front.trans hfront) none).bind ?_
    intro first v _
    refine (lawful.loop (fun _ => lawful.calm_of_live) (fun _ w => lawful.pathStep hmode)
      pairs.budget_le ()).bind ?_
    intro more w _
    exact Follows.pure (by simp)
  · exact hname hfront _

omit hmode in
theorem stops_pathStep (hmid : s.MidLine) :
    Ensures s (Grammar.pathStep ()) fun _ t => t.MidLine := by
  unfold Grammar.pathStep
  refine Ensures.isAtMark ?_ fun _ => hmid
  intro _
  refine Ensures.last fun sign u => Ensures.isAt ?_ ?_
  · intro hfront
    exact (stops_bump hfront rfl none).and_again _
  · intro _
    exact (stops_missing none _).and_done _

theorem stops_namePath (lawful : z.Lawful) (hinv : z.inv c s) (hfront : s.front = .identifier)
    (field : Field) : Stops s (Grammar.namePath rules field) := by
  unfold Grammar.namePath
  refine Ensures.peekAt ?_
  split
  · refine stops_branchIn lawful hinv ?_
    intro before u trimmed hu
    have hfirst : Ensures u Grammar.bump fun _ v => v.MidLine ∧ z.inv c v :=
      ⟨stops_bump (trimmed.front.trans hfront) rfl none,
        (lawful.bump_live none (c.allows_of_normal hmode _) hu).1⟩
    refine hfirst.bind ?_
    rintro first v ⟨hmid, hv⟩
    exact (stops_loop (fun _ w => lawful.pathStep hmode) (fun _ w _ => stops_pathStep) hv
      (stops_pathStep hmid) rules.budget).and_return _
  · exact stops_bump hfront rfl _

/-! ## Parameters -/

theorem parameter (lawful : z.Lawful) (pairs : z.Pairs rules rules') :
    z.Follows c z.live z.live s (Grammar.parameter rules) (Grammar.parameter rules') := by
  unfold Grammar.parameter
  refine lawful.branch none _ ?_
  intro before u _
  refine (lawful.bumpIf hmode _).bind ?_
  intro sign v _
  refine ((lawful.expectIdentifier hmode _ _).mono_post fun _ _ _ _ => lawful.calm_of_live).bind ?_
  intro name w _
  refine lawful.isAtMark ?_ ?_
  · intro _
    refine (lawful.bump_live none (c.allows_of_normal hmode _)).bind ?_
    intro equals x _
    refine (lawful.value hmode pairs _).bind ?_
    intro default y _
    exact Follows.pure (by simp)
  · intro _
    exact Follows.pure (by simp)

theorem variadicParameter (lawful : z.Lawful) (pairs : z.Pairs rules rules') :
    z.Follows c z.live z.live s (Grammar.variadicParameter rules)
      (Grammar.variadicParameter rules') := by
  unfold Grammar.variadicParameter
  refine lawful.branch none _ ?_
  intro before u _
  refine (lawful.bump_live _ (c.allows_of_normal hmode _)).bind ?_
  intro sign v _
  refine (lawful.parameter hmode pairs).bind ?_
  intro inner w _
  exact Follows.pure (by simp)

theorem parameterStep (lawful : z.Lawful) (pairs : z.Pairs rules rules') (afterVariadic : Bool) :
    z.Iterates c c.bodies z.live z.live s (Grammar.parameterStep rules afterVariadic)
      (Grammar.parameterStep rules' afterVariadic) := by
  unfold Grammar.parameterStep
  refine lawful.peek ?_
  cases startsParameter s.front with
  | none => exact done rfl
  | some isVariadic =>
    have hinner : ∀ u : State, z.Follows c z.live z.live u
        (if isVariadic = true then Grammar.variadicParameter rules else Grammar.parameter rules)
        (if isVariadic = true then Grammar.variadicParameter rules'
          else Grammar.parameter rules') := by
      intro u
      cases isVariadic with
      | true => exact lawful.variadicParameter hmode pairs
      | false => exact lawful.parameter hmode pairs
    refine Follows.join z.live (fun _ => ?_) (fun _ => hinner s) ?_
    · exact lawful.errorBranch (fun _ => lawful.calm_of_live) none _ fun _ u _ => hinner u
    · intro nodes u
      exact again rfl _

theorem parametersOpt (lawful : z.Lawful) (pairs : z.Pairs rules rules') :
    z.Follows c z.live z.live s (Grammar.parametersOpt rules) (Grammar.parametersOpt rules') := by
  unfold Grammar.parametersOpt
  refine lawful.peek ?_
  cases startsParameter s.front with
  | none => exact Follows.pure rfl
  | some isVariadic =>
    refine lawful.branch none _ ?_
    intro before u _
    exact lawful.loop (fun _ => lawful.calm_of_live)
      (fun after v => lawful.parameterStep hmode pairs after) pairs.budget_le false

/-! ## Dependencies -/

theorem dependencyArgumentStep (lawful : z.Lawful) (pairs : z.Pairs rules rules') :
    z.Iterates c c.bodies z.live z.live s (Grammar.dependencyArgumentStep rules ())
      (Grammar.dependencyArgumentStep rules' ()) := by
  unfold Grammar.dependencyArgumentStep
  refine lawful.peek ?_
  split
  · exact (pairs.expression none hmode).bind fun nodes u _ => again rfl ()
  · exact done rfl

theorem dependencyExpression (lawful : z.Lawful) (pairs : z.Pairs rules rules')
    (hfront : s.front = .mark .parenL) :
    z.Follows c z.live z.calm s (Grammar.dependencyExpression rules)
      (Grammar.dependencyExpression rules') := by
  unfold Grammar.dependencyExpression
  refine lawful.branch none _ ?_
  intro before u trimmed
  refine (lawful.openBracket hmode (trimmed.front.trans hfront)).bind ?_
  intro opened v _
  have hrest : ∀ (name : Forest) (w : State), z.Tracks c.nested z.live z.moved (fun _ => c)
      (fun _ => z.calm) w
      (Grammar.loop (Grammar.dependencyArgumentStep rules) rules.budget () >>= fun inner =>
        Grammar.closeBracket .parenR >>= fun closed => Pure.pure (opened ++ name ++ inner ++ closed))
      (Grammar.loop (Grammar.dependencyArgumentStep rules') rules'.budget () >>= fun inner =>
        Grammar.closeBracket .parenR >>= fun closed =>
          Pure.pure (z.moved opened ++ z.moved name ++ inner ++ closed)) := by
    intro name w
    refine (lawful.loop (fun _ => lawful.calm_of_live)
      (fun _ x => lawful.dependencyArgumentStep (c := c.nested) hmode pairs)
      pairs.budget_le ()).bind ?_
    intro inner x _
    refine (lawful.closeBracket hmode .parenR).bind ?_
    intro closed y _
    exact Follows.pure (by simp)
  refine Tracks.mono_pre (lawful.isAt ?_ ?_) fun _ => lawful.calm_of_live
  · intro hname
    refine ((lawful.namePath (c := c.nested) hmode pairs hname _).mono_pre
      fun _ => lawful.live_of_peer).bind ?_
    intro name w _
    exact hrest name w
  · intro _
    refine (lawful.missing_live (fun _ => lawful.calm_of_live) _ _).bind ?_
    intro name w _
    exact hrest name w

omit hmode in
theorem stops_dependencyExpression : Stops s (Grammar.dependencyExpression rules) := by
  unfold Grammar.dependencyExpression
  refine stops_branch none _ fun u => ?_
  refine Ensures.last fun opened v => Ensures.isAt (fun _ => ?_) fun _ => ?_
  · exact Ensures.last fun _ _ => Ensures.last fun _ _ => (stops_closeBracket _).and_return _
  · exact Ensures.last fun _ _ => Ensures.last fun _ _ => (stops_closeBracket _).and_return _

theorem dependency (lawful : z.Lawful) (pairs : z.Pairs rules rules')
    (hfront : s.front = .identifier ∨ s.front = .mark .parenL) :
    z.Follows c z.live z.live s (Grammar.dependency rules) (Grammar.dependency rules') := by
  unfold Grammar.dependency
  refine lawful.branch none _ ?_
  intro before u trimmed
  refine lawful.isAtMark ?_ ?_
  · intro hparen
    exact (lawful.dependencyExpression hmode pairs hparen).mono_post
      fun _ _ _ _ => lawful.calm_of_live
  · intro hparen
    rw [← trimmed.front] at hfront
    exact (lawful.namePath hmode pairs (hfront.resolve_right hparen) _).mono_pre
      fun _ => lawful.live_of_peer

theorem stops_dependency (lawful : z.Lawful) (hinv : z.inv c s)
    (hfront : s.front = .identifier ∨ s.front = .mark .parenL) :
    Stops s (Grammar.dependency rules) := by
  unfold Grammar.dependency
  refine stops_branchIn lawful hinv ?_
  intro before u trimmed hu
  refine Ensures.isAtMark (fun _ => stops_dependencyExpression) ?_
  intro hparen
  rw [← trimmed.front] at hfront
  exact lawful.stops_namePath hmode hu (hfront.resolve_right hparen) _

theorem dependencyStep (lawful : z.Lawful) (pairs : z.Pairs rules rules') :
    z.Iterates c c.bodies z.live z.live s (Grammar.dependencyStep rules ())
      (Grammar.dependencyStep rules' ()) := by
  unfold Grammar.dependencyStep
  have hnext : ∀ (sign : Forest) {u : State}, (u.front = .identifier ∨ u.front = .mark .parenL) →
      z.Iterates c c.bodies z.live z.live u
        (Grammar.dependency rules >>= fun nodes => Grammar.again (sign ++ nodes))
        (Grammar.dependency rules' >>= fun nodes => Grammar.again (z.moved sign ++ nodes)) := by
    intro sign u hu
    exact (lawful.dependency hmode pairs hu).bind fun nodes v _ => again (by simp) ()
  refine lawful.isAtMark ?_ ?_
  · intro _
    refine (lawful.bump_live none (c.allows_of_normal hmode _)).bind ?_
    intro sign u _
    refine lawful.peek ?_
    split
    · next hfront => exact hnext sign (.inl hfront)
    · next hfront => exact hnext sign (.inr hfront)
    · refine (lawful.missing_live (fun _ => lawful.calm_of_live) none _).bind ?_
      intro nodes v _
      exact done (by simp)
  · intro _
    refine Tracks.bind (Follows.pure (by simp)) ?_
    rintro sign u ⟨rfl, rfl⟩
    refine lawful.peek ?_
    split
    · next hfront => exact hnext [] (.inl hfront)
    · next hfront => exact hnext [] (.inr hfront)
    · exact done rfl

/-- The tokens a dependency starts with, with the sign in front of it. -/
def startsDependency : Token.Kind → Bool
  | .identifier | .mark .parenL | .mark .ampAmp => true
  | _ => false

theorem stops_dependencyStep (lawful : z.Lawful) (hinv : z.inv c s)
    (hmid : startsDependency s.front = false → s.MidLine) :
    Ensures s (Grammar.dependencyStep rules ()) fun _ t => t.MidLine := by
  unfold Grammar.dependencyStep
  refine Ensures.isAtMark ?_ ?_
  · intro _
    refine (lawful.bump_live none (c.allows_of_normal hmode _)).skip hinv fun sign u hu => ?_
    refine Ensures.peek ?_
    split
    · next hfront => exact (lawful.stops_dependency hmode hu (.inl hfront)).and_again _
    · next hfront => exact (lawful.stops_dependency hmode hu (.inr hfront)).and_again _
    · exact (stops_missing none _).and_done _
  · intro hsign
    refine Ensures.bind (Ensures.pure (Q := fun _ t => t = s) rfl) ?_
    rintro sign t rfl
    refine Ensures.peek ?_
    split
    · next hfront => exact (lawful.stops_dependency hmode hinv (.inl hfront)).and_again _
    · next hfront => exact (lawful.stops_dependency hmode hinv (.inr hfront)).and_again _
    · next hname hparen =>
      refine hmid ?_
      unfold startsDependency
      split <;> first | contradiction | rfl

theorem dependenciesOpt (lawful : z.Lawful) (pairs : z.Pairs rules rules') :
    z.Follows c z.live z.live s (Grammar.dependenciesOpt rules)
      (Grammar.dependenciesOpt rules') := by
  have hsome : z.Follows c z.live z.live s (Grammar.dependencies rules)
      (Grammar.dependencies rules') := by
    refine lawful.branch none _ ?_
    intro before u _
    exact lawful.loop (fun _ => lawful.calm_of_live)
      (fun _ v => lawful.dependencyStep hmode pairs) pairs.budget_le ()
  unfold Grammar.dependenciesOpt
  refine lawful.peek ?_
  split
  · exact hsome
  · exact hsome
  · exact hsome
  · exact Follows.pure rfl

theorem stops_dependenciesOpt (lawful : z.Lawful) (pairs : z.Pairs rules rules')
    (hinv : z.inv c s) (hmid : s.MidLine) : Stops s (Grammar.dependenciesOpt rules) := by
  have hsome : startsDependency s.front = true → Stops s (Grammar.dependencies rules) := by
    intro hstarts
    refine stops_branchIn lawful hinv ?_
    intro before u trimmed hu
    refine stops_loop (fun _ v => lawful.dependencyStep hmode pairs)
      (fun _ v hv hmid => lawful.stops_dependencyStep hmode hv fun _ => hmid) hu
      (lawful.stops_dependencyStep hmode hu ?_) rules.budget
    intro hnot
    rw [trimmed.front, hstarts] at hnot
    cases hnot
  unfold Grammar.dependenciesOpt
  refine Ensures.peek ?_
  split
  · next hfront => exact hsome (by rw [hfront]; rfl)
  · next hfront => exact hsome (by rw [hfront]; rfl)
  · next hfront => exact hsome (by rw [hfront]; rfl)
  · exact hmid

/-! ## Headers -/

theorem headerTail (lawful : z.Lawful) (pairs : z.Pairs rules rules') :
    z.Follows c z.live z.live s (Grammar.headerTail rules) (Grammar.headerTail rules') := by
  unfold Grammar.headerTail
  refine lawful.isAtMark ?_ ?_
  · intro _
    refine (lawful.bump_live none (c.allows_of_normal hmode _)).bind ?_
    intro colon u _
    refine (lawful.dependenciesOpt hmode pairs).bind ?_
    intro nodes v _
    exact Follows.pure (by simp)
  · intro _
    exact lawful.missing_live (fun _ => lawful.calm_of_live) none _

theorem stops_headerTail (lawful : z.Lawful) (pairs : z.Pairs rules rules') (hinv : z.inv c s) :
    Stops s (Grammar.headerTail rules) := by
  unfold Grammar.headerTail
  refine Ensures.isAtMark ?_ fun _ => stops_missing none _
  intro hfront
  have hcolon : Ensures s Grammar.bump fun _ u => u.MidLine ∧ z.inv c u :=
    ⟨stops_bump hfront rfl none, (lawful.bump_live none (c.allows_of_normal hmode _) hinv).1⟩
  refine hcolon.bind ?_
  rintro colon u ⟨hmid, hu⟩
  exact (lawful.stops_dependenciesOpt hmode pairs hu hmid).and_return _

/-- What follows the name of a recipe. -/
theorem headerRest (lawful : z.Lawful) (pairs : z.Pairs rules rules') (sign name : Forest) :
    z.Follows c z.live z.live s
      (Grammar.parametersOpt rules >>= fun inputs => Grammar.headerTail rules >>= fun tail =>
        Pure.pure (sign ++ name ++ inputs ++ tail))
      (Grammar.parametersOpt rules' >>= fun inputs => Grammar.headerTail rules' >>= fun tail =>
        Pure.pure (z.moved sign ++ z.moved name ++ inputs ++ tail)) := by
  refine (lawful.parametersOpt hmode pairs).bind ?_
  intro inputs u _
  refine (lawful.headerTail hmode pairs).bind ?_
  intro tail v _
  exact Follows.pure (by simp)

theorem recipeHeader (lawful : z.Lawful) (pairs : z.Pairs rules rules') :
    z.Follows c z.live z.live s (Grammar.recipeHeader rules) (Grammar.recipeHeader rules') := by
  unfold Grammar.recipeHeader
  refine lawful.branch none _ ?_
  intro before u _
  refine (lawful.bumpIf hmode _).bind ?_
  intro sign v _
  refine ((lawful.expectIdentifier hmode _ _).mono_post fun _ _ _ _ => lawful.calm_of_live).bind ?_
  intro name w _
  exact lawful.headerRest hmode pairs sign name

/-- A header that starts with its name. -/
theorem recipeHeader_named (lawful : z.Lawful) (pairs : z.Pairs rules rules')
    (hfront : s.front = .identifier) :
    z.Follows c z.peer z.live s (Grammar.recipeHeader rules) (Grammar.recipeHeader rules') := by
  unfold Grammar.recipeHeader
  refine lawful.branch_peer none _ ?_
  intro before u trimmed
  have hu : u.front = .identifier := trimmed.front.trans hfront
  have hidle : Grammar.bumpIf (.mark .atSign) u = ([], u) := by
    change (if (u.front == .mark .atSign) = true then Grammar.bump else Pure.pure []) u = _
    rw [hu]
    rfl
  have hsign : z.Follows c z.peer z.peer u (Grammar.bumpIf (.mark .atSign))
      (Grammar.bumpIf (.mark .atSign)) := by
    refine lawful.isAt_of lawful.live_of_peer ?_ fun _ => Follows.pure rfl
    intro hat
    rw [hu] at hat
    cases hat
  refine hsign.bind ?_
  intro sign v hv
  obtain ⟨rfl, rfl⟩ : [] = sign ∧ u = v := Prod.mk.inj (hidle.symm.trans hv)
  refine (lawful.expectIdentifier_peer hmode hu _ _).bind ?_
  intro name w _
  exact lawful.headerRest hmode pairs [] name

theorem stops_recipeHeader (lawful : z.Lawful) (pairs : z.Pairs rules rules') (hinv : z.inv c s) :
    Stops s (Grammar.recipeHeader rules) := by
  unfold Grammar.recipeHeader
  refine stops_branchIn lawful hinv ?_
  intro before u _ hu
  refine (lawful.bumpIf hmode _).skip hu fun sign v hv => ?_
  refine (lawful.expectIdentifier hmode _ _).skip hv fun name w hw => ?_
  refine (lawful.parametersOpt hmode pairs).skip hw fun inputs x hx => ?_
  exact (lawful.stops_headerTail hmode pairs hx).and_return _

end Normal

/-! ## Bodies -/

section Body

variable (hmode : c.mode = .body) (hbodies : c.bodies ≠ 0)
include hmode hbodies

omit hbodies in
/-- Inside a line of a body the next token is the same in both runs. -/
theorem live_of_body (lawful : z.Lawful) (hinv : z.inv c s) (hcalm : z.calm s)
    (hend : s.front ≠ .endOfInput) (hlevel : s.front ≠ .dedent) : z.live s :=
  lawful.live_of_calm hinv hcalm (by rw [hmode]; rfl) hend hlevel

theorem recipeLineStep (lawful : z.Lawful) (pairs : z.Pairs rules rules') :
    z.Iterates c c.bodies z.calm z.calm s (Grammar.recipeLineStep rules ())
      (Grammar.recipeLineStep rules' ()) := by
  have watches := lawful.watches_body hmode hbodies
  have hadmits : c.Admits c.mode := by
    rw [hmode]
    exact ⟨nofun, fun _ => hbodies, nofun⟩
  unfold Grammar.recipeLineStep
  refine watches.peek ?_
  split
  · next hfront => exact (watches.bump none hfront nofun nofun).bind fun nodes u _ => again rfl ()
  · next hfront =>
    refine ((lawful.interpolation pairs hfront (.inr ⟨hmode, hbodies, nofun⟩) hadmits).mono_pre
      fun _ => lawful.calm_of_live).bind ?_
    intro nodes u _
    exact again rfl ()
  · exact done rfl
  · exact done rfl
  · exact done rfl
  · next hdedent _ =>
    refine ((lawful.errorToken pairs (.inr ⟨hmode, hbodies, hdedent⟩) hadmits none _).mono_pre
      fun _ => lawful.calm_of_live).bind ?_
    intro nodes u _
    exact again rfl ()

theorem recipeLine (lawful : z.Lawful) (pairs : z.Pairs rules rules')
    (hend : s.front ≠ .endOfInput) (hlevel : s.front ≠ .dedent) :
    z.Follows c z.live z.calm s (Grammar.recipeLine rules) (Grammar.recipeLine rules') := by
  have watches := lawful.watches_body hmode hbodies
  unfold Grammar.recipeLine
  refine lawful.branch none _ ?_
  intro before u trimmed
  rw [← trimmed.front] at hend hlevel
  refine Tracks.mono_pre ((watches.bumpIf .linePrefix nofun nofun).bind ?_)
    fun hinv hcalm => lawful.live_of_body hmode hinv hcalm hend hlevel
  intro sign v _
  refine (lawful.loop (fun _ => id) (fun _ w => lawful.recipeLineStep hmode hbodies pairs)
    pairs.budget_le ()).bind ?_
  intro pieces w _
  exact Follows.pure (by simp)

omit hbodies in
/-- The body is closed when its last line is read. -/
theorem recipeBodyStep (lawful : z.Lawful) (hone : c.bodies = 1) (pairs : z.Pairs rules rules') :
    z.Iterates c 0 z.calm z.calm s (Grammar.recipeBodyStep rules ())
      (Grammar.recipeBodyStep rules' ()) := by
  have hbodies : c.bodies ≠ 0 := hone ▸ Nat.one_ne_zero
  have watches := lawful.watches_body hmode hbodies
  unfold Grammar.recipeBodyStep
  refine watches.peek ?_
  split
  · next hfront =>
    exact (lawful.close_body hfront hmode hone).bind fun nodes u _ => done rfl
  · next hfront =>
    intro hinv
    obtain ⟨hinv', hrel'⟩ := lawful.end_body hfront hmode hone hinv
    exact ⟨hinv', fun hcalm => ⟨hcalm, fun t hrel => ⟨rfl, hrel' t hrel⟩⟩⟩
  · next hfront => exact (watches.bump none hfront nofun nofun).bind fun nodes u _ => again rfl ()
  · next hlevel hend _ =>
    refine ((lawful.recipeLine hmode hbodies pairs hend hlevel).mono_pre
      fun _ => lawful.calm_of_live).bind ?_
    intro line u _
    refine (watches.bumpIf .newline nofun nofun).bind ?_
    intro newline v _
    exact again (by simp) ()

theorem bodyShebang (lawful : z.Lawful) (pairs : z.Pairs rules rules') :
    z.Follows c z.calm z.calm s (Grammar.bodyShebang rules) (Grammar.bodyShebang rules') := by
  have watches := lawful.watches_body hmode hbodies
  unfold Grammar.bodyShebang
  refine watches.isAt ?_ fun _ => Follows.pure rfl
  intro hfront
  have hfirst : ∀ {u : State}, u.front = .shebangStart → z.inv c u → z.calm u → z.live u := by
    intro u hu hinv hcalm
    exact lawful.live_of_body hmode hinv hcalm (by rw [hu]; exact nofun) (by rw [hu]; exact nofun)
  refine ((lawful.shebang pairs watches hfirst hfront _).mono_pre
    fun _ => lawful.calm_of_live).bind ?_
  intro line u _
  refine (watches.bumpIf .newline nofun nofun).bind ?_
  intro newline v _
  exact Follows.pure (by simp)

end Body

/-- Whether a body follows is seen under the weakest guard. -/
theorem isAtIndent {α β : Type} {m : α → β} {d : α → Context} {Q : α → State → Prop}
    (lawful : z.Lawful) (hmode : c.mode = .bodyStart) {f : Bool → Parse α} {g : Bool → Parse β}
    (hat : s.front = .indent → z.Tracks c z.calm m d Q s (f true) (g true))
    (hnot : s.front ≠ .indent → z.Tracks c z.calm m d Q s (f false) (g false)) :
    z.Tracks c z.calm m d Q s (Grammar.isAt .indent >>= f) (Grammar.isAt .indent >>= g) := by
  have hsame : ∀ t, z.inv c s → z.calm s → z.rel c s t →
      (t.front == .indent) = (s.front == .indent) := by
    intro t hinv hcalm hrel
    rw [Bool.eq_iff_iff, beq_iff_eq, beq_iff_eq]
    exact lawful.indent hinv hmode hcalm hrel
  refine Tracks.look (fun s => s.front == .indent) hsame ?_
  cases heq : s.front == .indent with
  | true => exact hat (beq_iff_eq.1 heq)
  | false => exact hnot (beq_eq_false_iff_ne.1 heq)

/-- The token that opens a body, and what is read in the mode of bodies. -/
theorem recipeBody_eq (rules : Rules) : Grammar.recipeBody rules =
    Grammar.branch (some .body) .recipeBody do
      let opened ← openBody
      let first ← Grammar.bodyShebang rules
      let lines ← Grammar.loop (Grammar.recipeBodyStep rules) rules.budget ()
      return opened ++ first ++ lines := rfl

/-- A body is read in a mode of its own, and is closed at its end. -/
theorem recipeBody (lawful : z.Lawful) (pairs : z.Pairs rules rules') (hmode : c.mode = .bodyStart)
    (hbodies : c.bodies = 0) (hfront : s.front = .indent) :
    z.Tracks c z.live z.moved (fun _ => c.within .body c.nesting c.lineBound) (fun _ => z.calm) s
      (Grammar.recipeBody rules) (Grammar.recipeBody rules') := by
  rw [recipeBody_eq, recipeBody_eq]
  refine lawful.branch _ _ ?_
  intro before u trimmed
  refine (lawful.open_body (trimmed.front.trans hfront) hmode hbodies).bind ?_
  intro opened w _
  refine (lawful.bodyShebang rfl Nat.one_ne_zero pairs).bind ?_
  intro first x _
  have hloop := lawful.loop (s := x) (fun _ => id)
    (fun _ y => lawful.recipeBodyStep (s := y) (c := (c.withBodies 1).within .body c.nesting
      c.lineBound) rfl rfl pairs) pairs.budget_le ()
  have hback : ((c.withBodies 1).within .body c.nesting c.lineBound).withBodies 0 =
      c.within .body c.nesting c.lineBound := by
    rw [← hbodies]
    rfl
  rw [hback] at hloop
  refine hloop.bind ?_
  intro lines y _
  exact Follows.pure (by simp)

/-- A recipe is tracked up to its last line, whatever stands behind it. -/
theorem recipe (lawful : z.Lawful) (pairs : z.Pairs rules rules') (hmode : c.mode = .normal)
    (hnesting : c.nesting = 0) (hbodies : c.bodies = 0) {guard : State → Prop}
    (hheader : z.Follows c guard z.live s (Grammar.recipeHeader rules) (Grammar.recipeHeader rules'))
    (adopted : Forest) :
    z.Follows c guard z.calm s (Grammar.recipe rules adopted)
      (Grammar.recipe rules' (z.moved adopted)) := by
  unfold Grammar.recipe
  refine lawful.enclose _ adopted (Tracks.of_inv fun hinv => hheader.bind ?_)
  intro header u hu
  have hmid : u.MidLine := by
    have hstops := lawful.stops_recipeHeader hmode pairs hinv
    unfold Stops Ensures at hstops
    rwa [hu] at hstops
  refine (lawful.lineEnd hmode pairs hnesting hmid).bind ?_
  intro ending v _
  have hadmits : c.Admits .bodyStart := ⟨nofun, nofun, fun _ => hbodies⟩
  have hleaves : c.Leaves .bodyStart v := Context.leaves_of_ne (by rw [hmode]; exact nofun) _ v
  refine (lawful.setMode lawful.portable_calm hadmits hleaves).bind ?_
  intro _ w _
  -- The mode is the normal one again, whichever mode was left.
  have hlast : ∀ (mode : Mode) (body : Forest) (x : State),
      z.Tracks (c.within mode c.nesting c.lineBound) z.calm z.moved (fun _ => c) (fun _ => z.calm) x
        (Grammar.setMode .normal >>= fun _ => Pure.pure (header ++ ending ++ body))
        (Grammar.setMode .normal >>= fun _ =>
          Pure.pure (z.moved header ++ z.moved ending ++ z.moved body)) := by
    intro mode body x
    have hset : z.Tracks (c.within mode c.nesting c.lineBound) z.calm id
        (fun _ => c.within .normal c.nesting c.lineBound) (fun _ => z.calm) x
        (Grammar.setMode .normal) (Grammar.setMode .normal) :=
      lawful.setMode lawful.portable_calm (Context.admits_normal _) fun _ => .inr (.inl hbodies)
    rw [Context.within_self hmode] at hset
    refine hset.bind ?_
    intro _ y _
    exact Follows.pure (by simp)
  refine lawful.isAtIndent rfl ?_ ?_
  · intro hfront
    have hbody := lawful.recipeBody (c := c.within .bodyStart c.nesting c.lineBound) pairs rfl
      hbodies hfront
    refine (hbody.mono_pre fun _ => lawful.calm_of_live).bind ?_
    intro body x _
    exact hlast .body body x
  · intro _
    refine Tracks.bind (Follows.pure  rfl) ?_
    intro body x _
    exact hlast .bodyStart body x

end Simulation.Lawful

end Justfile.Grammar
