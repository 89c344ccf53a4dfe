import Justfile.Proofs.Reading.File
import Justfile.Proofs.Simulation.Balance
import Justfile.Proofs.Tree.Coverage

/-!
# Bodies in trees

Indentation is balanced in every tree (`indentation_balanced`): the tokens consumed alternate
between `indent` and `dedent`, and in the tree they are the first and the last child of the bodies of
recipes, and stand nowhere else.

The leaves of a derivation are the tokens it consumes, so that productions which consume neither an
`indent` nor a `dedent` make no node for one (`Derives.levelCount_eq`). That they consume none is
what the balance of their runs says (`Ensures.quiet`). What is left are the productions that open and
close a body.
-/

set_option autoImplicit false

namespace Justfile

namespace Node

/-- The kinds of the leaves for tokens that move between levels. -/
def Kind.isLevel : Kind → Bool
  | .token kind => kind.isLevel
  | _ => false

theorem isLevel_ofToken (field : Option Field) (token : Token) :
    (ofToken field token).kind.isLevel = token.kind.isLevel := by
  change (Kind.ofToken token.kind).isLevel = _
  cases token.kind <;> rfl

/-! ## Counting -/

/-- The number of nodes for tokens that move between levels. -/
def levelCount (nodes : Forest) : Nat := (preorderList nodes).countP (·.kind.isLevel)

@[simp] theorem levelCount_nil : levelCount [] = 0 := rfl

@[simp] theorem levelCount_append (front back : Forest) :
    levelCount (front ++ back) = levelCount front + levelCount back := by
  simp [levelCount, preorderList_append]

theorem levelCount_leaf (field : Option Field) (kind : Kind) (span : Span) :
    levelCount [leaf field kind span] = if kind.isLevel then 1 else 0 := by
  unfold levelCount
  rw [preorderList_leaf, List.countP_singleton]
  rfl

theorem levelCount_ofToken (field : Option Field) (token : Token) :
    levelCount [ofToken field token] = if token.kind.isLevel then 1 else 0 := by
  rw [← isLevel_ofToken field token]
  exact levelCount_leaf field _ _

theorem levelCount_branch {kind : Kind} (hkind : kind.isLevel = false) (field : Option Field)
    (children : Forest) (offset : Nat) :
    levelCount [branch field kind children offset] = levelCount children := by
  unfold levelCount
  rw [preorderList_branch, List.countP_cons_of_neg]
  simpa [branch] using hkind

/-! ## Tidy nodes -/

/-- Only the body of a recipe has children for `indent` and `dedent`: its first and its last one. -/
structure Framed (node : Node) : Prop where
  body : node.kind = .recipeBody → ∃ opened middle closed,
    node.children = opened :: (middle ++ [closed]) ∧ opened.kind = .token .indent ∧
      closed.kind = .token .dedent ∧ ∀ child ∈ middle, child.kind.isLevel = false
  other : node.kind ≠ .recipeBody → ∀ child ∈ node.children, child.kind.isLevel = false

/-- Siblings among which no `indent` and no `dedent` is, and below which these are where they
belong. -/
structure Tidy (nodes : Forest) : Prop where
  kinds : ∀ node ∈ nodes, node.kind.isLevel = false
  framed : ∀ node ∈ preorderList nodes, node.Framed

theorem tidy_nil : Tidy [] := ⟨nofun, nofun⟩

theorem Tidy.append {front back : Forest} (hfront : Tidy front) (hback : Tidy back) :
    Tidy (front ++ back) := by
  constructor
  · intro node hmem
    exact (List.mem_append.1 hmem).elim (hfront.kinds node) (hback.kinds node)
  · intro node hmem
    rw [preorderList_append] at hmem
    exact (List.mem_append.1 hmem).elim (hfront.framed node) (hback.framed node)

/-- A node that is no body, around tidy children. -/
theorem Tidy.branch {children : Forest} (h : Tidy children) (field : Option Field) {kind : Kind}
    (hlevel : kind.isLevel = false) (hkind : kind ≠ .recipeBody) (offset : Nat) :
    Tidy [.branch field kind children offset] := by
  constructor
  · intro node hmem
    rw [List.mem_singleton.1 hmem]
    exact hlevel
  · intro node hmem
    rw [preorderList_branch] at hmem
    rcases List.mem_cons.1 hmem with rfl | hmem
    · exact ⟨fun h => absurd h hkind, fun _ => h.kinds⟩
    · exact h.framed node hmem

/-- The last children of a body, up to the `dedent` that closes it. -/
structure Closes (nodes : Forest) : Prop where
  split : ∃ middle closed, nodes = middle ++ [closed] ∧ closed.kind = .token .dedent ∧
    closed.children = [] ∧ Tidy middle

theorem Tidy.closes {front back : Forest} (hfront : Tidy front) (hback : Closes back) :
    Closes (front ++ back) := by
  obtain ⟨middle, closed, rfl, hkind, hleaf, htidy⟩ := hback.split
  exact ⟨front ++ middle, closed, (List.append_assoc ..).symm, hkind, hleaf, hfront.append htidy⟩

/-- The body of a recipe, between the tokens that open and close it. -/
theorem Closes.body {opened : Node} {rest : Forest} (h : Closes rest)
    (hopened : opened.kind = .token .indent) (hleaf : opened.children = []) (field : Option Field)
    (offset : Nat) : Tidy [.branch field .recipeBody (opened :: rest) offset] := by
  obtain ⟨middle, closed, rfl, hkind, hleaf', htidy⟩ := h.split
  have hbare : ∀ node : Node, node.children = [] → node.kind ≠ .recipeBody →
      ∀ below ∈ node.preorder, below.Framed := by
    rintro ⟨field, kind, span, children⟩ rfl hne below hmem
    rw [List.mem_singleton.1 hmem]
    exact ⟨fun h => absurd h hne, fun _ => nofun⟩
  constructor
  · intro node hmem
    rw [List.mem_singleton.1 hmem]
    rfl
  · intro node hmem
    rw [preorderList_branch] at hmem
    rcases List.mem_cons.1 hmem with rfl | hmem
    · exact ⟨fun _ => ⟨opened, middle, closed, rfl, hopened, hkind, htidy.kinds⟩,
        fun hne => absurd rfl hne⟩
    · rw [preorderList_cons, preorderList_append, preorderList_cons, preorderList_nil,
        List.append_nil] at hmem
      rcases List.mem_append.1 hmem with hmem | hmem
      · exact hbare opened hleaf (by rw [hopened]; exact nofun) node hmem
      · rcases List.mem_append.1 hmem with hmem | hmem
        · exact htidy.framed node hmem
        · exact hbare closed hleaf' (by rw [hkind]; exact nofun) node hmem

end Node

open Node (Tidy Closes levelCount)

namespace Grammar

/-! ## Leaves are tokens -/

theorem length_levelKinds_cons (token : Token) (tokens : List Token) :
    (levelKinds (token :: tokens)).length =
      (levelKinds tokens).length + if token.kind.isLevel then 1 else 0 := by
  cases h : token.kind.isLevel with
  | true => rw [levelKinds_cons_of h, List.length_cons, if_pos rfl]
  | false => rw [levelKinds_cons_of_not h, if_neg Bool.false_ne_true, Nat.add_zero]

/-- The number of levels that were opened or closed so far. -/
def State.levelCount (s : State) : Nat := (levelKinds s.consumed).length

theorem levelCount_take (s : State) (field : Option Field) (token : Token) (scanner : Scanner) :
    (s.take token scanner).levelCount = s.levelCount + Node.levelCount [.ofToken field token] := by
  rw [Node.levelCount_ofToken]
  exact length_levelKinds_cons token s.consumed

theorem Literal.levelCount_node (l : Literal) (field : Option Field) (opened : Node)
    (contents ending : Forest) (offset : Nat) :
    Node.levelCount [l.node field opened contents ending offset] =
      Node.levelCount [opened] + Node.levelCount contents + Node.levelCount ending := by
  have hcons : ∀ rest, Node.levelCount (opened :: rest) =
      Node.levelCount [opened] + Node.levelCount rest :=
    fun rest => Node.levelCount_append [opened] rest
  unfold Literal.node
  rw [Node.levelCount_branch (by cases l <;> rfl)]
  cases l with
  | string dialect =>
    simp only [Literal.children]
    split
    · rw [Node.levelCount_branch rfl, Node.levelCount_append, hcons]
    · rw [Node.levelCount_append, hcons]
  | command indented =>
    cases contents with
    | nil => exact Node.levelCount_append [opened] ending
    | cons node rest =>
      have hbody : Node.levelCount [.branch none .commandBody (node :: rest) offset] =
          Node.levelCount (node :: rest) := Node.levelCount_branch rfl none _ offset
      rw [← hbody, ← Node.levelCount_append, ← Node.levelCount_append]
      rfl

theorem Ending.levelCount_eq {l : Literal} {s t : State} {nodes : Forest}
    (ending : Ending l s nodes t) : t.levelCount = s.levelCount + Node.levelCount nodes := by
  cases ending with
  | closed => exact levelCount_take s none _ _
  | reported => exact levelCount_take s none _ _
  | silent => rfl

/-- Every token that moves between levels has a node, and these have no others. -/
theorem Derives.levelCount_eq {place : Place} {height : Nat} {s t : State} {nodes : Forest}
    (derives : Derives place height s nodes t) :
    t.levelCount = s.levelCount + Node.levelCount nodes := by
  induction derives with
  | nil => rfl
  | append _ _ ih1 ih2 =>
    rw [ih2, ih1, Node.levelCount_append, Nat.add_assoc]
  | within => rfl
  | @token _ _ s field => exact levelCount_take s field _ _
  | @keyword _ _ s field => exact levelCount_take s field _ _
  | @closingBraces _ _ s first second _ after =>
    exact levelCount_take s none ⟨.interpolationClose, ⟨first.span.start, second.span.stop⟩,
      first.text ++ second.text, none⟩ after
  | missing field => rw [Node.levelCount_leaf]; rfl
  | group field kind _ _ hkind ih =>
    rw [Node.levelCount_branch (by cases kind <;> first | rfl | cases hkind)]
    exact ih
  | body field _ _ _ ih =>
    rw [Node.levelCount_branch rfl]
    exact ih
  | @number _ _ s field offset =>
    rw [Node.levelCount_branch rfl]
    exact levelCount_take s none s.step.1 s.step.2
  | error field cause _ _ _ ih =>
    rw [Node.levelCount_branch rfl]
    exact ih
  | interpolation _ _ _ ih =>
    rw [Node.levelCount_branch rfl]
    exact ih
  | @literal _ _ _ s t u contents ending l field _ _ _ _ hending _ _ ih =>
    have hopened := levelCount_take s none s.step.1 s.step.2
    have hinner : t.levelCount = s.taken.levelCount + Node.levelCount contents := ih
    rw [hending.levelCount_eq, hinner, Literal.levelCount_node, State.taken, hopened]
    omega

/-! ## Bodies start with their tokens -/

/-- Every body among the nodes has a child for the token that opens it. -/
def OpensBodies (nodes : Forest) : Prop :=
  ∀ node ∈ Node.preorderList nodes, node.kind = .recipeBody →
    ∃ child ∈ node.children, child.kind = .token .indent

theorem OpensBodies.append {front back : Forest} (hfront : OpensBodies front)
    (hback : OpensBodies back) : OpensBodies (front ++ back) := by
  intro node hmem
  rw [Node.preorderList_append] at hmem
  exact (List.mem_append.1 hmem).elim (hfront node) (hback node)

theorem OpensBodies.branch {children : Forest} (h : OpensBodies children) (field : Option Field)
    {kind : Node.Kind} (hkind : kind ≠ .recipeBody) (offset : Nat) :
    OpensBodies [.branch field kind children offset] := by
  intro node hmem hbody
  rw [Node.preorderList_branch] at hmem
  rcases List.mem_cons.1 hmem with rfl | hmem
  · exact absurd hbody hkind
  · exact h node hmem hbody

theorem opensBodies_leaf (field : Option Field) {kind : Node.Kind} (hkind : kind ≠ .recipeBody)
    (span : Span) : OpensBodies [.leaf field kind span] := by
  intro node hmem hbody
  rw [Node.preorderList_leaf, List.mem_singleton] at hmem
  subst hmem
  exact absurd hbody hkind

theorem opensBodies_ofToken (field : Option Field) (token : Token) :
    OpensBodies [.ofToken field token] := by
  refine opensBodies_leaf field ?_ _
  cases token.kind <;> exact nofun

theorem Literal.opensBodies (l : Literal) (field : Option Field) {opened : Node}
    {contents ending : Forest} (hopened : OpensBodies [opened]) (hcontents : OpensBodies contents)
    (hending : OpensBodies ending) (offset : Nat) :
    OpensBodies [l.node field opened contents ending offset] := by
  have hparts : OpensBodies (opened :: contents ++ ending) :=
    (hopened.append hcontents).append hending
  have hkind : l.kind ≠ .recipeBody := by
    cases l with
    | string => exact (by decide : Node.Kind.string ≠ .recipeBody)
    | command => exact (by decide : Node.Kind.externalCommand ≠ .recipeBody)
  refine OpensBodies.branch ?_ field hkind offset
  cases l with
  | string dialect =>
    simp only [Literal.children]
    split
    · exact hparts.branch none (by decide) offset
    · exact hparts
  | command indented =>
    cases contents with
    | nil => exact hparts
    | cons node rest =>
      have hbody : OpensBodies [.branch none .commandBody (node :: rest) offset] :=
        hcontents.branch none (by decide) offset
      exact (hopened.append hbody).append hending

theorem Ending.opensBodies {l : Literal} {s t : State} {nodes : Forest}
    (ending : Ending l s nodes t) : OpensBodies nodes := by
  cases ending with
  | closed => exact opensBodies_ofToken none _
  | reported => exact opensBodies_ofToken none _
  | silent => exact nofun

theorem Derives.opensBodies {place : Place} {height : Nat} {s t : State} {nodes : Forest}
    (derives : Derives place height s nodes t) : OpensBodies nodes := by
  induction derives with
  | nil => exact nofun
  | append _ _ ih1 ih2 => exact ih1.append ih2
  | within => exact nofun
  | token field => exact opensBodies_ofToken field _
  | keyword field => exact opensBodies_ofToken field _
  | closingBraces => exact opensBodies_leaf none (by decide) _
  | missing field => exact opensBodies_leaf field (by decide) _
  | group field kind _ _ hkind ih =>
    refine ih.branch field ?_ _
    rintro rfl
    cases hkind
  | body field _ _ hopened ih =>
    intro node hmem hkind
    rw [Node.preorderList_branch] at hmem
    rcases List.mem_cons.1 hmem with rfl | hmem
    · exact ⟨_, List.mem_cons_self, hopened⟩
    · exact ih node hmem hkind
  | number field offset => exact (opensBodies_ofToken none _).branch field (by decide) offset
  | error field _ _ _ _ ih => exact ih.branch field (by decide) _
  | interpolation _ _ _ ih => exact ih.branch none (by decide) _
  | literal l field _ _ _ _ hending _ _ ih =>
    exact l.opensBodies field (opensBodies_ofToken none _) ih hending.opensBodies _

/-- Where no token moves between levels, no node does, and there is no body. -/
theorem Derives.tidy {place : Place} {height : Nat} {s t : State} {nodes : Forest}
    (derives : Derives place height s nodes t) (hkinds : levelKinds t.consumed = levelKinds s.consumed) :
    Tidy nodes := by
  have hcount : Node.levelCount nodes = 0 := by
    have hcount := derives.levelCount_eq
    unfold State.levelCount at hcount
    rw [hkinds] at hcount
    omega
  have hnone : ∀ node ∈ Node.preorderList nodes, node.kind.isLevel = false := by
    intro node hmem
    simpa using List.countP_eq_zero.1 hcount node hmem
  refine ⟨fun node hmem => hnone node (Node.mem_preorderList hmem), fun node hmem => ⟨?_, ?_⟩⟩
  · intro hbody
    obtain ⟨child, hchild, hindent⟩ := derives.opensBodies node hmem hbody
    have hlevel := hnone child (Node.child_mem_preorderList hchild hmem)
    rw [hindent] at hlevel
    cases hlevel
  · intro _ child hchild
    exact hnone child (Node.child_mem_preorderList hchild hmem)

/-! ## Productions that touch no level -/

/-- A state in a context with so many open bodies, before any budget ran out. -/
structure Calm (c : Context) (s : State) : Prop where
  inv : (balanced []).inv c s
  live : s.exhausted = false

/-- From one state to a later one in the same context tidy nodes were made and no level touched. -/
structure Quiet (c : Context) (s : State) (nodes : Forest) (t : State) : Prop where
  tidy : Tidy nodes
  calm : Calm c t
  kinds : levelKinds t.consumed = levelKinds s.consumed

section Quiet

variable {c : Context} {r s t u : State} {place : Place} {height : Nat} {rules : Rules}
  {bound base : Nat}

theorem Calm.leveled (calm : Calm c s) : Leveled [] c.bodies s := calm.inv.2.2 calm.live

theorem Calm.inMode (calm : Calm c s) (mode : Mode) :
    Calm (c.within mode c.nesting c.lineBound) (s.inMode mode) :=
  ⟨⟨calm.inv.1, ⟨rfl, calm.inv.2.1.nesting, calm.inv.2.1.lineBound⟩, fun hlive =>
    (calm.inv.2.2 hlive).within mode s.stream.nesting s.stream.lineBound s.depth⟩, calm.live⟩

theorem Quiet.append {front back : Forest} (first : Quiet c s front t) (second : Quiet c t back u) :
    Quiet c s (front ++ back) u :=
  ⟨first.tidy.append second.tidy, second.calm, second.kinds.trans first.kinds⟩

/-- A production that touches no level: neither in its context, nor in one where no level may be
touched. The nodes may include some that were made before it, from an earlier state on. -/
theorem Ensures.quiet_from {p : Parse Forest} {P : Forest → State → Prop} (calm : Calm c s)
    (hlive : r.exhausted = false) (hkinds : levelKinds s.consumed = levelKinds r.consumed)
    (hspec : Ensures s p fun nodes t => Derives place height r nodes t ∧ P nodes t)
    (hinv : ∀ (kinds : List Token.Kind) (e : Context), e.mode = c.mode → e.nesting = c.nesting →
      (c.bodies ≠ 0 → e.bodies ≠ 0) → (balanced kinds).inv e s → (balanced kinds).inv e (p s).2) :
    Ensures s p fun nodes t => P nodes t ∧ Quiet c r nodes t := by
  obtain ⟨hderives, hP⟩ := hspec
  have hexhausted := hderives.advances.exhausted_eq.trans hlive
  have hfrozen : (balanced (levelKinds r.consumed)).inv (c.withBodies 2) s :=
    ⟨calm.inv.1, ⟨calm.inv.2.1.mode, calm.inv.2.1.nesting, calm.inv.2.1.lineBound⟩,
      fun _ => ⟨calm.leveled.pendingDedents, hkinds⟩⟩
  have hstays := hinv (levelKinds r.consumed) (c.withBodies 2) rfl rfl (fun _ => nofun) hfrozen
  have hafter := hinv [] c rfl rfl id calm.inv
  have hsame : levelKinds (p s).2.consumed = levelKinds r.consumed := (hstays.2.2 hexhausted).phase
  exact ⟨hP, hderives.tidy hsame, ⟨hafter, hexhausted⟩, hsame⟩

theorem Ensures.quiet {p : Parse Forest} {P : Forest → State → Prop} (calm : Calm c s)
    (hspec : Ensures s p P) (hderives : ∀ nodes t, P nodes t → Derives place height s nodes t)
    (hinv : ∀ (kinds : List Token.Kind) (e : Context), e.mode = c.mode → e.nesting = c.nesting →
      (c.bodies ≠ 0 → e.bodies ≠ 0) → (balanced kinds).inv e s → (balanced kinds).inv e (p s).2) :
    Ensures s p fun nodes t => P nodes t ∧ Quiet c s nodes t :=
  Ensures.quiet_from calm calm.live rfl (hspec.mono fun nodes t h => ⟨hderives nodes t h, h⟩)
    hinv

/-- Trivia is no level. -/
theorem trivia_quiet (calm : Calm c s) :
    Ensures s trivia fun nodes t => Trimmed s nodes t ∧ Quiet c s nodes t :=
  Ensures.quiet calm (trivia_spec calm.inv.1)
    (fun _ _ trimmed => (trimmed.outcome .outside Nat.one_pos).derives)
    fun kinds _ _ _ _ h => ((lawful_balanced kinds).trivia h).1

/-! ## Bodies -/

section Body

variable (pairs : ∀ kinds, (balanced kinds).Pairs rules rules)
include pairs

/-- A line of a body is read without touching a level, and its end closes the body. -/
theorem recipeBodyStep_closes (serves : Serves rules bound)
    (entry : Entry rules.limit (bound + 1) base s) (calm : Calm c s) (hmode : c.mode = .body)
    (hbodies : c.bodies = 1) :
    Ensures s (recipeBodyStep rules ())
      (Steps (fun _ t => Entry rules.limit (bound + 1) base t ∧ Calm c t)
        (fun _ _ nodes t => Closes nodes ∧ Calm (c.withBodies 0) t) () s) := by
  have hwf := calm.inv.1
  have leveled := calm.leveled
  rw [hbodies] at leveled
  have hzero : c.bodies ≠ 0 := hbodies ▸ Nat.one_ne_zero
  -- A line touches no level: after it the body is still open, and the loop goes on.
  have hagain : ∀ nodes t, Reads True .outside (base + 2) s nodes t ∧ Quiet c s nodes t →
      Ensures t (again nodes)
        (Steps (fun _ t => Entry rules.limit (bound + 1) base t ∧ Calm c t)
          (fun _ _ nodes t => Closes nodes ∧ Calm (c.withBodies 0) t) () s) := by
    rintro nodes t ⟨hreads, quiet⟩
    refine ⟨⟨entry.after hreads.toRan, quiet.calm⟩, hreads.work_lt trivial, ?_⟩
    rintro more u ⟨hmore, hu⟩
    exact ⟨quiet.tidy.closes hmore, hu⟩
  unfold recipeBodyStep
  refine Ensures.peek ?_
  split
  · next hfront =>
    -- The `dedent` leaves the level, and is the last node of the body.
    have hend : s.front ≠ .endOfInput := by
      rw [hfront]
      exact nofun
    have hclosed := (lawful_balanced []).close_body hfront hmode hbodies calm.inv
    obtain ⟨-, hbefore⟩ := trivia_quiet calm
    have hkind : s.flushed.step.1.kind = .dedent := (front_eq_step hwf).symm.trans hfront
    have hbump : Ensures s bump fun nodes t => Closes nodes ∧ Calm (c.withBodies 0) t := by
      unfold Ensures
      refine ⟨?_, hclosed.1, ?_⟩
      · rw [show bump none s = _ from bumpAs_eq none none s hend]
        refine ⟨_, _, rfl, ?_, rfl, hbefore.tidy⟩
        change Node.Kind.ofToken s.flushed.step.1.kind = _
        rw [hkind]
        rfl
      · rw [show bump none s = _ from bumpAs_eq none none s hend]
        exact calm.live
    exact hbump.bind fun nodes t h => h
  · next hfront => exact absurd hfront (leveled.front_ne hwf (calm.inv.2.1.mode.trans hmode))
  · next hfront =>
    refine (Ensures.quiet calm ((bump_spec .outside hwf hfront rfl none).mono
      fun _ _ bumped => bumped.reads (c := True) (Nat.succ_pos _))
      (fun _ _ hreads => hreads.derives) ?_).bind hagain
    intro kinds e he _ hbodies' h
    have watches := (lawful_balanced kinds).watches_body (he.trans hmode) (hbodies' hzero)
    exact (watches.bump none hfront nofun nofun h).1
  · next hdedent hend hnewline =>
    have hnot := endsLine_eq_false hnewline hend hdedent
    have hline := recipeLine_spec .outside serves entry (Nat.le_refl (base + 2))
    refine (Ensures.quiet calm hline (fun _ _ hreads => hreads.derives) ?_).bind ?_
    · intro kinds e he _ hbodies' h
      exact ((lawful_balanced kinds).recipeLine (he.trans hmode) (hbodies' hzero) (pairs kinds) hend
        hdedent h).1
    · rintro line t ⟨hreads, quiet⟩
      have hbump := bumpIf_spec .outside (entry.after hreads.toRan).wellFormed
        (rfl : isSolid .outside .newline = true) (Nat.succ_pos (base + 1))
      refine (Ensures.quiet quiet.calm hbump (fun _ _ h => h.1.derives) ?_).bind ?_
      · intro kinds e he _ hbodies' h
        have watches := (lawful_balanced kinds).watches_body (he.trans hmode) (hbodies' hzero)
        exact (watches.bumpIf .newline nofun nofun h).1
      · rintro newline u ⟨⟨hnewline, -⟩, quiet'⟩
        exact hagain _ _ ⟨(hreads.imp fun _ => hnot).append hnewline.toOutcome,
          quiet.append quiet'⟩

/-- A body is read between the tokens that open and close it. -/
theorem recipeBody_tidy (serves : Serves rules bound)
    (entry : Entry rules.limit (bound + 1) base s) (calm : Calm c s)
    (hmode : c.mode = .bodyStart) (hbodies : c.bodies = 0) (hfront : s.front = .indent) :
    Ensures s (recipeBody rules) fun nodes t =>
      Tidy nodes ∧ Calm (c.within .body c.nesting c.lineBound) t := by
  unfold recipeBody branch
  refine (trivia_quiet calm).bind ?_
  rintro before t ⟨trimmed, hbefore⟩
  have ht := entry.after (trimmed.outcome .outside Nat.one_pos).toRan
  have hkind : t.step.1.kind = .indent := trimmed.step_kind.trans hfront
  refine Ensures.bind (P := fun children u => ∃ opened rest, children = opened :: rest ∧
    opened.kind = .token .indent ∧ opened.children = [] ∧ Closes rest ∧
    Calm (c.within .body c.nesting c.lineBound) u) ?_ ?_
  · -- The `indent` opens a level, which the last step of the loop closes.
    have hbump : Ensures t bump fun nodes u => nodes = [.ofToken none t.step.1] ∧
        Entry rules.limit (bound + 1) base (u.inMode .body) ∧
          Calm ((c.withBodies 1).within .body c.nesting c.lineBound) (u.inMode .body) := by
      have bumped : Bumped .outside t _ _ :=
        bump_spec .outside ht.wellFormed (trimmed.front ▸ hfront) rfl none
      have hflush := bump_flush_spec trimmed.flush (by rw [hkind]; exact nofun) none
      have hu := ht.after (bumped.outcome Nat.one_pos).toRan
      have hopen := (lawful_balanced []).open_body (trimmed.front.trans hfront) hmode hbodies
        hbefore.calm.inv
      refine ⟨hflush.1, ⟨⟨hu.wellFormed, hu.work_lt, hu.reach_le⟩, rfl⟩, hopen.1, ?_⟩
      exact (bumped.outcome Nat.one_pos).derives.advances.exhausted_eq.trans hbefore.calm.live
    refine hbump.bind ?_
    rintro opened u ⟨rfl, hu, hin⟩
    refine Ensures.setMode ?_
    have hshebang := bodyShebang_spec .outside serves hu (by decide : 1 < 2)
    refine (Ensures.quiet hin hshebang (fun _ _ h => h.derives) ?_).bind ?_
    · intro kinds e he _ hbodies' h
      exact ((lawful_balanced kinds).bodyShebang he (hbodies' Nat.one_ne_zero) (pairs kinds) h).1
    · rintro first v ⟨hfirst, quiet⟩
      have hv := hu.after hfirst.toRan
      have hlines : Ensures v (loop (recipeBodyStep rules) rules.budget ()) fun nodes w =>
          Closes nodes ∧ Calm (((c.withBodies 1).within .body c.nesting c.lineBound).withBodies 0) w :=
        loop_spec (fun _ _ hw => recipeBodyStep_closes pairs serves hw.1 hw.2 rfl rfl)
          ⟨hv, quiet.calm⟩ (serves.work_lt hv.toAffords)
      refine hlines.bind ?_
      rintro lines w ⟨hcloses, hw⟩
      refine ⟨_, first ++ lines, rfl, ?_, rfl, quiet.tidy.closes hcloses, ?_⟩
      · change Node.Kind.ofToken t.step.1.kind = _
        rw [hkind]
        rfl
      · rw [← hbodies] at hw
        exact hw
  · rintro _ u ⟨opened, rest, rfl, hopened, hleaf, hcloses, hu⟩
    exact ⟨hbefore.tidy.append (hcloses.body hopened hleaf _ _), hu⟩

/-! ## Items -/

section Normal

variable (hmode : c.mode = .normal) (hnesting : c.nesting = 0) (hbodies : c.bodies = 0)
include hmode hnesting hbodies

theorem recipe_tidy (serves : Serves rules bound) (entry : Entry rules.limit (bound + 1) base s)
    (calm : Calm c s) {adopted : Forest} (hadopted : Tidy adopted) :
    Ensures s (recipe rules adopted) fun nodes t => Tidy nodes ∧ Calm c t := by
  have hall := lawful_balanced
  unfold recipe enclose
  refine Ensures.bind (P := fun children t => Tidy children ∧ Calm c t) ?_ ?_
  · have hheader : Ensures s (recipeHeader rules) fun nodes t =>
        Outcome .outside (base + 9) s nodes t ∧ t.MidLine :=
      ⟨(recipeHeader_spec .outside serves entry (Nat.le_refl _)).toOutcome,
        (hall []).stops_recipeHeader hmode (pairs []) calm.inv⟩
    refine (Ensures.quiet calm hheader (fun _ _ h => h.1.derives) ?_).bind ?_
    · intro kinds e he _ _ h
      exact ((hall kinds).recipeHeader (he.trans hmode) (pairs kinds) h).1
    rintro header t ⟨⟨hheader, hmid⟩, quiet⟩
    have ht := entry.after hheader.toRan
    refine (Ensures.quiet quiet.calm (lineEnd_spec .outside serves ht (Nat.le_refl base))
      (fun _ _ h => h.derives) ?_).bind ?_
    · intro kinds e he hnesting' _ h
      exact ((hall kinds).lineEnd (he.trans hmode) (pairs kinds) (hnesting'.trans hnesting) hmid h).1
    rintro ending u ⟨hending, quiet'⟩
    have hu := ht.after hending.toRan
    have hfirst := quiet.append quiet'
    have hlook : Entry rules.limit (bound + 1) base (u.inMode .bodyStart) :=
      ⟨⟨hu.wellFormed, hu.work_lt, hu.reach_le⟩, rfl⟩
    have hstart := hfirst.calm.inMode .bodyStart
    -- A body is looked for in a mode of its own, and its end leaves yet another one behind.
    refine Ensures.setMode (Ensures.isAt_join (P := fun body v => Tidy body ∧
      ∃ mode, Calm (c.within mode c.nesting c.lineBound) v) ?_ ?_ ?_)
    · intro hfront
      refine (recipeBody_tidy pairs serves hlook hstart rfl hbodies hfront).mono ?_
      rintro body v ⟨hbody, hv⟩
      exact ⟨hbody, .body, hv⟩
    · intro _
      exact ⟨Node.tidy_nil, .bodyStart, hstart⟩
    · rintro body v ⟨hbody, mode, hv⟩
      refine ⟨hfirst.tidy.append hbody, ?_⟩
      have hback := hv.inMode .normal
      have hsame : (c.within mode c.nesting c.lineBound).within .normal c.nesting c.lineBound = c :=
        Context.within_self hmode
      rw [← hsame]
      exact hback
  · rintro children t ⟨hchildren, ht⟩
    exact ⟨(hadopted.append hchildren).branch none rfl (by decide) _, ht⟩

/-- An item around the attributes in front of it; only a recipe touches levels. -/
theorem itemOfKind_tidy (serves : Serves rules bound)
    (entry : Entry rules.limit (bound + 1) base s) (calm : Calm c s) {kind : ItemKind}
    (hstarts : kind.Starts s) {adopted : Forest}
    (hadopted : Ran .outside (base + 9) r adopted s) (hlive : r.exhausted = false)
    (quiet : Quiet c r adopted s) :
    Ensures s (itemOfKind rules kind adopted) fun nodes t => Tidy nodes ∧ Calm c t := by
  by_cases hkind : kind = .recipe
  · subst hkind
    exact recipe_tidy pairs hmode hnesting hbodies serves entry calm quiet.tidy
  · have hspec := itemOfKind_spec rfl serves entry (calm.inv.2.1.mode.trans hmode) hstarts hadopted
      (Nat.le_refl _)
    refine (Ensures.quiet_from calm hlive quiet.kinds
      (hspec.mono fun _ _ h => ⟨h.1.derives, trivial⟩) ?_).mono fun _ _ h => ⟨h.2.tidy, h.2.calm⟩
    intro kinds e he hnesting' _ h
    exact ((lawful_balanced kinds).itemOfKind_named (he.trans hmode) (hnesting'.trans hnesting)
      (pairs kinds) (fun hrecipe => absurd hrecipe hkind)
      (hstarts.first.resolve_right fun hrecipe => hkind hrecipe.1)
      (fun hsetting => hstarts.second (.inr (.inr hsetting))) adopted h).1

theorem attributedItem_tidy (serves : Serves rules bound)
    (entry : Entry rules.limit (bound + 1) base s) (calm : Calm c s)
    (hfront : endsLine s.front = false) :
    Ensures s (attributedItem rules) fun nodes t => Tidy nodes ∧ Calm c t := by
  have hall := lawful_balanced
  unfold attributedItem
  refine (trivia_quiet calm).bind ?_
  rintro before r ⟨trimmed, hbefore⟩
  have hr := entry.after (trimmed.outcome .outside Nat.one_pos).toRan
  have hattributes := attributes_spec .outside serves hr (by omega : base + 6 ≤ base + 9)
  refine (Ensures.quiet hbefore.calm hattributes (fun _ _ h => h.derives) ?_).bind ?_
  · intro kinds e he _ _ h
    exact ((hall kinds).attributes (he.trans hmode) (pairs kinds) h).1
  rintro adopted t ⟨hadopted, quiet⟩
  have ht := hr.after hadopted.toRan
  have hend : ∀ nodes u, Tidy nodes ∧ Calm c u → Tidy (before ++ nodes) ∧ Calm c u :=
    fun nodes u h => ⟨hbefore.tidy.append h.1, h.2⟩
  refine Ensures.peekToken (Ensures.peekAt (Ensures.peekAt ?_))
  dsimp only
  split
  · next kind hkind =>
    exact (itemOfKind_tidy pairs hmode hnesting hbodies serves ht quiet.calm
      (ItemKind.starts_of_detect? hkind) hadopted.toRan hbefore.calm.live quiet).bind hend
  · have hspec := noItem_spec .outside serves ht hadopted (trimmed.front ▸ hfront)
      (Nat.le_add_right base 9)
    refine ((Ensures.quiet_from quiet.calm hbefore.calm.live quiet.kinds
      (hspec.mono fun _ _ h => ⟨h.1.derives, trivial⟩) ?_).mono
        fun _ _ h => ⟨h.2.tidy, h.2.calm⟩).bind hend
    intro kinds e he _ _ h
    exact ((hall kinds).noItem (he.trans hmode) (pairs kinds) adopted h).1

theorem item_tidy (serves : Serves rules bound) (entry : Entry rules.limit (bound + 1) base s)
    (calm : Calm c s) (hne : s.front ≠ .endOfInput) :
    Ensures s (item rules) fun nodes t => Tidy nodes ∧ Calm c t := by
  have hwf := calm.inv.1
  have hbump : Ensures s bump (Bumped .outside s) →
      Ensures s bump fun nodes t => Tidy nodes ∧ Calm c t := by
    intro hspec
    refine (Ensures.quiet calm hspec (fun _ _ h => (h.outcome Nat.one_pos).derives) ?_).mono
      fun _ _ h => ⟨h.2.tidy, h.2.calm⟩
    intro kinds e he _ _ h
    exact ((lawful_balanced kinds).bump_calm (he.trans hmode) none rfl hne h).1
  unfold item
  refine Ensures.peek ?_
  split
  · next hfront => exact hbump (bump_spec .outside hwf hfront rfl none)
  · next hfront => exact hbump (bump_spec .outside hwf hfront rfl none)
  · next hfront => exact hbump (bump_spec .outside hwf hfront rfl none)
  · next hfront => exact hbump (bump_fault_spec .outside entry hfront none)
  · next hnewline _ hdedent _ =>
    exact attributedItem_tidy pairs hmode hnesting hbodies serves entry calm
      (endsLine_eq_false hnewline hne hdedent)

/-- All of a file. -/
theorem file_tidy (serves : Serves rules bound) (entry : Entry rules.limit (bound + 1) base s)
    (calm : Calm c s) : Ensures s (file rules) fun nodes t => Tidy nodes ∧ Calm c t := by
  have hall := lawful_balanced
  unfold file
  have hshebang := fileShebang_spec .outside serves entry (Nat.le_refl base)
  refine (Ensures.quiet calm hshebang (fun _ _ h => h.derives) ?_).bind ?_
  · intro kinds e he hnesting' _ h
    exact ((hall kinds).fileShebang (he.trans hmode) (hnesting'.trans hnesting) (pairs kinds) h).1
  rintro first t ⟨hfirst, quiet⟩
  have ht := entry.after hfirst.toRan
  have htmode := quiet.calm.inv.2.1.mode.trans hmode
  have hstep : ∀ (memory : Unit) u, (Entry rules.limit (bound + 1) base u ∧ Calm c u) →
      Ensures u (fileStep rules memory)
        (Steps (fun _ v => Entry rules.limit (bound + 1) base v ∧ Calm c v)
          (fun _ _ nodes v => Tidy nodes ∧ Calm c v) memory u) := by
    rintro memory u ⟨hu, hcalm⟩
    unfold fileStep
    refine Ensures.isAt (fun _ => ⟨Node.tidy_nil, hcalm⟩) ?_
    intro hne
    have hboth : Ensures u (item rules) fun nodes v => (Tidy nodes ∧ Calm c v) ∧
        Ran .outside (base + 10) u nodes v ∧ v.scanner.work < u.scanner.work :=
      ⟨item_tidy pairs hmode hnesting hbodies serves hu hcalm hne,
        item_spec rfl serves hu (hcalm.inv.2.1.mode.trans hmode) hne (Nat.le_refl _)⟩
    refine hboth.bind ?_
    rintro nodes v ⟨⟨htidy, hv⟩, hran, hwork⟩
    refine ⟨⟨hu.after hran, hv⟩, hwork, ?_⟩
    rintro more w ⟨hmore, hw⟩
    exact ⟨htidy.append hmore, hw⟩
  refine (loop_spec hstep ⟨ht, quiet.calm⟩ (serves.work_lt ht.toAffords)).bind ?_
  rintro items u ⟨hitems, hu⟩
  refine (trivia_quiet hu).bind ?_
  rintro last v ⟨-, hlast⟩
  exact ⟨(quiet.tidy.append hitems).append hlast.tidy, hlast.calm⟩

end Normal

end Body

end Quiet

/-- Reading a source makes tidy nodes, and the levels that it opens are closed. -/
theorem run_tidy (limit : Nat) (source : Text) :
    Tidy (run limit source).1 ∧ Calm .outer (run limit source).2 := by
  obtain ⟨bound, hbound⟩ : ∃ bound, budgetFor source.length = bound + 1 :=
    ⟨8 * source.length + 7, by unfold budgetFor; omega⟩
  have entry := entry_ofText limit source
  rw [run_eq]
  rw [hbound] at entry ⊢
  have pairs : ∀ kinds, (balanced kinds).Pairs (.tie limit (bound + 1)) (.tie limit (bound + 1)) :=
    fun kinds => (lawful_balanced kinds).pairs_tie (Nat.le_refl limit) (.inl rfl) (Nat.le_refl _)
  have calm : Calm .outer (.ofText source) := ⟨balanced_start [] source, rfl⟩
  exact file_tidy pairs rfl rfl rfl serves_tie entry calm

end Grammar

/-- Pairs of tokens, the latest first, are pairs in order. -/
theorem Grammar.reverse_pairedKinds (count : Nat) :
    (pairedKinds count).reverse = (List.replicate count [.indent, .dedent]).flatten := by
  simp [pairedKinds, List.reverse_flatten]

theorem levelKinds_reverse (tokens : List Token) :
    levelKinds tokens.reverse = (levelKinds tokens).reverse := by
  simp [levelKinds, List.filter_reverse]

/-- In every tree, `indent`s and `dedent`s come in pairs, one after the other, and each pair frames
the body of a recipe. -/
theorem indentation_balanced (limit : Nat) (source : Text) :
    (∃ count, levelKinds (Grammar.run limit source).2.consumed.reverse =
      (List.replicate count [.indent, .dedent]).flatten) ∧
    ∀ node ∈ (parse limit source).root.preorder, node.Framed := by
  obtain ⟨htidy, calm⟩ := Grammar.run_tidy limit source
  constructor
  · obtain ⟨-, -, count, hcount⟩ := calm.leveled
    exact ⟨count, by rw [levelKinds_reverse, hcount, Grammar.reverse_pairedKinds]⟩
  · intro node hmem
    have hroot : Tidy [(parse limit source).root] := htidy.branch none rfl (by decide) _
    apply hroot.framed node
    rw [Node.preorderList_cons, Node.preorderList_nil, List.append_nil]
    exact hmem

end Justfile
