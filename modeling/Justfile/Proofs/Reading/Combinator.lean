import Justfile.Proofs.Reading.Primitive

/-!
# Combinators of productions

What productions are put together with: optional and expected tokens, brackets, nodes around what a
production returns, and loops. Each has one specification, from which those of the productions are
assembled. `Serves` is what a production asks of the rules it is run with.
-/

set_option autoImplicit false

namespace Justfile.Grammar

/-! ## Optional and expected tokens -/

section Tokens

variable {height : Nat} {s : State}

theorem bumpIf_spec (place : Place) (wf : s.scanner.WellFormed) {kind : Token.Kind}
    (hsolid : isSolid place kind = true) (hpos : 0 < height) :
    Ensures s (bumpIf kind) fun nodes t =>
      Reads (s.front = kind) place height s nodes t ∧ (s.front ≠ kind → t = s) := by
  refine Ensures.isAt ?_ ?_
  · intro hfront
    refine (bump_spec place wf hfront hsolid none).mono ?_
    intro nodes t bumped
    exact ⟨bumped.reads hpos, fun hne => absurd hfront hne⟩
  · intro hfront
    exact .pure ⟨(Outcome.nil place height s).reads hfront, fun _ => rfl⟩

theorem missing_spec (place : Place) (s : State) (hpos : 0 < height) (field : Option Field)
    (expected : Expected) : Ensures s (missing field expected) (Outcome place height s) :=
  ⟨⟨.missing field expected hpos, ⟨rfl, rfl, rfl, rfl⟩, Nat.le_refl _⟩, fun _ settled => settled⟩

theorem expectMark_spec (place : Place) (wf : s.scanner.WellFormed) (hpos : 0 < height)
    (sign : Mark) : Ensures s (expectMark sign) (Outcome place height s) := by
  refine Ensures.isAtMark ?_ ?_
  · intro hfront
    refine (bump_spec place wf hfront rfl none).mono ?_
    intro nodes t bumped
    exact bumped.outcome hpos
  · intro _
    exact missing_spec place s hpos none _

theorem expectIdentifier_spec (place : Place) (wf : s.scanner.WellFormed) (hpos : 0 < height)
    (field : Field) (expected : Expected) :
    Ensures s (expectIdentifier field expected)
      (Reads (s.front = .identifier) place height s) := by
  refine Ensures.isAt ?_ ?_
  · intro hfront
    refine (bump_spec place wf hfront rfl _).mono ?_
    intro nodes t bumped
    exact bumped.reads hpos
  · intro hfront
    refine (missing_spec place s hpos _ _).mono ?_
    intro nodes t houtcome
    exact houtcome.reads hfront

end Tokens

/-! ## Changes of context -/

namespace State

/-- The state in another mode. -/
def inMode (s : State) (mode : Mode) : State :=
  s.within mode s.stream.nesting s.stream.lineBound s.depth

/-- The state with another number of open brackets. -/
def nest (s : State) (nesting : Nat) : State :=
  s.within s.stream.mode nesting s.stream.lineBound s.depth

/-- The state with another number of expressions around it. -/
def atDepth (s : State) (depth : Nat) : State :=
  s.within s.stream.mode s.stream.nesting s.stream.lineBound depth

/-- The state in the context of an earlier one, apart from the expressions around it. -/
def leave (s earlier : State) : State :=
  s.within earlier.stream.mode earlier.stream.nesting earlier.stream.lineBound s.depth

end State

section Context

variable {limit bound base height : Nat} {place : Place} {s t u v : State}

/-- What is read in a context of its own, behind the token that opens it. -/
theorem Bumped.confined {opened inner : Forest} {mode : Mode} {nesting : Nat} {lineBound : Bool}
    (bumped : Bumped place s opened t)
    (hmode : s.stream.mode.isFlat = true → mode.isFlat = true)
    (hinner : Outcome place height (t.within mode nesting lineBound t.depth) inner u)
    (hpos : 0 < height) {c : Prop} : Reads c place height s (opened ++ inner) (u.leave s) := by
  have hopened := bumped.outcome hpos
  refine ⟨⟨⟨?_, ?_, ?_⟩, ?_⟩, ?_⟩
  · have hderives := (hopened.derives.append (.within mode nesting lineBound t.depth)).append
      (hinner.derives.append (.within s.stream.mode s.stream.nesting s.stream.lineBound u.depth))
    rwa [List.append_nil, List.append_nil] at hderives
  · exact ⟨rfl, rfl, rfl, hinner.keeps.depth.trans hopened.keeps.depth⟩
  · exact Nat.le_trans hinner.work_le hopened.work_le
  · intro hflat settled
    exact hinner.settled (hmode hflat) (hopened.settled hflat settled)
  · intro _
    exact Nat.lt_of_le_of_lt hinner.work_le bumped.work_lt

theorem Entry.nest (entry : Entry limit bound base s) (nesting : Nat) :
    Entry limit bound base (s.nest nesting) :=
  ⟨⟨entry.wellFormed, entry.work_lt, entry.reach_le⟩, entry.outer⟩

/-- A bracket has been opened. -/
def Opened (place : Place) (s : State) (nodes : Forest) (t : State) : Prop :=
  ∃ u, Bumped place s nodes u ∧ t = u.nest (s.stream.nesting + 1)

/-- A bracket has been closed. -/
def Closed (place : Place) (height : Nat) (s : State) (nodes : Forest) (t : State) : Prop :=
  ∃ u, Outcome place height s nodes u ∧ t = u.nest (s.stream.nesting - 1)

theorem openBracket_spec (place : Place) (wf : s.scanner.WellFormed) {sign : Mark} (hfront : s.front = .mark sign) :
    Ensures s openBracket (Opened place s) := by
  unfold openBracket
  refine (bump_spec place wf hfront rfl none).bind ?_
  intro nodes t bumped
  have hnesting := (bumped.outcome Nat.one_pos).keeps.nesting
  exact ⟨t, bumped, by rw [← hnesting]; rfl⟩

theorem closeBracket_spec (place : Place) (wf : s.scanner.WellFormed) (hpos : 0 < height) (sign : Mark) :
    Ensures s (closeBracket sign) (Closed place height s) := by
  unfold closeBracket
  refine (expectMark_spec place wf hpos sign).bind ?_
  intro nodes t houtcome
  exact ⟨t, houtcome, by rw [← houtcome.keeps.nesting]; rfl⟩

theorem Entry.opened (entry : Entry limit (bound + 1) base s) {nodes : Forest}
    (h : Opened place s nodes t) : Entry limit bound base t := by
  obtain ⟨u, bumped, rfl⟩ := h
  exact (entry.bumped bumped).nest _

/-- What stands between brackets, together with them. -/
theorem Opened.bracketed {opened inner closed : Forest} (hopened : Opened place s opened t)
    (hinner : Outcome place height t inner u) (hclosed : Closed place height u closed v)
    (hpos : 0 < height) {c : Prop} : Reads c place height s (opened ++ inner ++ closed) v := by
  obtain ⟨first, bumped, rfl⟩ := hopened
  obtain ⟨last, hlast, rfl⟩ := hclosed
  have hfirst := (bumped.outcome hpos).keeps
  have hkeeps := hinner.keeps.trans hlast.keeps
  have hnesting : u.stream.nesting - 1 = s.stream.nesting := by
    rw [hinner.keeps.nesting]
    exact Nat.add_sub_cancel ..
  have hleft : last.nest (u.stream.nesting - 1) = last.leave s := by
    unfold State.nest State.leave
    rw [hnesting, hkeeps.mode.trans hfirst.mode, hkeeps.lineBound.trans hfirst.lineBound]
  rw [hleft, List.append_assoc]
  refine bumped.confined ?_ (hinner.append hlast) hpos
  intro hflat
  exact hfirst.mode ▸ hflat

end Context

/-! ## Nodes -/

section Nodes

variable {limit bound base inner outer : Nat} {c : Prop} {place : Place} {s t u : State}
  {field : Option Field} {kind : Node.Kind} {body : Parse Forest}

/-- A group stands behind the trivia in front of it. -/
theorem Trimmed.group {before children : Forest} (trimmed : Trimmed s before t)
    (hbody : Outcome place.below inner t children u) (hlt : inner < outer)
    (hkind : kind.isGroup = true) :
    Outcome place outer s (before ++ [.branch field kind children u.stream.offset]) u := by
  have hpos : 0 < outer := Nat.zero_lt_of_lt hlt
  have hnode : Outcome place outer t [.branch field kind children u.stream.offset] u :=
    ⟨⟨.group field kind hbody.derives hlt hkind, hbody.keeps, hbody.work_le⟩, hbody.settled⟩
  exact (trimmed.outcome place hpos).append hnode

theorem branch_reads (inner : Nat) (entry : Entry limit bound base s) (hkind : kind.isGroup = true)
    (hlt : inner < outer)
    (hbody : ∀ before t, Trimmed s before t → Entry limit bound base t →
      Ensures t body (Reads c place.below inner t)) :
    Ensures s (branch field kind body) (Reads c place outer s) := by
  unfold branch
  refine (trivia_spec entry.wellFormed).bind ?_
  intro before t trimmed
  have htrimmed := trimmed.outcome place Nat.one_pos
  refine (hbody before t trimmed (entry.after htrimmed.toRan)).bind ?_
  intro children u hchildren
  refine ⟨trimmed.group hchildren.toOutcome hlt hkind, ?_⟩
  intro holds
  exact Nat.lt_of_lt_of_le (hchildren.work_lt holds) htrimmed.work_le

theorem branch_spec (inner : Nat) (entry : Entry limit bound base s) (hkind : kind.isGroup = true)
    (hlt : inner < outer)
    (hbody : ∀ before t, Trimmed s before t → Entry limit bound base t →
      Ensures t body (Outcome place.below inner t)) :
    Ensures s (branch field kind body) (Outcome place outer s) := by
  have hreads : Ensures s (branch field kind body) (Reads False place outer s) := by
    refine branch_reads inner entry hkind hlt ?_
    intro before t trimmed hentry
    exact (hbody before t trimmed hentry).mono fun _ _ h => h.reads not_false
  exact hreads.mono fun _ _ h => h.toOutcome

theorem errorBranch_spec (inner : Nat) (entry : Entry limit bound base s) {cause : Cause}
    (hcause : cause.marksError = true) (hlt : inner < outer)
    (hbody : ∀ before t, Trimmed s before t → Entry limit bound base t →
      Ensures t body (Reads c .error inner t)) :
    Ensures s (errorBranch field cause body) (Reads c place outer s) := by
  unfold errorBranch
  refine (trivia_spec entry.wellFormed).bind ?_
  intro before t trimmed
  have hpos : 0 < outer := Nat.zero_lt_of_lt hlt
  have htrimmed := trimmed.outcome place hpos
  refine (hbody before t trimmed (entry.after htrimmed.toRan)).bind ?_
  intro children u hchildren
  have hnode : Reads c place outer t [.branch field .error children u.stream.offset]
      (u.withReport cause (Node.branch field .error children u.stream.offset).span) :=
    ⟨⟨⟨.error field cause hchildren.derives hlt hcause,
      ⟨hchildren.keeps.mode, hchildren.keeps.nesting, hchildren.keeps.lineBound,
        hchildren.keeps.depth⟩, hchildren.work_le⟩, hchildren.settled⟩, hchildren.work_lt⟩
  exact htrimmed.append_reads hnode

/-- A node around what a production returns and nodes that were made before it. -/
theorem enclose_spec (inner : Nat) (hplace : place.below = place) {r : State} {adopted : Forest}
    (hadopted : Ran place inner r adopted s) (hkind : kind.isGroup = true) (hlt : inner < outer)
    (hbody : Ensures s body fun children t =>
      Ran place inner s children t ∧ t.scanner.work < s.scanner.work) :
    Ensures s (enclose kind adopted body) fun nodes t =>
      Ran place outer r nodes t ∧ t.scanner.work < s.scanner.work := by
  unfold enclose
  refine hbody.bind ?_
  rintro children t ⟨hchildren, hwork⟩
  have hall := hadopted.append hchildren
  have hderives : Derives place.below inner r (adopted ++ children) t := by
    rw [hplace]
    exact hall.derives
  exact ⟨⟨.group none kind hderives hlt hkind, hall.keeps, hall.work_le⟩, hwork⟩

end Nodes

/-! ## Loops -/

section Loops

variable {σ : Type} {step : σ → Parse (Forest × Option σ)} {I : σ → State → Prop}

/-- A step of a loop: it ends the loop with what the loop promises, or it does some work and what
the loop promises from there on can be put behind it. -/
def Steps (I : σ → State → Prop) (Q : σ → State → Forest → State → Prop) (memory : σ) (s : State)
    (result : Forest × Option σ) (t : State) : Prop :=
  match result.2 with
  | none => Q memory s result.1 t
  | some next => I next t ∧ t.scanner.work < s.scanner.work ∧
      ∀ more u, Q next t more u → Q memory s (result.1 ++ more) u

/-- A loop comes to its end within a budget that exceeds the work ahead. -/
theorem loop_spec {Q : σ → State → Forest → State → Prop}
    (hstep : ∀ memory s, I memory s → Ensures s (step memory) (Steps I Q memory s)) {fuel : Nat}
    {memory : σ} {s : State} (hI : I memory s) (hfuel : s.scanner.work < fuel) :
    Ensures s (loop step fuel memory) (Q memory s) := by
  induction fuel generalizing memory s with
  | zero => exact absurd hfuel (Nat.not_lt_zero _)
  | succ fuel ih =>
    unfold loop
    refine (hstep memory s hI).bind ?_
    rintro ⟨nodes, next⟩ t hsteps
    cases next with
    | none => exact hsteps
    | some next =>
      obtain ⟨hnext, hlt, happend⟩ := hsteps
      refine (ih hnext (by omega)).bind ?_
      intro more u hmore
      exact happend more u hmore

/-- A step of a loop whose nodes are an outcome each. -/
structure Iterates (I : σ → State → Prop) (place : Place) (height : Nat) (s : State)
    (result : Forest × Option σ) (t : State) : Prop where
  outcome : Outcome place height s result.1 t
  next : ∀ memory, result.2 = some memory → I memory t ∧ t.scanner.work < s.scanner.work

theorem Iterates.done {place : Place} {height : Nat} {s t : State} {nodes : Forest}
    (h : Outcome place height s nodes t) : Iterates I place height s (nodes, none) t :=
  ⟨h, nofun⟩

theorem Iterates.again {place : Place} {height : Nat} {s t : State} {nodes : Forest} {memory : σ}
    (h : Reads True place height s nodes t) (hI : I memory t) :
    Iterates I place height s (nodes, some memory) t := by
  refine ⟨h.toOutcome, ?_⟩
  rintro _ ⟨rfl⟩
  exact ⟨hI, h.work_lt trivial⟩

/-- A loop of outcomes is an outcome. -/
theorem loop_outcome {place : Place} {height : Nat}
    (hstep : ∀ memory s, I memory s → Ensures s (step memory) (Iterates I place height s))
    {fuel : Nat} {memory : σ} {s : State} (hI : I memory s) (hfuel : s.scanner.work < fuel) :
    Ensures s (loop step fuel memory) (Outcome place height s) := by
  refine loop_spec (I := I) (Q := fun _ => Outcome place height) ?_ hI hfuel
  intro memory s hI
  refine (hstep memory s hI).mono ?_
  rintro ⟨nodes, next⟩ t h
  cases next with
  | none => exact h.outcome
  | some next =>
    obtain ⟨hnext, hlt⟩ := h.next next rfl
    exact ⟨hnext, hlt, fun more u hmore => h.outcome.append hmore⟩

/-- A loop of outcomes whose first step consumes something if the condition holds. -/
theorem loop_reads {c : Prop} {place : Place} {height : Nat}
    (hstep : ∀ memory s, I memory s → Ensures s (step memory) (Iterates I place height s))
    {fuel : Nat} {memory : σ} {s : State} (hI : I memory s) (hfuel : s.scanner.work < fuel)
    (hfirst : c → Ensures s (step memory) fun _ t => t.scanner.work < s.scanner.work) :
    Ensures s (loop step fuel memory) (Reads c place height s) := by
  cases fuel with
  | zero => exact absurd hfuel (Nat.not_lt_zero _)
  | succ fuel =>
    unfold loop
    have hboth : Ensures s (step memory) fun result t =>
        Iterates I place height s result t ∧ (c → t.scanner.work < s.scanner.work) :=
      ⟨hstep memory s hI, hfirst⟩
    refine hboth.bind ?_
    rintro ⟨nodes, next⟩ t ⟨hiterates, hlt⟩
    have hreads : Reads c place height s nodes t := ⟨hiterates.outcome, hlt⟩
    cases next with
    | none => exact hreads
    | some next =>
      obtain ⟨hnext, hwork⟩ := hiterates.next next rfl
      refine (loop_outcome hstep hnext (by omega)).bind ?_
      intro more u hmore
      exact hreads.append hmore

end Loops

/-! ## Rules -/

/-- What a production asks of its rules: loops have a budget beyond the bound, and below the bound
an expression ends with an outcome, and consumes something if one starts. -/
structure Serves (rules : Rules) (bound : Nat) : Prop where
  budget : bound < rules.budget
  expression : ∀ {base : Nat} {s : State}, Entry rules.limit bound base s →
    ∀ (place : Place) {height : Nat}, base ≤ height → ∀ field,
      Ensures s (rules.expression field)
        (Reads (startsExpression s.front = true) place height s)

/-- The budget of a loop exceeds the work ahead. -/
theorem Serves.work_lt {rules : Rules} {bound base : Nat} {s : State} (serves : Serves rules bound)
    (h : Affords rules.limit (bound + 1) base s) : s.scanner.work < rules.budget :=
  Nat.lt_of_lt_of_le h.work_lt serves.budget

end Justfile.Grammar
