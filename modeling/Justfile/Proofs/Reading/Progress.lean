import Justfile.Proofs.Reading.File
import Justfile.Proofs.Scanner.Scan

/-!
# Progress

The loops of the grammar (`Loop`) go on only where there is less work ahead than before (`Loop.goesOn`).

There are productions that consume nothing, and tokens without characters. That a loop which goes on has
consumed a token follows from the work ahead of the scanner, because nothing but a token that is consumed
moves it (`Derives.grows`).
-/

set_option autoImplicit false

namespace Justfile

namespace Scanner

theorem work_scan_le {s : Scanner} (wf : s.WellFormed) (modes : List Mode) :
    (s.scan modes).2.work ≤ s.work :=
  (scan_induction (motive := fun _ t => t.work ≤ s.work) wf (Nat.le_refl _)
    (fun _ _ mode hwf hle => Nat.le_trans (work_next_le hwf mode) hle) modes).2

end Scanner

namespace Grammar

/-! ## Tokens consumed -/

/-- From one state to a later one: tokens were consumed, or the scanner did not move. -/
def Grows (s t : State) : Prop :=
  s.consumed.length < t.consumed.length ∨ (t.consumed = s.consumed ∧ t.scanner = s.scanner)

section Grows

variable {s t u : State}

theorem Grows.refl (s : State) : Grows s s := .inr ⟨rfl, rfl⟩

theorem Grows.length_le (h : Grows s t) : s.consumed.length ≤ t.consumed.length := by
  rcases h with hlt | ⟨hsame, -⟩
  · exact Nat.le_of_lt hlt
  · rw [hsame]

theorem Grows.trans (first : Grows s t) (second : Grows t u) : Grows s u := by
  rcases first with hlt | ⟨hconsumed, hscanner⟩
  · exact .inl (Nat.lt_of_lt_of_le hlt second.length_le)
  · unfold Grows at second ⊢
    rwa [hconsumed, hscanner] at second

/-- A scanner that has less work ahead did move. -/
theorem Grows.length_lt (h : Grows s t) (hwork : t.scanner.work < s.scanner.work) :
    s.consumed.length < t.consumed.length := by
  rcases h with hlt | ⟨-, hscanner⟩
  · exact hlt
  · rw [hscanner] at hwork
    exact absurd hwork (Nat.lt_irrefl _)

theorem grows_take (s : State) (token : Token) (scanner : Scanner) : Grows s (s.take token scanner) :=
  .inl (Nat.lt_succ_self _)

theorem Ending.grows {l : Literal} {nodes : Forest} (ending : Ending l s nodes t) : Grows s t := by
  cases ending with
  | closed => exact grows_take s _ _
  | reported => exact grows_take s _ _
  | silent => exact .refl _

/-- Nothing but a token that is consumed moves the scanner. -/
theorem Derives.grows {place : Place} {height : Nat} {nodes : Forest}
    (derives : Derives place height s nodes t) : Grows s t := by
  induction derives with
  | nil => exact .refl _
  | append _ _ ih1 ih2 => exact ih1.trans ih2
  | within => exact .inr ⟨rfl, rfl⟩
  | token => exact grows_take _ _ _
  | keyword => exact grows_take _ _ _
  | closingBraces => exact grows_take _ _ _
  | missing => exact .inr ⟨rfl, rfl⟩
  | group _ _ _ _ _ ih => exact ih
  | body _ _ _ _ ih => exact ih
  | number => exact grows_take _ _ _
  | error _ _ _ _ _ ih => exact ih
  | interpolation _ _ _ ih => exact ih
  -- A literal starts with the token that opens it, and may end without one.
  | @literal _ _ _ s _ _ _ _ l _ _ _ _ _ ending _ _ ih =>
    have hopened : Grows s (s.opened l) := grows_take s s.step.1 s.step.2
    exact (hopened.trans ih).trans ending.grows

end Grows

/-! ## Places in a source -/

/-- The scanner of the state has read some of the source, in whatever modes. -/
def State.On (source : Text) (s : State) : Prop :=
  ∃ modes, s.scanner = ((Scanner.ofText source).scan modes).2

section On

variable {source : Text} {s t : State}

theorem on_ofText (source : Text) : (State.ofText source).On source := ⟨[], rfl⟩

theorem State.On.next (h : s.On source) {mode : Mode} (ht : t.scanner = (s.scanner.next mode).2) :
    t.On source := by
  obtain ⟨modes, hs⟩ := h
  refine ⟨modes ++ [mode], ?_⟩
  rw [Scanner.scan_append, ht, hs]
  rfl

theorem Ending.on {l : Literal} {nodes : Forest} (ending : Ending l s nodes t) (h : s.On source) :
    t.On source := by
  cases ending with
  | closed => exact h.next rfl
  | reported => exact h.next rfl
  | silent => exact h

theorem Derives.on {place : Place} {height : Nat} {nodes : Forest}
    (derives : Derives place height s nodes t) (h : s.On source) : t.On source := by
  induction derives with
  | nil => exact h
  | append _ _ ih1 ih2 => exact ih2 (ih1 h)
  | within => exact h
  | token => exact h.next rfl
  | keyword => exact h.next rfl
  | @closingBraces _ _ s first second middle after hfirst hsecond =>
    -- The two braces are two steps of the scanner, in the same mode.
    have hmiddle : (s.taken).On source := h.next rfl
    have hafter : after = (s.taken.scanner.next s.stream.mode).2 := by
      change after = (s.step.2.next s.stream.mode).2
      rw [hfirst, hsecond]
    exact hmiddle.next hafter
  | missing => exact h
  | group _ _ _ _ _ ih => exact ih h
  | body _ _ _ _ ih => exact ih h
  | number => exact h.next rfl
  | error _ _ _ _ _ ih => exact ih h
  | interpolation _ _ _ ih => exact ih h
  | @literal _ _ _ s _ _ _ _ l _ _ _ _ _ ending _ _ ih =>
    have hopened : (s.opened l).On source := h.next rfl
    exact ending.on (ih hopened)

/-- The budget of a source is enough wherever its scanner stands. -/
theorem State.On.affords (h : s.On source) {bound : Nat} (hbound : budgetFor source.length = bound + 1)
    (limit : Nat) : Affords limit bound (reach (limit - s.depth)) s := by
  obtain ⟨modes, hs⟩ := h
  have wf := Scanner.wellFormed_ofText source
  refine ⟨hs ▸ wf.scan modes, ?_, Nat.le_refl _⟩
  -- The budget is made for the start of the source, and from there on the work only gets less.
  have hscan := Scanner.work_scan_le wf modes
  have hstart := Scanner.work_ofText_le source
  unfold budgetFor at hbound
  rw [hs]
  omega

end On

/-! ## Rounds of a loop -/

/-- The rounds of a loop, from what it remembers in one state to what it remembers in another one. -/
inductive Rounds {σ : Type} (step : σ → Parse (Forest × Option σ)) : σ → State → Nat → σ → State → Prop
  | start {memory : σ} {s : State} : Rounds step memory s 0 memory s
  | round {memory next last : σ} {s t : State} {count : Nat} : (step memory s).1.2 = some next →
      Rounds step next (step memory s).2 count last t → Rounds step memory s (count + 1) last t

section Rounds

variable {σ : Type} {step : σ → Parse (Forest × Option σ)} {fuel : Nat} {memory next : σ} {s : State}

theorem loop_succ : loop step (fuel + 1) memory s =
    (match (step memory s).1.2 with
    | none => pure (step memory s).1.1
    | some next => loop step fuel next >>= fun more => pure ((step memory s).1.1 ++ more))
      (step memory s).2 := rfl

theorem loop_of_none (h : (step memory s).1.2 = none) :
    (loop step (fuel + 1) memory s).2 = (step memory s).2 := by
  rw [loop_succ, h]
  rfl

theorem loop_of_some (h : (step memory s).1.2 = some next) :
    (loop step (fuel + 1) memory s).2 = (loop step fuel next (step memory s).2).2 := by
  rw [loop_succ, h]
  rfl

/-- A loop with a budget for its rounds ends with the step that ends them. -/
theorem loop_of_rounds {last : σ} {t : State} {count : Nat} (rounds : Rounds step memory s count last t)
    (hend : (step last t).1.2 = none) (hlt : count < fuel) :
    (loop step fuel memory s).2 = (step last t).2 := by
  induction rounds generalizing fuel with
  | start =>
    obtain ⟨fuel, rfl⟩ := Nat.exists_eq_add_one_of_ne_zero (Nat.ne_zero_of_lt hlt)
    exact loop_of_none hend
  | round hnext _ ih =>
    obtain ⟨fuel, rfl⟩ := Nat.exists_eq_add_one_of_ne_zero (Nat.ne_zero_of_lt hlt)
    rw [loop_of_some hnext]
    exact ih hend (Nat.lt_of_succ_lt_succ hlt)

end Rounds

/-! ## Steps that are repeated -/

/-- If the loop goes on behind its step, there is less work ahead, in the same mode. -/
def GoesOn {σ : Type} (s : State) (result : Forest × Option σ) (t : State) : Prop :=
  result.2 ≠ none → (∃ place height nodes, Derives place height s nodes t) ∧
    t.scanner.work < s.scanner.work ∧ t.stream.mode = s.stream.mode

section GoesOn

variable {σ : Type} {s t : State} {place : Place} {height : Nat} {nodes more : Forest}

theorem GoesOn.of_done : GoesOn s ((nodes, none) : Forest × Option σ) t := fun h => absurd rfl h

theorem GoesOn.of_reads {result : Forest × Option σ} (h : Reads True place height s more t) :
    GoesOn s result t :=
  fun _ => ⟨⟨_, _, _, h.derives⟩, h.work_lt trivial, h.keeps.mode⟩

theorem GoesOn.of_iterates {I : σ → State → Prop} {result : Forest × Option σ}
    (h : Iterates I place height s result t) : GoesOn s result t := by
  intro hgoes
  obtain ⟨memory, hmemory⟩ := Option.ne_none_iff_exists'.1 hgoes
  exact ⟨⟨_, _, _, h.outcome.derives⟩, (h.next memory hmemory).2, h.outcome.keeps.mode⟩

theorem GoesOn.of_attributed {I : Bool → State → Prop} {attributed : Bool}
    {result : Forest × Option Bool}
    (h : Steps I (fun _ => Attributed place height) attributed s result t) : GoesOn s result t := by
  obtain ⟨nodes, next⟩ := result
  cases next with
  | none => exact .of_done
  | some next =>
    obtain ⟨-, hwork, happend⟩ := h
    -- What the step says about its end, it says for all that may follow: here nothing does.
    have hnil : Attributed place height t [] t :=
      ⟨(Outcome.nil place height t).reads fun hne => absurd rfl hne, fun _ => rfl⟩
    have hran := (happend [] t hnil).toRan
    exact fun _ => ⟨⟨_, _, _, hran.derives⟩, hwork, hran.keeps.mode⟩

end GoesOn

section Literals

variable {rules : Rules} {bound base : Nat} {s : State}

theorem bump_goesOn (wf : s.scanner.WellFormed) {kind : Token.Kind} (hfront : s.front = kind)
    (hsolid : isSolid .outside kind = true) : Ensures s (bump >>= again) (GoesOn s) := by
  refine (bump_spec .outside wf hfront hsolid none).bind ?_
  intro nodes t bumped
  exact GoesOn.of_reads (bumped.reads Nat.one_pos)

theorem interpolation_goesOn (serves : Serves rules bound)
    (affords : Affords rules.limit (bound + 1) base s) (hfront : s.front = .interpolationOpen) :
    Ensures s (interpolation rules >>= again) (GoesOn s) := by
  refine (interpolation_spec .outside serves affords hfront (Nat.lt_succ_self base)
    (Nat.succ_pos base)).bind ?_
  intro nodes t hinterpolated
  exact GoesOn.of_reads hinterpolated.toReads

theorem stringStep_goesOn (serves : Serves rules bound)
    (affords : Affords rules.limit (bound + 1) base s) :
    Ensures s (stringStep rules ()) (GoesOn s) := by
  unfold stringStep
  refine Ensures.peek ?_
  split
  · next hfront => exact bump_goesOn affords.wellFormed hfront rfl
  · next hfront => exact bump_goesOn affords.wellFormed hfront rfl
  · next hfront => exact interpolation_goesOn serves affords hfront
  · exact GoesOn.of_done
  · exact GoesOn.of_done
  · exact GoesOn.of_done

theorem commandStep_goesOn (serves : Serves rules bound)
    (affords : Affords rules.limit (bound + 1) base s) :
    Ensures s (commandStep rules ()) (GoesOn s) := by
  unfold commandStep
  refine Ensures.peek ?_
  split
  · next hfront => exact bump_goesOn affords.wellFormed hfront rfl
  · next hfront => exact interpolation_goesOn serves affords hfront
  · exact GoesOn.of_done

end Literals

/-! ## Chains -/

section Chains

variable {rules : Rules} {bound base : Nat} {s : State}

/-- A round of a chain, with the operands so far: a sign and what stands behind it. -/
def chainStep (rules : Rules) (right? : Token.Kind → Option (Parse Forest)) (nodes : Forest) :
    Parse (Forest × Option Forest) := do
  match right? (← peek) with
  | none => done nodes
  | some operand =>
    if rules.limit ≤ (← get).depth then
      let wrapped ← tooDeep rules none
      done (nodes ++ wrapped)
    else
      let left := Node.branch (some .left) .expression nodes (← offset)
      modify fun s => { s with depth := s.depth + 1 }
      let sign ← bump
      let right ← branch (some .right) .expression operand
      return ([], some (left :: sign ++ right))

theorem chainFrom_succ (rules : Rules) (right? : Token.Kind → Option (Parse Forest))
    (fuel wraps : Nat) (nodes : Forest) :
    chainFrom rules right? (fuel + 1) wraps nodes = (chainStep rules right? nodes >>= fun result =>
      match result.2 with
      | none => surface wraps >>= fun _ => pure result.1
      | some nodes => chainFrom rules right? fuel (wraps + 1) nodes) := by
  rw [chainFrom, chainStep, bind_assoc]
  refine bind_congr fun kind => ?_
  cases right? kind with
  | none => rfl
  | some operand =>
    refine (bind_congr fun s => ?_).trans (bind_assoc _ _ _).symm
    split
    · rfl
    · rfl

section Rounds

variable {right? : Token.Kind → Option (Parse Forest)} {fuel wraps : Nat} {nodes next : Forest}

theorem chainFrom_eq : chainFrom rules right? (fuel + 1) wraps nodes s =
    (match (chainStep rules right? nodes s).1.2 with
    | none => surface wraps >>= fun _ => pure (chainStep rules right? nodes s).1.1
    | some nodes => chainFrom rules right? fuel (wraps + 1) nodes) (chainStep rules right? nodes s).2 :=
  congrFun (chainFrom_succ rules right? fuel wraps nodes) s

theorem chainFrom_of_none (h : (chainStep rules right? nodes s).1.2 = none) :
    (chainFrom rules right? (fuel + 1) wraps nodes s).2 =
      (surface wraps (chainStep rules right? nodes s).2).2 := by
  rw [chainFrom_eq, h]
  rfl

theorem chainFrom_of_some (h : (chainStep rules right? nodes s).1.2 = some next) :
    chainFrom rules right? (fuel + 1) wraps nodes s =
      chainFrom rules right? fuel (wraps + 1) next (chainStep rules right? nodes s).2 := by
  rw [chainFrom_eq, h]

/-- A chain goes through its rounds one after the other, and then takes back what they counted. -/
theorem chainFrom_of_rounds {count : Nat} {last : Forest} {t : State}
    (rounds : Rounds (chainStep rules right?) nodes s count last t)
    (hend : (chainStep rules right? last t).1.2 = none) (hlt : count < fuel) :
    (chainFrom rules right? fuel wraps nodes s).2 =
      (surface (wraps + count) (chainStep rules right? last t).2).2 := by
  induction rounds generalizing fuel wraps with
  | start =>
    obtain ⟨fuel, rfl⟩ := Nat.exists_eq_add_one_of_ne_zero (Nat.ne_zero_of_lt hlt)
    exact chainFrom_of_none hend
  | round hnext _ ih =>
    obtain ⟨fuel, rfl⟩ := Nat.exists_eq_add_one_of_ne_zero (Nat.ne_zero_of_lt hlt)
    rw [chainFrom_of_some hnext, ← Nat.add_assoc, Nat.add_right_comm]
    exact ih hend (Nat.lt_of_succ_lt_succ hlt)

end Rounds

/-- Behind each sign stands a term or a factor. -/
structure SignsOf (rules : Rules) (right? : Token.Kind → Option (Parse Forest)) : Prop where
  isSolid : ∀ {kind p}, right? kind = some p → isSolid .outside kind = true
  eq_or_eq : ∀ {kind p}, right? kind = some p → p = term rules ∨ p = factor rules

theorem signsOf_termRight? (rules : Rules) : SignsOf rules (termRight? rules) where
  isSolid hright := by
    obtain ⟨rfl, -⟩ := termRight?_eq_some hright
    rfl
  eq_or_eq hright := .inr (termRight?_eq_some hright).2

theorem signsOf_sumRight? (rules : Rules) : SignsOf rules (sumRight? rules) where
  isSolid hright := by
    obtain ⟨rfl, -⟩ | ⟨rfl, -⟩ := sumRight?_eq_some hright
    · rfl
    · rfl
  eq_or_eq hright := (sumRight?_eq_some hright).imp And.right And.right

theorem chainStep_goesOn (serves : Serves rules bound)
    (entry : Entry rules.limit (bound + 1) base s) {right? : Token.Kind → Option (Parse Forest)}
    (signs : SignsOf rules right?) (nodes : Forest) :
    Ensures s (chainStep rules right? nodes) (GoesOn s) := by
  unfold chainStep
  refine Ensures.peek ?_
  split
  · exact GoesOn.of_done
  · next p hright =>
    refine Ensures.get ?_
    split
    · exact GoesOn.of_done
    · refine Ensures.offset (Ensures.modify ?_)
      have hdeeper : Entry rules.limit (bound + 1) base (s.atDepth (s.depth + 1)) :=
        entry.atDepth (Nat.le_trans (reach_mono (by omega)) entry.reach_le)
      refine (bump_spec .outside hdeeper.wellFormed rfl (signs.isSolid hright) none).bind ?_
      intro sign t bumped
      have ht := hdeeper.after (bumped.outcome Nat.one_pos).toRan
      -- The height is of no interest, and need only be large enough.
      have hright : Ensures t (branch (some .right) .expression p)
          (Outcome .outside (base + 7 + 2 * rules.limit + 1) t) := by
        refine branch_spec (base + 7 + 2 * rules.limit) ht rfl (by omega) ?_
        intro before u trimmed hu
        rcases signs.eq_or_eq hright with rfl | rfl
        · exact Ensures.toOutcome (term_spec rfl serves hu (Nat.sub_le _ _) (Nat.le_refl _))
        · exact Ensures.toOutcome (factor_spec rfl serves hu (Nat.sub_le _ _) (by omega))
      refine hright.bind ?_
      intro right u houtcome
      have hsign := bumped.outcome (Nat.succ_pos (base + 7 + 2 * rules.limit))
      have hderives := (Derives.within s.stream.mode s.stream.nesting s.stream.lineBound
        (s.depth + 1)).append (hsign.append houtcome).derives
      exact fun _ => ⟨⟨_, _, _, hderives⟩, Nat.lt_of_le_of_lt houtcome.work_le bumped.work_lt,
        (hsign.append houtcome).keeps.mode⟩

end Chains

/-! ## All loops -/

/-- Where a loop runs: inside a literal, or outside of their contents. -/
def Surrounds : Option Literal → State → Prop
  | some l, s => s.stream.mode = l.mode
  | none, s => s.stream.mode.fault? = none

theorem Surrounds.of_mode {l? : Option Literal} {s t : State} (h : Surrounds l? s)
    (hmode : t.stream.mode = s.stream.mode) : Surrounds l? t := by
  cases l? with
  | some l => exact hmode.trans h
  | none => exact (congrArg Mode.fault? hmode).trans h

/-- The loops of the grammar, each with where it runs and what it repeats. The loop over the items of a
file is not among them. -/
inductive Loop (rules : Rules) : Option Literal → {σ : Type} → (σ → Parse (Forest × Option σ)) → Prop
  | attributes : Loop rules none (attributesStep rules)
  | attributeGroup : Loop rules none (attributeEntryStep rules)
  | attributeEntry : Loop rules none (attributeArgumentStep rules)
  | recoverLine : Loop rules none (recoverStep rules)
  | tooDeep : Loop rules none (tooDeepStep rules)
  | array : Loop rules none (arrayStep rules)
  | shebang : Loop rules none shebangStep
  | namePath : Loop rules none pathStep
  | parameters : Loop rules none (parameterStep rules)
  | dependencies : Loop rules none (dependencyStep rules)
  | dependencyExpression : Loop rules none (dependencyArgumentStep rules)
  | recipeBody : Loop rules none (recipeBodyStep rules)
  | recipeLine : Loop rules none (recipeLineStep rules)
  | sum : Loop rules none (chainStep rules (sumRight? rules))
  | term : Loop rules none (chainStep rules (termRight? rules))
  | arguments : Loop rules none (argumentStep rules)
  | ifExpression : Loop rules none (elseStep rules)
  | string (dialect : Dialect) : Loop rules (some (.string dialect)) (stringStep rules)
  | command (indented : Bool) : Loop rules (some (.command indented)) (commandStep rules)

section Loops

variable {rules : Rules} {bound base : Nat} {s : State} {l? : Option Literal} {σ : Type}
  {step : σ → Parse (Forest × Option σ)}

/-- Each step that is repeated does some work before it. -/
theorem Loop.goesOn (loop : Loop rules l? step) (serves : Serves rules bound)
    (affords : Affords rules.limit bound base s) (hplace : Surrounds l? s) (memory : σ) :
    Ensures s (step memory) (GoesOn s) := by
  have hlower : l? = none → Entry rules.limit bound base s := by
    rintro rfl
    exact ⟨affords, hplace⟩
  have entry : l? = none → Entry rules.limit (bound + 1) base s := fun h => (hlower h).weaken
  -- Loops outside of literals have a specification already, which says more than is needed here.
  have hle : base ≤ base + 1 := Nat.le_succ base
  cases loop with
  | attributes =>
    exact (attributesStep_spec .outside serves (entry rfl) (Nat.le_refl _) memory).mono
      fun _ _ => GoesOn.of_attributed
  | attributeGroup =>
    exact (attributeEntryStep_spec .outside serves (entry rfl) (Nat.le_refl _)).mono
      fun _ _ => GoesOn.of_iterates
  | attributeEntry =>
    exact (attributeArgumentStep_spec .outside serves (entry rfl) (Nat.le_refl _)).mono
      fun _ _ => GoesOn.of_iterates
  | recoverLine =>
    exact (recoverStep_spec base serves (entry rfl) hle).mono fun _ _ h => GoesOn.of_iterates h.1
  | tooDeep =>
    exact (tooDeepStep_spec base serves (entry rfl) hle memory).mono fun _ _ h => GoesOn.of_iterates h.1
  | array =>
    exact (arrayStep_spec .outside serves (entry rfl) (Nat.le_refl _)).mono
      fun _ _ => GoesOn.of_iterates
  | shebang =>
    exact (shebangStep_spec .outside (entry rfl) Nat.one_pos).mono fun _ _ => GoesOn.of_iterates
  | namePath =>
    exact (pathStep_spec .outside (entry rfl) Nat.one_pos).mono fun _ _ => GoesOn.of_iterates
  | parameters =>
    exact (parameterStep_spec .outside serves (entry rfl) (Nat.le_refl _) memory).mono
      fun _ _ => GoesOn.of_iterates
  | dependencies =>
    exact (dependencyStep_spec .outside serves (entry rfl) (Nat.le_refl _)).mono
      fun _ _ => GoesOn.of_iterates
  | dependencyExpression =>
    exact (dependencyArgumentStep_spec .outside serves (hlower rfl) (Nat.le_refl _)).mono
      fun _ _ => GoesOn.of_iterates
  | recipeBody =>
    exact (recipeBodyStep_spec .outside serves (entry rfl) (Nat.le_refl _)).mono
      fun _ _ => GoesOn.of_iterates
  | recipeLine =>
    exact (recipeLineStep_spec .outside (base + 1) serves (entry rfl) (Nat.lt_succ_self base)).mono
      fun _ _ h => GoesOn.of_iterates h.1
  | sum => exact chainStep_goesOn serves (entry rfl) (signsOf_sumRight? rules) memory
  | term => exact chainStep_goesOn serves (entry rfl) (signsOf_termRight? rules) memory
  | arguments =>
    exact (argumentStep_spec .outside serves (entry rfl) (Nat.le_refl _)).mono
      fun _ _ => GoesOn.of_iterates
  | ifExpression =>
    exact (elseStep_spec .outside serves (hlower rfl) (Nat.le_refl _)).mono
      fun _ _ => GoesOn.of_iterates
  | string => exact stringStep_goesOn serves affords.weaken
  | command => exact commandStep_goesOn serves affords.weaken

end Loops

end Grammar

end Justfile
