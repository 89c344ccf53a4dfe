import Justfile.Parser.File
import Justfile.Proofs.Assembler
import Justfile.Proofs.Simulation.Action

/-!
# Building what a production returns

An action of the parser and a production of the grammar read alike; the action leaves in the builder
what the production returns. `Makes` says so of one of each: wherever the builder stands, the nodes are
added to its innermost node, the same nodes are open as before, and no field waits. Between the two ends
of a node the calls on the builder lie apart, and `Builds` follows them: the children that the open node
has so far stand beside what the production has returned so far.

Trivia in front of a token goes from the stream to the builder with it, so that none waits between two
actions, and the builder ends where the stream stands (`Parser.holding`). Only where a budget runs out
may a field be left waiting, for an expression that is not read any more.
-/

set_option autoImplicit false

namespace Justfile

namespace Scanner

/-- A token ends where the scanner stands behind it. -/
theorem Takes.stop_eq {s : Scanner} {step : Token × Scanner} (h : s.Takes step) :
    step.1.span.stop = step.2.offset := by
  rw [h.span_eq, h.offset_eq]

end Scanner

/-! ## The builder -/

namespace Assembler

/-- The builder with nodes added to its innermost node, no trivia and the field waiting, and the last leaf
ending at the offset. -/
def grown (b : Assembler) (nodes : Forest) (field : Option Field) (offset : Nat) : Assembler :=
  { b with
    current := { b.current with children := b.current.children ++ nodes }
    waiting := []
    field := field
    offset := offset }

/-- The builder with nodes added to its innermost node and a node opened behind them. -/
def opened (b : Assembler) (nodes : Forest) (field : Option Field) (kind : Node.Kind) : Assembler :=
  { b with
    current := ⟨field, kind, []⟩
    outer := { b.current with children := b.current.children ++ nodes } :: b.outer }

section Grown

variable (b : Assembler) (nodes : Forest) (field : Option Field) (offset : Nat)

theorem grown_grown (front : Forest) (earlier : Option Field) (start : Nat) :
    (b.grown front earlier start).grown nodes field offset = b.grown (front ++ nodes) field offset := by
  simp only [grown, List.append_assoc]

theorem flush_trivia_grown (tokens : List (Token.Kind × Span)) :
    ((b.grown nodes field offset).trivia tokens).flush =
      b.grown (nodes ++ tokens.map triviaLeaf) field (lastStop offset tokens) := by
  simp only [flush_eq, trivia, grown, List.nil_append, List.append_assoc]

theorem token_trivia_grown (tokens : List (Token.Kind × Span)) (kind : Node.Kind) (span : Span) :
    ((b.grown nodes field offset).trivia tokens).token kind span =
      b.grown (nodes ++ (tokens.map triviaLeaf ++ [.leaf field kind span])) none span.stop := by
  unfold token
  rw [flush_trivia_grown]
  simp only [grown, push, List.append_assoc]

theorem empty_grown (kind : Node.Kind) :
    (b.grown nodes field offset).empty kind =
      (.empty offset, b.grown (nodes ++ [.leaf field kind (.empty offset)]) none offset) := by
  simp only [empty, token, flush_eq, grown, push, lastStop, List.map_nil, List.append_nil,
    List.foldl_nil, List.append_assoc]
  rfl

theorem start_trivia_grown (tokens : List (Token.Kind × Span)) (kind : Node.Kind) :
    ((b.grown nodes field offset).trivia tokens).start kind =
      (b.opened (nodes ++ tokens.map triviaLeaf) field kind).grown [] none
        (lastStop offset tokens) := by
  unfold start
  rw [flush_trivia_grown]
  rfl

theorem checkpoint_trivia_grown (tokens : List (Token.Kind × Span)) :
    ((b.grown nodes field offset).trivia tokens).checkpoint =
      ((b.current.children ++ (nodes ++ tokens.map triviaLeaf)).length,
        b.grown (nodes ++ tokens.map triviaLeaf) field (lastStop offset tokens)) := by
  unfold checkpoint
  rw [flush_trivia_grown]
  rfl

/-- A node opened at a checkpoint takes over what was added behind it. -/
theorem startAt_grown (kind : Node.Kind) (part : Option Field) :
    (b.grown nodes field offset).startAt b.current.children.length kind part =
      (b.opened [] part kind).grown nodes field offset := by
  simp only [startAt, flush_eq, grown, opened, lastStop, List.map_nil, List.append_nil,
    List.foldl_nil, List.drop_left, List.take_left, List.nil_append]

/-- Closing a node makes it a child of the node around it. -/
theorem finish_opened (front : Forest) (part : Option Field) (kind : Node.Kind) :
    ((b.opened front part kind).grown nodes field offset).finish =
      ((Node.branch part kind nodes offset).span,
        b.grown (front ++ [.branch part kind nodes offset]) field offset) := by
  simp only [finish, grown, opened, push, List.nil_append, List.append_assoc]

end Grown

end Assembler

namespace Parser

open Grammar (Parse State)

/-- The parser in a state of reading, with nodes added to the innermost node of a builder and a field
waiting. -/
def holding (b : Assembler) (nodes : Forest) (field : Option Field) (s : State) : Parser :=
  ⟨s, b.grown nodes field s.stream.offset⟩

/-! ## Judgements -/

variable {α β γ : Type}

/-- An action and a production do the same from a state on. The builder holds the nodes when the action
begins; when the production has returned, it holds those that `nodes` gives, and `out` is left to do. -/
def Builds (b : Assembler) (front : Forest) (field : Option Field) (s : State) (a : Action α)
    (p : Parse β) (nodes : β → Forest) (out : β → Action α) : Prop :=
  s.scanner.WellFormed → (p s).2.scanner.WellFormed ∧
    ((p s).2.exhausted = false → s.exhausted = false ∧
      a (holding b front field s) = out (p s).1 (holding b (nodes (p s).1) none (p s).2))

/-- An action adds to the innermost node what a production returns, and leaves no field waiting; the nodes
that are open are the same. -/
def Makes (field : Option Field) (s : State) (a : Action α) (p : Parse Forest) : Prop :=
  s.scanner.WellFormed → (p s).2.scanner.WellFormed ∧
    ((p s).2.exhausted = false → s.exhausted = false ∧ ∀ b front,
      (a (holding b front field s)).2 = holding b (front ++ (p s).1) none (p s).2)

variable {b : Assembler} {front : Forest} {field : Option Field} {s : State}
  {nodes : β → Forest} {out : β → Action α}

theorem holding_grown (earlier : Option Field) (start : Nat) (more : Forest) :
    holding (b.grown front earlier start) more field s = holding b (front ++ more) field s := by
  unfold holding
  rw [Assembler.grown_grown]

/-- Nodes that stay in front can be counted to the builder. -/
theorem Builds.rebase {a : Action α} {p : Parse β} {more : Forest}
    (h : ∀ b', b'.current.children.length = (b.current.children ++ front).length →
      Builds b' more field s a p nodes out) :
    Builds b (front ++ more) field s a p (fun x => front ++ nodes x) out := by
  have hgrown := h (b.grown front none 0) rfl
  unfold Builds at hgrown ⊢
  simpa only [holding_grown] using hgrown

theorem Builds.behind {a : Action α} {p : Parse β}
    (h : ∀ b', b'.current.children.length = (b.current.children ++ front).length →
      Builds b' [] field s a p nodes out) :
    Builds b front field s a p (fun x => front ++ nodes x) out := by
  have hrebased := Builds.rebase h
  rwa [List.append_nil] at hrebased

theorem Makes.of_result {a : Action α} {p : Parse Forest} {result : Forest → α}
    (h : ∀ b, Builds b [] field s a p id fun x => pure (result x)) : Makes field s a p := by
  have hall : ∀ b front, Builds b front field s a p (front ++ ·) fun x => pure (result x) :=
    fun b front => .behind fun b' _ => h b'
  intro wf
  -- Where the production ends depends on no builder, so any one will tell.
  refine ⟨(hall (.ofRoot .sourceFile) [] wf).1, fun hlive => ?_⟩
  refine ⟨((hall (.ofRoot .sourceFile) [] wf).2 hlive).1, fun b front => ?_⟩
  rw [((hall b front wf).2 hlive).2]
  rfl

theorem Makes.of_builds {a : Action Unit} {p : Parse Forest}
    (h : ∀ b, Builds b [] field s a p id fun _ => pure ()) : Makes field s a p :=
  .of_result h

/-- Only what the production does from the state on matters. -/
theorem Makes.congr {a : Action α} {p p' : Parse Forest} (h : Makes field s a p') (heq : p s = p' s) :
    Makes field s a p := by
  unfold Makes at h ⊢
  rwa [heq]

theorem Makes.builds {a : Action Unit} {p : Parse Forest} (h : Makes field s a p) (b : Assembler)
    (front : Forest) : Builds b front field s a p (front ++ ·) fun _ => pure () := by
  intro wf
  obtain ⟨hwf, hrun⟩ := h wf
  refine ⟨hwf, fun hlive => ?_⟩
  obtain ⟨hstart, heq⟩ := hrun hlive
  exact ⟨hstart, Prod.ext rfl (heq b front)⟩

theorem Builds.returned {a : Action α} {x : β} (ha : out x = a) (hnodes : nodes x = front) :
    Builds b front none s a (pure x) nodes out := by
  intro wf
  refine ⟨wf, fun hlive => ⟨hlive, ?_⟩⟩
  subst ha hnodes
  rfl

/-- Two actions and two productions one behind the other. What the first action returns goes with what its
production returns. -/
theorem Builds.seq {κ : Type} {a : Action γ} {g : γ → Action α} {p : Parse κ} {made : κ → Forest}
    {result : κ → γ} {f : κ → Parse β}
    (h : Builds b front field s a p made fun x => pure (result x))
    (hrest : Builds b (made (p s).1) none (p s).2 (g (result (p s).1)) (f (p s).1) nodes out) :
    Builds b front field s (a >>= g) (p >>= f) nodes out := by
  intro wf
  obtain ⟨hwf, hfirst⟩ := h wf
  obtain ⟨hwf', hsecond⟩ := hrest hwf
  refine ⟨hwf', fun hlive => ?_⟩
  -- A budget that lasts to the end has lasted up to the middle.
  obtain ⟨hmiddle, heq'⟩ := hsecond hlive
  obtain ⟨hstart, heq⟩ := hfirst hmiddle
  refine ⟨hstart, ?_⟩
  change g (a (holding b front field s)).1 (a (holding b front field s)).2 = _
  rw [heq]
  exact heq'

/-- What has been built stands beside what was returned; the rest is built from there. -/
theorem Builds.bind_run {a : Action γ} {g : Action α} {p : Parse Forest} {f : Forest → Parse β}
    (h : Makes field s a p)
    (hrest : Builds b (front ++ (p s).1) none (p s).2 g (f (p s).1) nodes out) :
    Builds b front field s (a >>= fun _ => g) (p >>= f) nodes out := by
  have hfirst : Builds b front field s (a >>= fun _ => pure ()) p (front ++ ·) fun _ => pure () :=
    Makes.builds (a := a >>= fun _ => pure ()) h b front
  have hboth := Builds.seq (g := fun _ => g) hfirst hrest
  simpa only [bind_assoc, pure_bind] using hboth

theorem Builds.bind {a : Action γ} {g : Action α} {p : Parse Forest} {f : Forest → Parse β}
    (h : Makes field s a p)
    (hrest : ∀ made t, Builds b (front ++ made) none t g (f made) nodes out) :
    Builds b front field s (a >>= fun _ => g) (p >>= f) nodes out :=
  .bind_run h (hrest _ _)

/-- The last production returns what is built, and the rest of the action is left to do. -/
theorem Builds.last {a : Action γ} {g : Action α} {p : Parse Forest} (h : Makes field s a p) :
    Builds b front field s (a >>= fun _ => g) p (front ++ ·) fun _ => g :=
  .bind_run (f := pure) h (.returned rfl rfl)

/-- The action ends with what is built, and the production returns it with more. -/
theorem Builds.bind_last {a : Action Unit} {p : Parse Forest} {f : Forest → Parse β}
    {out : β → Action Unit} (h : Makes field s a p)
    (hrest : ∀ made t, Builds b (front ++ made) none t (pure ()) (f made) nodes out) :
    Builds b front field s a (p >>= f) nodes out :=
  .bind (g := pure ()) h hrest

/-- What the action returns may be said in terms of what the production returned. -/
theorem Builds.with_result {a : Action γ} {p : Parse β} {r : γ} {result : β → γ}
    (h : Builds b front field s a p nodes fun _ => pure r) (hresult : r = result (p s).1) :
    Builds b front field s a p nodes fun x => pure (result x) := by
  subst hresult
  exact h

/-- What is returned is put together with what was returned before. -/
theorem Builds.map {κ : Type} {a : Action α} {p : Parse κ} {f : κ → β}
    (h : Builds b front field s a p (fun x => nodes (f x)) fun x => out (f x)) :
    Builds b front field s a (p >>= fun x => pure (f x)) nodes out := h

/-- The field waits for what comes next. -/
theorem Builds.setField {part : Field} {g : Action α} {p : Parse β}
    (h : Builds b front (some part) s g p nodes out) :
    Builds b front field s (Parser.setField part >>= fun _ => g) p nodes out := h

theorem Builds.offset {a : Action α} {f : Nat → Parse β}
    (h : Builds b front field s a (f s.stream.offset) nodes out) :
    Builds b front field s a (Grammar.offset >>= f) nodes out := h

theorem Builds.getBoth {g : Parser → Action α} {f : State → Parse β}
    (h : Builds b front field s (g (holding b front field s)) (f s) nodes out) :
    Builds b front field s (get >>= g) (get >>= f) nodes out := h

/-- What is looked up in the state on the side of the action alone. -/
theorem Builds.getParser {g : Parser → Action α} {p : Parse β}
    (h : Builds b front field s (g (holding b front field s)) p nodes out) :
    Builds b front field s (get >>= g) p nodes out := h

/-- What is looked up in the state on the side of the production alone. -/
theorem Builds.getState {a : Action α} {f : State → Parse β}
    (h : Builds b front field s a (f s) nodes out) :
    Builds b front field s a (get >>= f) nodes out := h

theorem Builds.congr {a : Action α} {p p' : Parse β} (h : Builds b front field s a p' nodes out)
    (heq : p s = p' s) : Builds b front field s a p nodes out := by
  unfold Builds at h ⊢
  rwa [heq]

theorem Builds.of_wellFormed {a : Action α} {p : Parse β}
    (h : s.scanner.WellFormed → Builds b front field s a p nodes out) :
    Builds b front field s a p nodes out := fun wf => h wf wf

theorem Builds.ite {c : Prop} [Decidable c] {a a' : Action α} {p p' : Parse β}
    (hthen : c → Builds b front field s a p nodes out)
    (helse : ¬c → Builds b front field s a' p' nodes out) :
    Builds b front field s (if c then a else a') (if c then p else p') nodes out := by
  split
  · next h => exact hthen h
  · next h => exact helse h

/-- The production goes on in the same way behind both branches, and the action has one action for
both. -/
theorem Builds.join {κ : Type} {look : Parse κ} {c : κ → Prop} [DecidablePred c] {a : Action γ}
    {g : Action α} {p p' : Parse Forest} {f : Forest → Parse β}
    (h : Makes field s a (look >>= fun answer => if c answer then p else p'))
    (hrest : ∀ made t, Builds b (front ++ made) none t g (f made) nodes out) :
    Builds b front field s (a >>= fun _ => g)
      (look >>= fun answer => if c answer then p >>= f else p' >>= f) nodes out := by
  refine .congr (.bind h hrest) ?_
  rw [bind_assoc]
  refine congrArg (fun g => (look >>= g) s) (funext fun answer => ?_)
  split <;> rfl

/-! ## Looking -/

section Look

theorem Builds.peek {g : Token.Kind → Action α} {f : Token.Kind → Parse β}
    (h : Builds b front field s (g s.front) (f s.front) nodes out) :
    Builds b front field s (liftM Grammar.peek >>= g) (Grammar.peek >>= f) nodes out := h

theorem Builds.peekAt {n : Nat} {g : Token.Kind → Action α} {f : Token.Kind → Parse β}
    (h : Builds b front field s (g (s.stream.nth n).kind) (f (s.stream.nth n).kind) nodes out) :
    Builds b front field s (liftM (Grammar.peekAt n) >>= g) (Grammar.peekAt n >>= f) nodes out := h

theorem Builds.peekToken {n : Nat} {g : Token → Action α} {f : Token → Parse β}
    (h : Builds b front field s (g (s.stream.nth n)) (f (s.stream.nth n)) nodes out) :
    Builds b front field s (liftM (Grammar.peekToken n) >>= g) (Grammar.peekToken n >>= f) nodes out :=
  h

/-- A look changes nothing, so that both see the same. -/
theorem Builds.look {κ : Type} {look : Parse κ} {g : κ → Action α} {f : κ → Parse β}
    (hlook : (look s).2 = s)
    (h : Builds b front field s (g (look s).1) (f (look s).1) nodes out) :
    Builds b front field s (liftM look >>= g) (look >>= f) nodes out := by
  have hgrammar : (look >>= f) s = f (look s).1 (look s).2 := rfl
  have haction : (liftM look >>= g) (holding b front field s) =
      g (look s).1 { holding b front field s with toState := (look s).2 } := rfl
  rw [hlook] at hgrammar haction
  unfold Builds
  rw [hgrammar, haction]
  exact h

variable {a a' : Action α} {p p' : Parse β}

theorem Builds.ifLook {look : Parse Bool} (hlook : (look s).2 = s)
    (h : (look s).1 = true → Builds b front field s a p nodes out)
    (h' : (look s).1 = false → Builds b front field s a' p' nodes out) :
    Builds b front field s (liftM look >>= fun answer => if answer = true then a else a')
      (look >>= fun answer => if answer = true then p else p') nodes out :=
  .look hlook (.ite h fun hne => h' (Bool.eq_false_iff.2 hne))

theorem Builds.ifAt {kind : Token.Kind}
    (hat : s.front = kind → Builds b front field s a p nodes out)
    (hnot : s.front ≠ kind → Builds b front field s a' p' nodes out) :
    Builds b front field s
      (liftM (Grammar.isAt kind) >>= fun answer => if answer = true then a else a')
      (Grammar.isAt kind >>= fun answer => if answer = true then p else p') nodes out :=
  .ifLook rfl (fun h => hat (beq_iff_eq.1 h)) fun h => hnot (beq_eq_false_iff_ne.1 h)

theorem Builds.ifMark {sign : Mark}
    (hat : s.front = .mark sign → Builds b front field s a p nodes out)
    (hnot : s.front ≠ .mark sign → Builds b front field s a' p' nodes out) :
    Builds b front field s
      (liftM (Grammar.isAtMark sign) >>= fun answer => if answer = true then a else a')
      (Grammar.isAtMark sign >>= fun answer => if answer = true then p else p') nodes out :=
  .ifAt hat hnot

/-- The action goes on in the same way behind both branches. -/
theorem Builds.ifMarkThen {a a' : Action γ} {sign : Mark} {rest : Action α}
    (hat : s.front = .mark sign → Builds b front field s (a >>= fun _ => rest) p nodes out)
    (hnot : s.front ≠ .mark sign → Builds b front field s (a' >>= fun _ => rest) p' nodes out) :
    Builds b front field s
      ((liftM (Grammar.isAtMark sign) >>= fun answer => if answer = true then a else a') >>=
        fun _ => rest)
      (Grammar.isAtMark sign >>= fun answer => if answer = true then p else p') nodes out := by
  rw [bind_assoc]
  have hbranches : (fun answer : Bool => (if answer = true then a else a') >>= fun _ => rest) =
      fun answer => if answer = true then a >>= fun _ => rest else a' >>= fun _ => rest := by
    funext answer
    split <;> rfl
  rw [hbranches]
  exact .ifMark hat hnot

end Look

/-! ## Tokens -/

theorem pushToken_eq (trivia : List Token) (token : Token) (q : Parser) :
    pushToken trivia token q =
      ((), ⟨{ q.toState with consumed := trivia.reverse ++ q.consumed }.take token q.stream.scanner,
        (q.builder.trivia (trivia.map fun piece => (piece.kind, piece.span))).token
          (.ofToken token.kind) token.span⟩) := by
  unfold pushToken State.take
  cases token.kind <;> rfl

theorem map_triviaLeaf (tokens : List Token) :
    (tokens.map fun token => (token.kind, token.span)).map Assembler.triviaLeaf =
      tokens.map (.ofToken none) := by
  rw [List.map_map]
  rfl

/-- A token is pushed with the trivia in front of it, and takes the field. -/
theorem pushToken_holding (b : Assembler) (front : Forest) (field : Option Field) (s : State)
    (trivia : List Token) (token : Token) (stream : Stream) (h : token.span.stop = stream.offset) :
    pushToken trivia token { holding b front field s with stream := stream } =
      ((), holding b (front ++ (trivia.map (.ofToken none) ++ [.ofToken field token])) none
        ({ s with stream := stream, consumed := trivia.reverse ++ s.consumed }.take token
          stream.scanner)) := by
  rw [pushToken_eq]
  unfold holding
  dsimp only
  rw [Assembler.token_trivia_grown, map_triviaLeaf, h]
  rfl

/-- At the end of the input a field goes on waiting. -/
theorem bumpAs_end (hend : s.front = .endOfInput) (kind : Option Token.Kind) (b : Assembler)
    (front : Forest) (field : Option Field) :
    bumpAs kind (holding b front field s) = ((), holding b front field s) := by
  change (if (s.front == .endOfInput) = true then (pure () : Action Unit) else _) _ = _
  rw [if_pos (beq_iff_eq.2 hend)]
  rfl

theorem bumpAs_eq (hne : s.front ≠ .endOfInput) (kind : Option Token.Kind) (q : Parser)
    (hq : q.toState = s) :
    bumpAs kind q =
      pushToken s.stream.takeTrivia.1 { s.flushed.step.1 with kind := kind.getD s.flushed.step.1.kind }
        { q with stream := { s.stream with scanner := s.flushed.step.2 } } := by
  subst hq
  change (if (q.toState.front == .endOfInput) = true then (pure () : Action Unit) else _) _ = _
  rw [if_neg (by rwa [beq_iff_eq])]
  have hbump := Stream.bump_eq q.stream (hne : q.toState.flushed.step.1.kind ≠ .endOfInput)
  simp only [bind, StateT.bind, get, getThe, MonadStateOf.get, StateT.get, modify, modifyGet,
    MonadStateOf.modifyGet, StateT.modifyGet, pure, hbump]
  rfl

theorem makes_bumpAs (kind : Option Token.Kind) (h : s.front = .endOfInput → field = none) :
    Makes field s (bumpAs kind) (Grammar.bumpAs field kind) := by
  intro wf
  by_cases hend : s.front = .endOfInput
  · -- Nothing is consumed, and a field would go on waiting.
    obtain rfl := h hend
    rw [Grammar.bumpAs_end hend]
    refine ⟨wf, fun hlive => ⟨hlive, fun b front => ?_⟩⟩
    rw [bumpAs_end hend, List.append_nil]
  · have onward := Grammar.onward_bumpAs wf hend field kind
    refine ⟨onward.wellFormed wf, fun hlive => ⟨onward.exhausted ▸ hlive, fun b front => ?_⟩⟩
    rw [bumpAs_eq hend kind _ rfl, Grammar.bumpAs_eq field kind s hend, pushToken_holding]
    · rfl
    · exact (Scanner.takes_next _ _).stop_eq

/-- A token that is consumed takes the field, if there is one to consume. -/
theorem makes_bump (h : s.front = .endOfInput → field = none) :
    Makes field s bump (Grammar.bump field) :=
  makes_bumpAs none h

/-- Where there is a token, it takes the field. -/
theorem makes_bumpField {part : Field} (hne : s.front ≠ .endOfInput) :
    Makes field s (bumpField part) (Grammar.bump (some part)) :=
  .of_builds fun b => .setField ((makes_bump fun hend => absurd hend hne).builds b [])

theorem makes_bumpKeyword (word : Keyword) :
    Makes none s (bumpKeyword word) (Grammar.bumpKeyword word) :=
  makes_bumpAs _ fun _ => rfl

theorem makes_bumpIf (kind : Token.Kind) : Makes none s (bumpIf kind) (Grammar.bumpIf kind) := by
  refine .of_builds fun b => ?_
  refine Builds.ifAt (fun _ => ?_) fun _ => .returned rfl rfl
  exact (makes_bump fun _ => rfl).builds b []

theorem missing_holding (expected : Expected) (b : Assembler) (front : Forest) (field : Option Field)
    (s : State) :
    missing expected (holding b front field s) =
      ((), holding b (front ++ [.leaf field .missing (.empty s.stream.offset)]) none
        (s.withReport (.missing expected) (.empty s.stream.offset))) := by
  have hempty := Assembler.empty_grown b front field s.stream.offset .missing
  unfold missing holding
  simp only [bind, StateT.bind, get, getThe, MonadStateOf.get, StateT.get, modify, modifyGet,
    MonadStateOf.modifyGet, StateT.modifyGet, pure, hempty]
  rfl

/-- A mark that something is missing takes the field. -/
theorem makes_missing (expected : Expected) :
    Makes field s (missing expected) (Grammar.missing field expected) := fun wf =>
  ⟨wf, fun hlive => ⟨hlive, fun b front => by rw [missing_holding]; rfl⟩⟩

/-- The action says whether it consumed the mark. -/
theorem builds_expectMark (b : Assembler) (sign : Mark) :
    Builds b [] none s (expectMark sign) (Grammar.expectMark sign) id
      fun _ => pure (s.front == .mark sign) := by
  refine .ifMark (fun hfront => ?_) fun hfront => ?_
  · rw [beq_iff_eq.2 hfront]
    exact .last (makes_bump fun _ => rfl)
  · rw [beq_eq_false_iff_ne.2 hfront]
    exact .last (makes_missing _)

theorem makes_expectMark (sign : Mark) :
    Makes none s (expectMark sign) (Grammar.expectMark sign) :=
  .of_result fun b => builds_expectMark b sign

theorem makes_expectIdentifier (part : Field) (expected : Expected) :
    Makes none s (expectIdentifier part expected) (Grammar.expectIdentifier part expected) := by
  refine .of_builds fun b => .setField (.ifAt (fun hfront => ?_) fun _ => ?_)
  · exact (makes_bump fun hend => absurd (hfront.symm.trans hend) nofun).builds b []
  · exact (makes_missing expected).builds b []

/-! ## Context -/

/-- A step that only changes how tokens are read, or how deep, leaves the builder as it is. -/
theorem Builds.step {change : Parse Unit} {g : Action α} {f : Unit → Parse β}
    (hscanner : (change s).2.scanner = s.scanner)
    (hexhausted : (change s).2.exhausted = s.exhausted)
    (h : Builds b front field (change s).2 g (f ()) nodes out) :
    Builds b front field s (liftM change >>= fun _ => g) (change >>= f) nodes out := by
  intro wf
  obtain ⟨hwf, hrun⟩ := h (hscanner ▸ wf)
  refine ⟨hwf, fun hlive => ?_⟩
  obtain ⟨hstart, heq⟩ := hrun hlive
  -- The builder ends where the stream stands, and the stream has not moved.
  have hsame : holding b front field (change s).2 =
      { holding b front field s with toState := (change s).2 } := by
    have hoffset : (change s).2.stream.offset = s.stream.offset := congrArg Scanner.offset hscanner
    unfold holding
    rw [hoffset]
  rw [hsame] at heq
  exact ⟨hexhausted ▸ hstart, heq⟩

/-- A step with which the action ends. -/
theorem Builds.lastStep {change : Parse Unit} {f : Unit → Parse β} {out : β → Action Unit}
    (hscanner : (change s).2.scanner = s.scanner)
    (hexhausted : (change s).2.exhausted = s.exhausted)
    (h : Builds b front field (change s).2 (pure ()) (f ()) nodes out) :
    Builds b front field s (liftM change) (change >>= f) nodes out :=
  Builds.step (g := pure ()) hscanner hexhausted h

theorem makes_openBracket : Makes none s openBracket Grammar.openBracket := by
  refine .of_builds fun b => ?_
  refine .bind (makes_bump fun _ => rfl) fun made t => ?_
  exact .lastStep rfl rfl (.returned rfl rfl)

theorem makes_closeBracket (sign : Mark) :
    Makes none s (closeBracket sign) (Grammar.closeBracket sign) := by
  refine .of_builds fun b => ?_
  refine .bind (makes_expectMark sign) fun made t => ?_
  exact .lastStep rfl rfl (.returned rfl rfl)

/-! ## Nodes -/

/-- Closes the innermost node, when all its children are there. -/
def closeNode : Action Unit := do
  let _ ← finishNode

/-- Closes an error node and reports it with its span. -/
def closeError (cause : Cause) : Action Unit := do
  let span ← finishNode
  Grammar.report cause span

theorem lastStop_run {mode : Mode} {scanner last : Scanner} {tokens : List Token}
    (run : Scanner.Run mode scanner tokens last) :
    Assembler.lastStop scanner.offset (tokens.map fun token => (token.kind, token.span)) =
      last.offset := by
  induction run with
  | nil => rfl
  | @cons scanner last tokens _ ih =>
    rw [← (Scanner.takes_next scanner mode).stop_eq] at ih
    exact ih

/-- The nodes of the trivia in front of the next significant token. -/
def before (s : State) : Forest := s.stream.takeTrivia.1.map (.ofToken none)

section Open

variable (wf : s.scanner.WellFormed) (b : Assembler) (front : Forest) (field : Option Field)

include wf

theorem lastStop_takeTrivia :
    Assembler.lastStop s.stream.offset (s.stream.takeTrivia.1.map fun token => (token.kind, token.span)) =
      s.flushed.stream.offset :=
  lastStop_run (Stream.takeTrivia_spec wf).1

/-- The node is opened behind the trivia, and plays the part that waited. -/
theorem startNode_holding (kind : Node.Kind) :
    startNode kind (holding b front field s) =
      ((), holding (b.opened (front ++ before s) field kind) [] none s.flushed) := by
  have hstart := Assembler.start_trivia_grown b front field s.stream.offset
    (s.stream.takeTrivia.1.map fun token => (token.kind, token.span)) kind
  rw [map_triviaLeaf, lastStop_takeTrivia wf] at hstart
  exact Prod.ext rfl (congrArg (Parser.mk s.flushed) hstart)

theorem checkpoint_holding :
    checkpoint (holding b front field s) =
      ((b.current.children ++ (front ++ before s)).length,
        holding b (front ++ before s) field s.flushed) := by
  have hcheckpoint := Assembler.checkpoint_trivia_grown b front field s.stream.offset
    (s.stream.takeTrivia.1.map fun token => (token.kind, token.span))
  rw [map_triviaLeaf, lastStop_takeTrivia wf] at hcheckpoint
  have hrun : checkpoint (holding b front field s) =
      ((((b.grown front field s.stream.offset).trivia
        (s.stream.takeTrivia.1.map fun token => (token.kind, token.span))).checkpoint).1,
      ⟨s.flushed, (((b.grown front field s.stream.offset).trivia
        (s.stream.takeTrivia.1.map fun token => (token.kind, token.span))).checkpoint).2⟩) := rfl
  rw [hrun, hcheckpoint]
  rfl

end Open

theorem startNodeAt_holding (b : Assembler) (front : Forest) (field : Option Field) (s : State)
    (kind : Node.Kind) (part : Option Field) :
    startNodeAt b.current.children.length kind part (holding b front field s) =
      ((), holding (b.opened [] part kind) front field s) :=
  Prod.ext rfl (congrArg (Parser.mk s) (Assembler.startAt_grown b front field s.stream.offset kind part))

theorem finishNode_holding (b : Assembler) (front nodes : Forest) (field part : Option Field) (s : State)
    (kind : Node.Kind) :
    finishNode (holding (b.opened front part kind) nodes field s) =
      ((Node.branch part kind nodes s.stream.offset).span,
        holding b (front ++ [.branch part kind nodes s.stream.offset]) field s) := by
  have hfinish := Assembler.finish_opened b nodes field s.stream.offset front part kind
  unfold finishNode holding
  simp only [bind, StateT.bind, get, getThe, MonadStateOf.get, StateT.get, modify, modifyGet,
    MonadStateOf.modifyGet, StateT.modifyGet, pure, hfinish]
  rfl

theorem closeNode_holding (b : Assembler) (front nodes : Forest) (field part : Option Field) (s : State)
    (kind : Node.Kind) :
    closeNode (holding (b.opened front part kind) nodes field s) =
      ((), holding b (front ++ [.branch part kind nodes s.stream.offset]) field s) := by
  have hrun : ∀ q, closeNode q = ((), (finishNode q).2) := fun _ => rfl
  rw [hrun, finishNode_holding]

theorem closeError_holding (cause : Cause) (b : Assembler) (front nodes : Forest)
    (field part : Option Field) (s : State) (kind : Node.Kind) :
    closeError cause (holding (b.opened front part kind) nodes field s) =
      ((), holding b (front ++ [.branch part kind nodes s.stream.offset]) field
        (s.withReport cause (Node.branch part kind nodes s.stream.offset).span)) := by
  have hrun : ∀ q, closeError cause q = ((), { (finishNode q).2 with
      toState := (finishNode q).2.toState.withReport cause (finishNode q).1 }) := fun _ => rfl
  rw [hrun, finishNode_holding]
  rfl

/-- The checkpoint is the number of the children in front of what comes next. -/
theorem Builds.checkpoint {g : Nat → Action α} {f : Forest → Parse β}
    (h : ∀ t, Grammar.Trimmed s (before s) t → Builds b (front ++ before s) field t
      (g (b.current.children ++ (front ++ before s)).length) (f (before s)) nodes out) :
    Builds b front field s (checkpoint >>= g) (Grammar.trivia >>= f) nodes out := by
  intro wf
  have trimmed := Grammar.trimmed_flushed wf
  obtain ⟨hwf, hrun⟩ := h s.flushed trimmed (trimmed.wellFormed wf)
  refine ⟨hwf, fun hlive => ?_⟩
  obtain ⟨hstart, heq⟩ := hrun hlive
  refine ⟨hstart, ?_⟩
  change g (Parser.checkpoint (holding b front field s)).1
    (Parser.checkpoint (holding b front field s)).2 = _
  rw [checkpoint_holding wf]
  exact heq

/-- A node that is closed as soon as it has taken over what is held. -/
theorem Builds.wrap {kind : Node.Kind} {part : Option Field} {count : Nat} {g : Span → Action α}
    {p : Parse β} (hcount : count = b.current.children.length)
    (h : Builds b [.branch part kind front s.stream.offset] none s
      (g (Node.branch part kind front s.stream.offset).span) p nodes out) :
    Builds b front none s (startNodeAt count kind part >>= fun _ => finishNode >>= g) p nodes out := by
  subst hcount
  intro wf
  obtain ⟨hwf, hrun⟩ := h wf
  refine ⟨hwf, fun hlive => ?_⟩
  obtain ⟨hstart, heq⟩ := hrun hlive
  refine ⟨hstart, ?_⟩
  have haction : (startNodeAt b.current.children.length kind part >>= fun _ => finishNode >>= g)
      (holding b front none s) =
      g (finishNode (startNodeAt b.current.children.length kind part (holding b front none s)).2).1
        (finishNode (startNodeAt b.current.children.length kind part (holding b front none s)).2).2 :=
    rfl
  rw [haction, startNodeAt_holding, finishNode_holding]
  exact heq

section Node

variable {kind : Node.Kind} {body : Parse Forest}

/-- What is built in a node that has just been opened. -/
theorem Builds.inNode (kind : Node.Kind) {g : Action α} {out : Forest → Action α}
    (h : ∀ b t, Grammar.Trimmed s (before s) t → Builds b [] none t g body id out)
    (wf : s.scanner.WellFormed) :
    (body s.flushed).2.scanner.WellFormed ∧ ((body s.flushed).2.exhausted = false →
      s.exhausted = false ∧ ∀ b front field,
        (startNode kind >>= fun _ => g) (holding b front field s) =
          out (body s.flushed).1 (holding (b.opened (front ++ before s) field kind)
            (body s.flushed).1 none (body s.flushed).2)) := by
  have trimmed := Grammar.trimmed_flushed wf
  -- The trivia stays in the node around it, and the body starts behind the trivia.
  have hbody := fun b => h b s.flushed trimmed (trimmed.wellFormed wf)
  refine ⟨(hbody (.ofRoot .sourceFile)).1, fun hlive => ?_⟩
  refine ⟨((hbody (.ofRoot .sourceFile)).2 hlive).1, fun b front field => ?_⟩
  obtain ⟨-, heq⟩ := (hbody (b.opened (front ++ before s) field kind)).2 hlive
  change g (startNode kind (holding b front field s)).2 = _
  rw [startNode_holding wf, heq]
  rfl

/-- A node around what is built behind it; the rest is built behind the node. -/
theorem Builds.branch {g rest : Action α} {f : Forest → Parse β}
    (h : ∀ b t, Grammar.Trimmed s (before s) t →
      Builds b [] none t g body id fun _ => finishNode >>= fun _ => rest)
    (hrest : ∀ made t, Builds b (front ++ made) none t rest (f made) nodes out) :
    Builds b front field s (startNode kind >>= fun _ => g) (Grammar.branch field kind body >>= f)
      nodes out := by
  intro wf
  obtain ⟨hwf, hbody⟩ := Builds.inNode kind h wf
  obtain ⟨hwf', hlast⟩ := hrest (Grammar.branch field kind body s).1
    (Grammar.branch field kind body s).2 hwf
  refine ⟨hwf', fun hlive => ?_⟩
  obtain ⟨hmiddle, heq'⟩ := hlast hlive
  obtain ⟨hstart, heq⟩ := hbody hmiddle
  refine ⟨hstart, ?_⟩
  rw [heq]
  change rest (closeNode (holding (b.opened (front ++ before s) field kind) _ none _)).2 = _
  rw [closeNode_holding, List.append_assoc]
  exact heq'

theorem Builds.lastBranch {g rest : Action α}
    (h : ∀ b t, Grammar.Trimmed s (before s) t →
      Builds b [] none t g body id fun _ => finishNode >>= fun _ => rest) :
    Builds b front field s (startNode kind >>= fun _ => g) (Grammar.branch field kind body) (front ++ ·)
      fun _ => rest :=
  .branch (f := pure) h fun _ _ => .returned rfl rfl

theorem makes_branch {g : Action Unit}
    (h : ∀ b t, Grammar.Trimmed s (before s) t → Builds b [] none t g body id fun _ => closeNode) :
    Makes field s (startNode kind >>= fun _ => g) (Grammar.branch field kind body) :=
  .of_builds fun _ => .lastBranch h

/-- An error node is reported with its span when it is closed. -/
theorem makes_errorBranch {g : Action Unit} {cause : Cause}
    (h : ∀ b t, Grammar.Trimmed s (before s) t →
      Builds b [] none t g body id fun _ => closeError cause) :
    Makes field s (startNode .error >>= fun _ => g) (Grammar.errorBranch field cause body) := by
  intro wf
  obtain ⟨hwf, hbody⟩ := Builds.inNode .error h wf
  refine ⟨hwf, fun hlive => ?_⟩
  obtain ⟨hstart, heq⟩ := hbody hlive
  refine ⟨hstart, fun b front => ?_⟩
  rw [heq, closeError_holding, List.append_assoc]
  rfl

/-- A node that takes over the nodes behind the checkpoint in front of them. -/
theorem builds_enclose {b : Assembler} {adopted : Forest} {g : Action Unit}
    (h : ∀ b, Builds b adopted none s g body (adopted ++ ·) fun _ => closeNode) :
    Builds b adopted none s (startNodeAt b.current.children.length kind none >>= fun _ => g)
      (Grammar.enclose kind adopted body) id fun _ => pure () := by
  intro wf
  have hbody := h (b.opened [] none kind) wf
  refine ⟨hbody.1, fun hlive => ?_⟩
  obtain ⟨hstart, heq⟩ := hbody.2 hlive
  refine ⟨hstart, ?_⟩
  change g (startNodeAt b.current.children.length kind none (holding b adopted none s)).2 = _
  rw [startNodeAt_holding, heq]
  dsimp only
  rw [closeNode_holding]
  rfl

end Node

/-! ## Loops -/

/-- A step of a loop builds what the step of the grammar returns, and remembers the same. -/
def Turns {σ : Type} (s : State) (a : Action (Option σ)) (p : Parse (Forest × Option σ)) : Prop :=
  ∀ b, Builds b [] none s a p Prod.fst fun result => pure result.2

theorem Builds.again {made : Forest} :
    Builds b made none s Parser.again (Grammar.again made) Prod.fst fun result => pure result.2 :=
  .returned rfl rfl

theorem Builds.done {σ : Type} {made : Forest} :
    Builds b made none s (Parser.done (σ := σ)) (Grammar.done made) Prod.fst
      fun result => pure result.2 :=
  .returned rfl rfl

/-- What a loop remembers when it ends. -/
def lastMemory {σ : Type} (production : σ → Parse (Forest × Option σ)) : Nat → σ → State → σ
  | 0, memory, _ => memory
  | fuel + 1, memory, s =>
    match (production memory s).1.2 with
    | none => memory
    | some next => lastMemory production fuel next (production memory s).2

theorem builds_loop {σ : Type} {step : σ → Action (Option σ)}
    {production : σ → Parse (Forest × Option σ)}
    (h : ∀ memory t, Turns t (step memory) (production memory)) (fuel : Nat) (memory : σ) (s : State)
    (b : Assembler) :
    Builds b [] none s (loop step fuel memory) (Grammar.loop production fuel memory) id
      fun _ => pure (lastMemory production fuel memory s) := by
  induction fuel generalizing memory s b with
  -- A loop without budget leaves its mark, and nothing is said of it.
  | zero => exact fun wf => ⟨wf, nofun⟩
  | succ fuel ih =>
    rw [loop, Grammar.loop, lastMemory]
    refine .seq (h memory s b) ?_
    generalize production memory s = turn
    obtain ⟨⟨made, next⟩, t⟩ := turn
    cases next with
    | none => exact .returned rfl rfl
    -- What the step has built counts to the builder of the other steps.
    | some next => exact .map (.behind fun b' _ => ih next t b')

theorem makes_loop {σ : Type} {step : σ → Action (Option σ)}
    {production : σ → Parse (Forest × Option σ)}
    (h : ∀ memory t, Turns t (step memory) (production memory)) (fuel : Nat) (memory : σ) (s : State) :
    Makes none s (loop step fuel memory) (Grammar.loop production fuel memory) :=
  .of_result (builds_loop h fuel memory s)

/-! ## Rules -/

/-- The action for nested expressions builds what their production returns, and both work with the same
limit and budget. -/
structure Rules.Ties (rules : Rules) (productions : Grammar.Rules) : Prop where
  limit : rules.limit = productions.limit
  budget : rules.budget = productions.budget
  expression : ∀ field s, Makes field s rules.expression (productions.expression field)

theorem Rules.Ties.loop {rules : Rules} {productions : Grammar.Rules} (ties : rules.Ties productions)
    {σ : Type} {step : σ → Action (Option σ)} {production : σ → Parse (Forest × Option σ)}
    (h : ∀ memory t, Turns t (step memory) (production memory)) {memory : σ} {s : State} :
    Makes none s (loop step rules.budget memory) (Grammar.loop production productions.budget memory) := by
  rw [ties.budget]
  exact makes_loop h _ _ _

end Parser

end Justfile
