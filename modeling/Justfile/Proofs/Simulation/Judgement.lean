import Justfile.Proofs.Reading.Combinator

/-!
# Two runs side by side

Some properties compare two runs of the same productions: on one source with two limits, or on a
source and on a longer one that contains it. Such a comparison is a `Simulation`: a relation between
the states of the two runs, and a map from the offsets of the first run to those of the second.
`Tracks` says of a pair of productions that, from related states on, the second gives what the first
gives, with its offsets moved, and ends in a related state.

The runs need not agree forever. A simulation has guards: what is compared is only claimed of a run
that ends in a state which satisfies a guard, and then the guard holds all the way back. So a fault
that rules out the comparison needs no treatment where it occurs. It is enough that no state after it
satisfies a guard.

`Lawful` lists what a simulation has to know about single tokens, reports and changes of context.
From these laws alone every production is shown to be tracked, one module of the grammar after the
other.
-/

set_option autoImplicit false

namespace Justfile

/-! ## Moving offsets -/

/-- The span with both of its ends moved. -/
def Span.move (place : Nat → Nat) (span : Span) : Span := ⟨place span.start, place span.stop⟩

/-- The report with its span moved. -/
def Grammar.moveReport (place : Nat → Nat) (report : Report) : Report :=
  ⟨report.cause, report.span.move place⟩

namespace Node

mutual
/-- The node with all offsets in it moved. -/
def move (place : Nat → Nat) : Node → Node
  | ⟨field, kind, span, children⟩ => ⟨field, kind, span.move place, moveList place children⟩
/-- Siblings with all offsets in them moved. -/
def moveList (place : Nat → Nat) : Forest → Forest
  | [] => []
  | node :: rest => move place node :: moveList place rest
end

section Move

variable (place : Nat → Nat)

@[simp] theorem moveList_nil : moveList place [] = [] := by
  simp [moveList]

@[simp] theorem moveList_cons (node : Node) (rest : Forest) :
    moveList place (node :: rest) = move place node :: moveList place rest := by
  simp [moveList]

theorem moveList_eq_map (nodes : Forest) : moveList place nodes = nodes.map (move place) := by
  induction nodes with
  | nil => rfl
  | cons node rest ih => rw [moveList_cons, ih, List.map_cons]

@[simp] theorem moveList_append (front back : Forest) :
    moveList place (front ++ back) = moveList place front ++ moveList place back := by
  simp only [moveList_eq_map, List.map_append]

@[simp] theorem move_leaf (field : Option Field) (kind : Kind) (span : Span) :
    move place (leaf field kind span) = leaf field kind (span.move place) := by
  simp [leaf, move]

@[simp] theorem span_move (node : Node) : (move place node).span = node.span.move place := by
  cases node
  simp [move]

theorem spanOf_moveList (children : Forest) (offset : Nat) :
    spanOf (moveList place children) (place offset) = (spanOf children offset).move place := by
  rw [moveList_eq_map]
  unfold spanOf
  cases children with
  | nil => rfl
  | cons node rest =>
    rw [List.head?_map, List.getLast?_map, List.head?_cons]
    rw [List.getLast?_eq_some_getLast (List.cons_ne_nil node rest)]
    simp [Span.move]

@[simp] theorem move_branch (field : Option Field) (kind : Kind) (children : Forest)
    (offset : Nat) :
    move place (branch field kind children offset) =
      branch field kind (moveList place children) (place offset) := by
  simp [branch, move, spanOf_moveList]

end Move

end Node

namespace Grammar

/-- The closing braces of an interpolation, or the mark that they are missing. -/
def closeBraces : Parse Forest := do
  if (← get).stream.atGlued (.mark .braceR) (.mark .braceR) then bumpGlued .interpolationClose
  else missing none (.token .interpolationClose)

theorem closeBraces_eq (s : State) :
    closeBraces s = (if s.stream.atGlued (.mark .braceR) (.mark .braceR) then
      bumpGlued .interpolationClose else missing none (.token .interpolationClose)) s := rfl

/-- The state after a budget ran out. -/
def State.spent (s : State) : State := { s with exhausted := true }

/-- Whether the token stands inside a line: it neither ends one nor moves between levels. -/
def isInLine : Token.Kind → Bool
  | .newline | .indent | .dedent | .endOfInput => false
  | _ => true

/-- As long as nothing went wrong, the last token that was consumed stands inside a line. -/
def State.MidLine (s : State) : Prop :=
  s.reports = [] → s.exhausted = false →
    ∃ token, s.consumed.head? = some token ∧ isInLine token.kind = true

/-- The last token that was consumed opens a literal or an interpolation. -/
def State.Entered (s : State) : Prop :=
  ∃ token, s.consumed.head? = some token ∧
    (token.kind.opensLiteral = true ∨ token.kind = .interpolationOpen)

/-- The token that opens a body, behind which its lines are read. -/
def openBody : Parse Forest := do
  let opened ← bump
  setMode .body
  return opened

/-! ## Contexts -/

/-- What surrounds the place that is read: how the next tokens are read, the number of open bodies,
and whether a literal was opened since the two runs began to be compared. -/
structure Context where
  mode : Mode
  nesting : Nat
  lineBound : Bool
  bodies : Nat
  literal : Bool

namespace Context

/-- The context at the start of a source. -/
def outer : Context := ⟨.normal, 0, false, 0, false⟩

/-- Tokens of the kind leave the open bodies as they are. -/
def Allows (c : Context) (kind : Token.Kind) : Prop :=
  c.mode.isFlat = true ∨ (c.mode = .body ∧ c.bodies ≠ 0 ∧ kind ≠ .dedent)

/-- The mode can be entered: contents only in a literal, body lines only in a body, and a body is
looked for only outside of one. -/
def Admits (c : Context) (mode : Mode) : Prop :=
  (mode.fault?.isSome = true → c.literal = true) ∧ (mode = .body → c.bodies ≠ 0) ∧
    (mode = .bodyStart → c.bodies = 0)

/-- The context with tokens read in another way. -/
def within (c : Context) (mode : Mode) (nesting : Nat) (lineBound : Bool) : Context :=
  { c with mode := mode, nesting := nesting, lineBound := lineBound }

/-- The context between brackets. -/
def nested (c : Context) : Context := c.within c.mode (c.nesting + 1) c.lineBound

/-- The context behind the token that opens a literal. -/
def opened (c : Context) : Context := { c with literal := true }

/-- The context with another number of open bodies. -/
def withBodies (c : Context) (bodies : Nat) : Context := { c with bodies := bodies }

/-- The stream reads its next tokens as the context says. -/
structure Governs (c : Context) (s : Stream) : Prop where
  mode : s.mode = c.mode
  nesting : s.nesting = c.nesting
  lineBound : s.lineBound = c.lineBound

theorem allows_of_normal {c : Context} (h : c.mode = .normal) (kind : Token.Kind) :
    c.Allows kind :=
  .inl (by rw [h]; rfl)

theorem admits_normal (c : Context) : c.Admits .normal := ⟨nofun, nofun, nofun⟩

/-- The mode of bodies is left for another one behind a body, or for what stands inside a line. -/
def Leaves (c : Context) (mode : Mode) (s : State) : Prop :=
  c.mode = .body → mode = .body ∨ c.bodies = 0 ∨ s.Entered

theorem leaves_self (c : Context) (s : State) : c.Leaves c.mode s := .inl

theorem leaves_of_ne {c : Context} (h : c.mode ≠ .body) (mode : Mode) (s : State) :
    c.Leaves mode s :=
  fun hbody => absurd hbody h

end Context

/-! ## Simulations -/

/-- How two runs are compared. -/
structure Simulation where
  /-- Where the offsets of the first run lie in the second. -/
  place : Nat → Nat
  /-- What holds of every state of the first run. -/
  inv : Context → State → Prop
  /-- What relates a state of the second run to one of the first. -/
  rel : Context → State → State → Prop
  /-- Nothing has ruled out the comparison so far. -/
  calm : State → Prop
  /-- The guard inside literals: besides, the input is not at its end. -/
  wide : State → Prop
  /-- The guard of expressions and items: besides, the next token is the same in both runs. -/
  live : State → Prop
  /-- The guard where the token after the next one is looked at. -/
  peer : State → Prop

namespace Simulation

variable (z : Simulation)

/-- Siblings of the first run as the second run makes them. -/
abbrev moved : Forest → Forest := Node.moveList z.place

section Tracks

variable {α β : Type}

/-- From related states on, the two productions give results that correspond by `m`, and end in
related states. This is claimed of runs that end in a state with the guard `post`; then the guard
`pre` held at their start. The context after the run, and the guard, may depend on the result. -/
def Tracks (c : Context) (pre : State → Prop) (m : α → β) (d : α → Context)
    (post : α → State → Prop) (s : State) (p : Parse α) (q : Parse β) : Prop :=
  z.inv c s → z.inv (d (p s).1) (p s).2 ∧
    (post (p s).1 (p s).2 → pre s ∧ ∀ t, z.rel c s t →
      (q t).1 = m (p s).1 ∧ z.rel (d (p s).1) (p s).2 (q t).2)

/-- Two productions that make siblings, between one guard and another. -/
abbrev Follows (c : Context) (pre post : State → Prop) (s : State) (p q : Parse Forest) : Prop :=
  z.Tracks c pre z.moved (fun _ => c) (fun _ => post) s p q

/-- One step of a loop. If the loop goes on, the guard `go` and the context stay; otherwise the
guard is `fin`, and the number of open bodies may be another one. -/
abbrev Iterates {μ : Type} (c : Context) (bodies : Nat) (go fin : State → Prop) (s : State)
    (p q : Parse (Forest × Option μ)) : Prop :=
  z.Tracks c go (Prod.map z.moved id) (fun out => if out.2.isSome then c else c.withBodies bodies)
    (fun out => if out.2.isSome then go else fin) s p q

end Tracks

end Simulation

namespace Simulation

variable {z : Simulation} {α β γ δ : Type} {c : Context} {pre mid post : State → Prop}
  {m : α → β} {n : γ → δ} {s : State}

/-- Productions that make siblings can return what both runs have. -/
theorem Follows.pure {nodes more : Forest} (h : more = z.moved nodes) :
    z.Follows c pre pre s (Pure.pure nodes) (Pure.pure more) :=
  fun hinv => ⟨hinv, fun hpre => ⟨hpre, fun _ hrel => ⟨h, hrel⟩⟩⟩

theorem Tracks.bind {p : Parse α} {q : Parse β} {f : α → Parse γ} {g : β → Parse δ}
    {d : α → Context} {e : γ → Context} {mid : α → State → Prop} {post : γ → State → Prop}
    (hp : z.Tracks c pre m d mid s p q)
    (hf : ∀ a u, p s = (a, u) → z.Tracks (d a) (mid a) n e post u (f a) (g (m a))) :
    z.Tracks c pre n e post s (p >>= f) (q >>= g) := by
  intro hinv
  obtain ⟨hinvp, hrunp⟩ := hp hinv
  obtain ⟨hinvf, hrunf⟩ := hf (p s).1 (p s).2 rfl hinvp
  refine ⟨hinvf, fun hpost => ?_⟩
  obtain ⟨hmid, hrelf⟩ := hrunf hpost
  obtain ⟨hpre, hrelp⟩ := hrunp hmid
  refine ⟨hpre, fun t hrel => ?_⟩
  obtain ⟨heq, hrel'⟩ := hrelp t hrel
  have hnext := hrelf (q t).2 hrel'
  rw [← heq] at hnext
  exact hnext

/-- The invariant can be used to show that productions are tracked. -/
theorem Tracks.of_inv {p : Parse α} {q : Parse β} {d : α → Context} {post : α → State → Prop}
    (h : z.inv c s → z.Tracks c pre m d post s p q) : z.Tracks c pre m d post s p q :=
  fun hinv => h hinv hinv

/-- Productions can be replaced by others that run in the same way. -/
theorem Tracks.congr {p p' : Parse α} {q q' : Parse β} {d : α → Context} {post : α → State → Prop}
    (hp : z.inv c s → p s = p' s) (hq : ∀ t, z.rel c s t → q t = q' t)
    (h : z.Tracks c pre m d post s p' q') : z.Tracks c pre m d post s p q := by
  intro hinv
  rw [hp hinv]
  refine ⟨(h hinv).1, fun hpost => ⟨((h hinv).2 hpost).1, fun t hrel => ?_⟩⟩
  rw [hq t hrel]
  exact ((h hinv).2 hpost).2 t hrel

/-- A guard can be weakened before a run. -/
theorem Tracks.mono_pre {pre' : State → Prop} {p : Parse α} {q : Parse β} {d : α → Context}
    {post : α → State → Prop} (h : z.Tracks c pre m d post s p q)
    (hpre : z.inv c s → pre s → pre' s) : z.Tracks c pre' m d post s p q := by
  intro hinv
  obtain ⟨hinv', hrun⟩ := h hinv
  exact ⟨hinv', fun hpost => ⟨hpre hinv (hrun hpost).1, (hrun hpost).2⟩⟩

/-- A guard can be strengthened after a run. -/
theorem Tracks.mono_post {p : Parse α} {q : Parse β} {d : α → Context}
    {post post' : α → State → Prop} (h : z.Tracks c pre m d post s p q)
    (hpost : ∀ a u, p s = (a, u) → z.inv (d a) u → post' a u → post a u) :
    z.Tracks c pre m d post' s p q := by
  intro hinv
  obtain ⟨hinv', hrun⟩ := h hinv
  exact ⟨hinv', fun h => hrun (hpost _ _ rfl hinv' h)⟩

/-- The context after a run can be weakened. -/
theorem Tracks.mono_context {p : Parse α} {q : Parse β} {d d' : α → Context}
    {post : α → State → Prop} (h : z.Tracks c pre m d post s p q)
    (hinv : ∀ a u, z.inv (d a) u → z.inv (d' a) u)
    (hrel : ∀ a u t, z.rel (d a) u t → z.rel (d' a) u t) : z.Tracks c pre m d' post s p q := by
  intro hs
  obtain ⟨hinv', hrun⟩ := h hs
  refine ⟨hinv _ _ hinv', fun hpost => ⟨(hrun hpost).1, fun t ht => ?_⟩⟩
  obtain ⟨heq, hafter⟩ := (hrun hpost).2 t ht
  exact ⟨heq, hrel _ _ _ hafter⟩

/-- Both productions first look at something that is the same in both runs. -/
theorem Tracks.look {κ : Type} (look : State → κ) {f : κ → Parse α} {g : κ → Parse β}
    {d : α → Context} {post : α → State → Prop}
    (hsame : ∀ t, z.inv c s → pre s → z.rel c s t → look t = look s)
    (h : z.Tracks c pre m d post s (f (look s)) (g (look s))) :
    z.Tracks c pre m d post s (fun s => f (look s) s) (fun t => g (look t) t) := by
  intro hinv
  obtain ⟨hinv', hrun⟩ := h hinv
  refine ⟨hinv', fun hpost => ⟨(hrun hpost).1, fun t hrel => ?_⟩⟩
  dsimp only
  rw [hsame t hinv (hrun hpost).1 hrel]
  exact (hrun hpost).2 t hrel

/-- Two branches that go on in the same way. -/
theorem Follows.join {cond : Prop} [Decidable cond] (guard : State → Prop) {p q p' q' : Parse Forest}
    {f : Forest → Parse γ} {g : Forest → Parse δ} {e : γ → Context} {post : γ → State → Prop}
    (hp : cond → z.Follows c pre guard s p p') (hq : ¬cond → z.Follows c pre guard s q q')
    (hf : ∀ nodes u, z.Tracks c guard n e post u (f nodes) (g (z.moved nodes))) :
    z.Tracks c pre n e post s (if cond then p >>= f else q >>= f)
      (if cond then p' >>= g else q' >>= g) := by
  split
  · next h => exact (hp h).bind fun nodes u _ => hf nodes u
  · next h => exact (hq h).bind fun nodes u _ => hf nodes u

/-- A run that never ends in a state with the guard has nothing to be compared with. -/
theorem Tracks.vacuous {p : Parse α} {q q' : Parse β} {d : α → Context}
    {post : α → State → Prop} (h : z.Tracks c pre m d post s p q)
    (hpost : ¬post (p s).1 (p s).2) : z.Tracks c pre m d post s p q' := by
  intro hinv
  exact ⟨(h hinv).1, fun hholds => absurd hholds hpost⟩

/-- Of a part that is tracked, only the invariant is kept. -/
theorem Tracks.skip {p : Parse α} {q : Parse β} {f : α → Parse γ} {d : α → Context}
    {post : α → State → Prop} {Q : γ → State → Prop} (hp : z.Tracks c pre m d post s p q)
    (hinv : z.inv c s) (hf : ∀ a u, z.inv (d a) u → Ensures u (f a) Q) : Ensures s (p >>= f) Q :=
  hf _ _ (hp hinv).1

/-! ## Laws -/

/-- The tokens at one place of the two runs: the texts may differ, but not the names. In a body the
text of a line may go on in the second run. -/
structure Alike (z : Simulation) (c : Context) (a b : Token) : Prop where
  kind : b.kind = a.kind
  span : c.mode = .normal → b.span = a.span.move z.place
  text : a.kind = .identifier → b.text = a.text

/-- What a simulation has to know about single tokens, reports and changes of context. -/
structure Lawful (z : Simulation) : Prop where
  -- States and changes of context.
  wellFormed : ∀ {c s}, z.inv c s → s.scanner.WellFormed
  governs : ∀ {c s}, z.inv c s → c.Governs s.stream
  governs_rel : ∀ {c s t}, z.rel c s t → c.Governs t.stream
  depth : ∀ {c s t}, z.rel c s t → t.depth = s.depth
  offset : ∀ {c s t}, z.rel c s t → t.stream.offset = z.place s.stream.offset
  inv_within : ∀ {c s mode nesting lineBound depth}, c.Admits mode → c.Leaves mode s → z.inv c s →
    z.inv (c.within mode nesting lineBound) (s.within mode nesting lineBound depth)
  rel_within : ∀ {c s t mode nesting lineBound depth}, c.Admits mode → z.rel c s t →
    z.rel (c.within mode nesting lineBound) (s.within mode nesting lineBound depth)
      (t.within mode nesting lineBound depth)
  inv_opened : ∀ {c s}, z.inv c.opened s → z.inv c s
  rel_opened : ∀ {c s t}, z.rel c.opened s t → z.rel c s t
  inv_report : ∀ {c s} cause span, z.inv c s → z.inv c (s.withReport cause span)
  rel_report : ∀ {c s t} cause span, z.rel c s t →
    z.rel c (s.withReport cause span) (t.withReport cause (span.move z.place))
  inv_spent : ∀ {c} {s : State} bodies, z.inv c s →
    z.inv (c.withBodies bodies) s.spent
  -- Guards.
  calm_of_wide : ∀ {s}, z.wide s → z.calm s
  wide_of_live : ∀ {s}, z.live s → z.wide s
  live_of_peer : ∀ {s}, z.peer s → z.live s
  calm_within : ∀ {s mode nesting lineBound depth},
    z.calm (s.within mode nesting lineBound depth) → z.calm s
  wide_within : ∀ {s mode nesting lineBound depth},
    z.wide (s.within mode nesting lineBound depth) → z.wide s
  live_atDepth : ∀ {s depth}, z.live (s.atDepth depth) → z.live s
  not_calm_spent : ∀ {s : State}, ¬z.calm s.spent
  /-- A report does away with all guards, or makes no difference to them. -/
  peer_of_report : ∀ {s cause span}, z.calm (s.withReport cause span) → z.peer s
  peer_of_reported : ∀ {s}, s.reports ≠ [] → z.calm s → z.peer s
  live_of_calm : ∀ {c s}, z.inv c s → z.calm s → c.mode.fault? = none →
    s.front ≠ .endOfInput → s.front ≠ .dedent → z.live s
  live_of_wide : ∀ {c s}, z.inv c s → z.wide s → c.mode.fault?.isSome = true →
    s.front.isErrorRecovery = false → z.live s
  /-- The comparison ends with a line: what stops in the middle of one has nothing behind it. -/
  live_of_midLine : ∀ {c s}, z.inv c s → s.MidLine → z.calm s → c.mode = .normal → c.nesting = 0 →
    s.front = .endOfInput ∨ s.front = .dedent → z.live s
  peer_of_next : ∀ {s u}, z.live s → z.live u → u.front = (s.stream.nth 1).kind → z.peer s
  peer_of_trimmed : ∀ {s u}, z.live s → z.peer u → u.stream.nth 1 = s.stream.nth 1 → z.peer s
  -- Looks at the next tokens.
  token : ∀ {c s t}, z.inv c s → z.live s → z.rel c s t →
    z.Alike c (s.stream.nth 0) (t.stream.nth 0)
  second : ∀ {c s t}, z.inv c s → c.mode = .normal → z.peer s → z.rel c s t →
    z.Alike c (s.stream.nth 1) (t.stream.nth 1)
  third : ∀ {c s t}, z.inv c s → c.mode = .normal → z.peer s → z.rel c s t →
    ((t.stream.nth 2).kind = .mark .colonEquals ↔ (s.stream.nth 2).kind = .mark .colonEquals)
  front_body : ∀ {c s t}, z.inv c s → c.mode = .body → c.bodies ≠ 0 → z.calm s → z.rel c s t →
    t.front = s.front
  indent : ∀ {c s t}, z.inv c s → c.mode = .bodyStart → z.calm s → z.rel c s t →
    (t.front = .indent ↔ s.front = .indent)
  -- Tokens that are consumed.
  trivia : ∀ {c s}, z.Follows c z.live z.live s Grammar.trivia Grammar.trivia
  bump : ∀ {c s} (field : Option Field), c.Allows s.front → s.front ≠ .endOfInput →
    z.Follows c z.live z.calm s (Grammar.bump field) (Grammar.bump field)
  keyword : ∀ {c s} (word : Keyword), c.mode = .normal → s.front = .identifier →
    z.Follows c z.live z.calm s (bumpKeyword word) (bumpKeyword word)
  /-- Behind the opening token of a literal, the two runs agree on what is remembered of it. -/
  open_literal : ∀ {c s} (field : Option Field), s.front.opensLiteral = true →
    z.Tracks c z.live z.moved (fun _ => c.opened) (fun _ => z.calm) s (Grammar.bump field)
      (Grammar.bump field)
  open_body : ∀ {c s}, s.front = .indent → c.mode = .bodyStart → c.bodies = 0 →
    z.Tracks c z.live z.moved (fun _ => (c.withBodies 1).within .body c.nesting c.lineBound)
      (fun _ => z.calm) s openBody openBody
  close_body : ∀ {c s}, s.front = .dedent → c.mode = .body → c.bodies = 1 →
    z.Tracks c z.calm z.moved (fun _ => c.withBodies 0) (fun _ => z.calm) s Grammar.bump
      Grammar.bump
  end_body : ∀ {c s}, s.front = .endOfInput → c.mode = .body → c.bodies = 1 → z.inv c s →
    z.inv (c.withBodies 0) s ∧ ∀ t, z.rel c s t → z.rel (c.withBodies 0) s t
  close_braces : ∀ {c s}, c.mode = .normal →
    z.Follows c z.live z.calm s closeBraces closeBraces

end Simulation

end Grammar

end Justfile
