import Justfile.Proofs.Blank.Run
import Justfile.Proofs.Parser.File
import Justfile.Proofs.Run.Calls
import Justfile.Proofs.Simulation.Sheltered

/-!
# Between two items

All that productions raise and lower is back at its start whenever an item is called, and whenever it
returns (`Parser.Neutral`, `Parser.items_neutral`): the number of expressions, the open brackets, the binding
to the line, the mode, and what the scanner holds of bodies and shebang lines (`State.Neutral`). In the
builder only the root is open, and no field waits. That is kept from item to item together with where the
grammar stands (`Parser.Resting`), as each item is built the way the grammar returns it.

Outside of items there is one shebang line, the first line of the file. Its pieces are read up to the last
one, but blanks at its end may still be queued when the end of its line is looked for. They are consumed
with the end of the line, and where the line does not end the file goes on with no item.
-/

set_option autoImplicit false

namespace Justfile

namespace Scanner

theorem Run.noShebang {mode : Mode} {s t : Scanner} {tokens : List Token} (run : Run mode s tokens t)
    (wf : s.WellFormed) (h : s.NoShebang) : t.NoShebang := by
  induction run with
  | nil => exact h
  | @cons s _ _ _ ih => exact ih (wf.next mode) (h.step wf (step_next s mode))

end Scanner

namespace Grammar

/-- What productions raise and lower is at its start. -/
structure State.Neutral (s : State) : Prop where
  depth : s.depth = 0
  nesting : s.stream.nesting = 0
  lineBound : s.stream.lineBound = false
  mode : s.stream.mode = .normal
  indentation : s.scanner.indentation = [0]
  pendingDedents : s.scanner.pendingDedents = 0
  queued : s.scanner.queued = []

/-! ## The first line of a file -/

section FirstLine

variable {rules : Rules} {bound base : Nat} {s t : State}

theorem noShebang_flushed (wf : s.scanner.WellFormed) (h : s.scanner.NoShebang) :
    s.flushed.scanner.NoShebang :=
  (Stream.takeTrivia_spec wf).1.noShebang wf h

theorem noShebang_bump (wf : s.scanner.WellFormed) (h : s.scanner.NoShebang)
    (hne : s.front ≠ .endOfInput) : (bump none s).2.scanner.NoShebang := by
  unfold bump
  rw [bumpAs_eq none none s hne]
  exact (noShebang_flushed wf h).step ((trimmed_flushed wf).wellFormed wf) (Scanner.step_next _ _)

/-- Where the signs of a shebang line stand at the start of the text proper, looks see them. -/
theorem ahead_of_signs {scanner : Scanner} (hmode : s.stream.mode = .normal) (ready : scanner.Ready)
    (hbase : scanner.offset = scanner.base) (hsigns : ['#', '!'].isPrefixOf scanner.rest = true) :
    (s.stream.ahead scanner).token.kind = .shebangStart := by
  have hkind := ready.kind_next_shebang hbase hsigns
  rw [← hmode] at hkind
  rw [Stream.ahead_of_not_isTrivia (by rw [hkind]; rfl)]
  exact hkind

section Mark

variable (rest : Text)

/-- A source that starts with a byte order mark. -/
abbrev marked : Text := Scanner.byteOrderMark :: rest

theorem offset_lt_base_marked :
    (Scanner.ofText (marked rest)).offset < (Scanner.ofText (marked rest)).base := by
  have hbase : (Scanner.ofText (marked rest)).base = Scanner.byteOrderMark.utf8Size := rfl
  rw [hbase]
  exact Scanner.byteOrderMark.utf8Size_pos

/-- The mark is trivia. -/
theorem step_marked :
    (State.ofText (marked rest)).step = (Scanner.ofText (marked rest)).emit .whitespace 1 :=
  Scanner.next_of_lt_base rfl (offset_lt_base_marked rest)

theorem front_marked : (State.ofText (marked rest)).front =
    ((State.ofText (marked rest)).stream.ahead
      ((Scanner.ofText (marked rest)).emit .whitespace 1).2).token.kind := by
  have htrivia : (State.ofText (marked rest)).stream.isTrivia
      (State.ofText (marked rest)).step.1.kind = true := by
    rw [step_marked]
    rfl
  have hahead := Stream.ahead_of_isTrivia (s := (State.ofText (marked rest)).stream)
    (Scanner.wellFormed_ofText (marked rest)) htrivia
  rw [← step_marked]
  exact congrArg (fun ahead => ahead.token.kind) hahead

end Mark

/-- A source that does not start with a shebang line has none at the start of its text proper. -/
theorem noShebang_ofText {source : Text} (hfront : (State.ofText source).front ≠ .shebangStart) :
    (Scanner.ofText source).NoShebang := by
  by_cases hmark : source.head? = some Scanner.byteOrderMark
  · -- The scanner stands in front of the mark, and the signs would follow it.
    obtain ⟨rest, rfl⟩ : ∃ rest, source = marked rest := List.head?_eq_some_iff.1 hmark
    refine ⟨fun heq => absurd heq (Nat.ne_of_lt (offset_lt_base_marked rest)), fun _ =>
      Bool.eq_false_iff.2 fun hsigns => hfront ?_⟩
    rw [front_marked]
    exact ahead_of_signs rfl ⟨rfl, Nat.le_of_eq rfl, rfl, rfl⟩ rfl hsigns
  · -- The text proper starts with the source.
    have hbase : (Scanner.ofText source).base = 0 := if_neg (by simpa using hmark)
    refine ⟨fun _ => Bool.eq_false_iff.2 fun hsigns => hfront ?_, fun hlt => ?_⟩
    · exact ahead_of_signs rfl ⟨rfl, Nat.le_of_eq hbase, rfl, rfl⟩ hbase.symm hsigns
    · rw [hbase] at hlt
      exact absurd hlt (Nat.not_lt_zero _)

/-- The pieces of a shebang line are read up to the last one, apart from blanks. -/
theorem shebangStep_leaves {limit : Nat} (entry : Entry limit (bound + 1) base s)
    (h : s.scanner.NoShebang) :
    Ensures s (shebangStep ())
      (Steps (fun _ t => Entry limit (bound + 1) base t ∧ t.scanner.NoShebang)
        (fun _ _ _ t => t.scanner.NoShebang ∧ Interpreter.isPieceKind t.front = false) () s) := by
  have hbump : ∀ {kind : Token.Kind}, s.front = kind → isSolid .outside kind = true →
      Ensures s (bump >>= again)
        (Steps (fun _ t => Entry limit (bound + 1) base t ∧ t.scanner.NoShebang)
          (fun _ _ _ t => t.scanner.NoShebang ∧ Interpreter.isPieceKind t.front = false) () s) := by
    intro kind hfront hsolid
    have bumped := bump_spec .outside entry.wellFormed hfront hsolid none
    have hne : s.front ≠ .endOfInput := by
      rw [hfront]
      exact ((isSolid_iff _ _).1 hsolid).1
    exact ⟨⟨entry.after (bumped.outcome Nat.one_pos).toRan, noShebang_bump entry.wellFormed h hne⟩,
      bumped.work_lt, fun _ _ hlast => hlast⟩
  unfold shebangStep
  refine Ensures.peek ?_
  split
  · next hfront => exact hbump hfront rfl
  · next hfront => exact hbump hfront rfl
  · next hfront => exact hbump hfront rfl
  · next hfront => exact hbump hfront rfl
  · next hfront => exact hbump hfront rfl
  · next hpath hflag hlanguage hrest henv =>
    refine ⟨h, (?_ : Interpreter.isPieceKind s.front = false)⟩
    unfold Interpreter.isPieceKind
    split
    · next hfront =>
      -- Blanks are pieces as well, but a look passes over them.
      have hnone := isTrivia_front entry.wellFormed
      rw [hfront] at hnone
      cases hnone
    · next hfront => exact absurd hfront hflag
    · next hfront => exact absurd hfront hpath
    · next hfront => exact absurd hfront hlanguage
    · next hfront => exact absurd hfront hrest
    · next hfront => exact absurd hfront henv
    · rfl

theorem shebang_leaves (serves : Serves rules bound) (entry : Entry rules.limit (bound + 1) base s)
    (hfront : s.front = .shebangStart) :
    Ensures s (shebang rules none) fun _ t =>
      t.scanner.NoShebang ∧ Interpreter.isPieceKind t.front = false := by
  unfold shebang branch
  refine (trivia_spec entry.wellFormed).bind ?_
  intro before t trimmed
  have ht := entry.after (trimmed.outcome .outside Nat.one_pos).toRan
  have hstart : t.front = .shebangStart := trimmed.front.trans hfront
  have hbumped : Ensures t (bump none) fun nodes u =>
      Bumped .outside t nodes u ∧ u.scanner.NoShebang := by
    refine ⟨bump_spec .outside ht.wellFormed hstart rfl none, ?_⟩
    unfold bump
    rw [bumpAs_eq none none t (by rw [hstart]; exact nofun)]
    refine Scanner.noShebang_of_shebangStart ((trimmed_flushed ht.wellFormed).wellFormed ht.wellFormed) ?_
    exact (front_eq_step ht.wellFormed).symm.trans hstart
  have hbody : Ensures t (do
      let start ← bump
      let pieces ← loop shebangStep rules.budget ()
      return start ++ pieces) fun _ u =>
        u.scanner.NoShebang ∧ Interpreter.isPieceKind u.front = false := by
    refine hbumped.bind ?_
    rintro start u ⟨bumped, hnone⟩
    have hu := ht.after (bumped.outcome Nat.one_pos).toRan
    refine (loop_spec (fun _ v hv => shebangStep_leaves hv.1 hv.2) ⟨hu, hnone⟩
      (serves.work_lt hu.toAffords)).bind ?_
    intro pieces v hv
    exact hv
  exact hbody.bind fun _ _ h => h

/-- Behind the trivia in front of another token no pieces are queued. -/
theorem queued_flushed (wf : s.scanner.WellFormed) (h : Interpreter.isPieceKind s.front = false) :
    s.flushed.scanner.queued = [] := by
  cases hqueued : s.flushed.scanner.queued with
  | nil => rfl
  | cons piece queued =>
    have hwf := (trimmed_flushed wf).wellFormed wf
    have hpiece := (hwf.pieces piece (hqueued ▸ List.mem_cons_self)).2
    have hkind : (s.flushed.scanner.next s.flushed.stream.mode).1.kind = piece.1 := by
      rw [Scanner.next_of_queued hqueued]
      rfl
    rw [front_eq_step wf, hkind, hpiece] at h
    cases h

theorem recoverLine_of_not_endsLine (hline : endsLine s.front = false) (expected : Expected) :
    recoverLine rules expected s =
      errorBranch none (.unexpected expected (.ofToken (s.stream.nth 0)))
        (loop (recoverStep rules) rules.budget ()) s := by
  have hat : recoverLine rules expected s =
      (if endsLine s.front = true then missing none expected else
        peekToken 0 >>= fun token => errorBranch none (.unexpected expected (.ofToken token))
          (loop (recoverStep rules) rules.budget ())) s := rfl
  rw [hat, hline]
  rfl

theorem recoverLine_flushed (wf : s.scanner.WellFormed) (hline : endsLine s.front = false)
    (expected : Expected) :
    (recoverLine rules expected s.flushed).2 = (recoverLine rules expected s).2 := by
  rw [recoverLine_of_not_endsLine (by rwa [front_flushed wf]), recoverLine_of_not_endsLine hline,
    (trimmed_flushed wf).nth]
  exact after_flushed (fun _ _ _ => rfl) wf

theorem lineEnd_endOfInput (hend : s.front = .endOfInput) : (lineEnd rules s).2 = s := by
  suffices Ensures s (lineEnd rules) fun _ t => t = s from this
  unfold lineEnd
  refine Ensures.peek ?_
  rw [hend]
  rfl

/-- Where a production ends decides where all of it ends, whatever its nodes are. -/
theorem bind_flushed {p : Parse Forest} {f : Forest → Parse Forest}
    (h : (p s.flushed).2 = (p s).2) (hf : ∀ nodes nodes' t, (f nodes t).2 = (f nodes' t).2) :
    ((p >>= f) s.flushed).2 = ((p >>= f) s).2 := by
  change (f (p s.flushed).1 (p s.flushed).2).2 = (f (p s).1 (p s).2).2
  rw [h]
  exact hf _ _ _

/-- The end of a line is looked for behind the trivia, unless a body or the input ends there. -/
theorem lineEnd_flushed (wf : s.scanner.WellFormed) (hend : s.front ≠ .endOfInput)
    (hdedent : s.front ≠ .dedent) : (lineEnd rules s.flushed).2 = (lineEnd rules s).2 := by
  unfold lineEnd
  refine peek_flushed wf ?_
  cases hfront : s.front with
  | newline => exact bump_flushed wf hend
  | endOfInput => exact absurd hfront hend
  | dedent => exact absurd hfront hdedent
  | _ => exact bind_flushed (recoverLine_flushed wf (by rw [hfront]; rfl) _) fun _ _ _ => rfl

/-- Outside of brackets trivia stands inside a line. -/
theorem State.MidLine.flushed (wf : s.scanner.WellFormed) (hnesting : s.stream.nesting = 0)
    (h : s.MidLine) : s.flushed.MidLine := by
  obtain ⟨-, htrivia, -⟩ := Stream.takeTrivia_spec wf
  intro hreports hlive
  change ∃ token, (s.stream.takeTrivia.1.reverse ++ s.consumed).head? = some token ∧
    isInLine token.kind = true
  cases htokens : s.stream.takeTrivia.1.reverse with
  | nil => exact h hreports hlive
  | cons token tokens =>
    have hkind : s.stream.isTrivia token.kind = true :=
      htrivia token (List.mem_reverse.1 (htokens ▸ List.mem_cons_self))
    refine ⟨token, rfl, ?_⟩
    unfold Stream.isTrivia at hkind
    rw [hnesting] at hkind
    cases hat : token.kind with
    | newline | indent | dedent | endOfInput =>
      rw [hat] at hkind
      cases hkind
    | _ => rfl

/-- Two productions, one behind the other, end where the second one does. -/
theorem snd_bind_append (p q : Parse Forest) (s : State) :
    ((p >>= fun nodes => q >>= fun more => pure (nodes ++ more)) s).2 = (q (p s).2).2 := rfl

theorem fileShebang_of_eq (hfront : s.front = .shebangStart) :
    (fileShebang rules s).2 = (lineEnd rules (shebang rules none s).2).2 := by
  have hat : fileShebang rules s = (if s.front == .shebangStart then
    (shebang rules none >>= fun line => lineEnd rules >>= fun ending => pure (line ++ ending))
      else pure []) s := rfl
  rw [hat, if_pos (beq_iff_eq.2 hfront)]
  exact snd_bind_append _ _ s

/-- Outside of bodies no dedent is ahead. -/
theorem front_ne_dedent (hinv : (balanced []).inv .outer s) (hlive : s.exhausted = false) :
    s.front ≠ .dedent := by
  obtain ⟨wf, governs, hleveled⟩ := hinv
  intro hdedent
  have hlevel := isLevel_of_allows wf governs (hleveled hlive).pendingDedents
    (Context.outer.allows_of_normal rfl s.front)
  rw [hdedent] at hlevel
  cases hlevel

/-- The end of a line takes the blanks with it that are still queued behind the last piece. -/
theorem sheltered_lineEnd (pairs : sheltered.Pairs rules rules) (hinv : (balanced []).inv .outer s)
    (hmid : s.MidLine) (hlive : s.exhausted = false) (hnone : s.scanner.NoShebang)
    (hpiece : Interpreter.isPieceKind s.front = false)
    (hne : (lineEnd rules s).2.front ≠ .endOfInput) :
    sheltered.inv .outer (lineEnd rules s).2 := by
  obtain ⟨wf, governs, -⟩ := id hinv
  have hend : s.front ≠ .endOfInput := by
    intro hend
    rw [lineEnd_endOfInput hend] at hne
    exact hne hend
  have hflushed : (balanced []).inv .outer s.flushed := ((lawful_balanced []).trivia hinv).1
  have hsheltered : sheltered.inv .outer s.flushed :=
    ⟨hflushed, fun _ _ => ⟨noShebang_flushed wf hnone,
      fun hqueued => absurd (queued_flushed wf hpiece) hqueued⟩⟩
  -- What is looked for is found behind the blanks as well as in front of them.
  rw [← lineEnd_flushed wf hend (front_ne_dedent hinv hlive)]
  exact (lawful_sheltered.lineEnd rfl pairs rfl (hmid.flushed wf governs.nesting) hsheltered).1

/-- Behind the shebang line no further one is looked for, and nothing of it is queued: an item that is
called there starts outside of it. -/
theorem sheltered_fileShebang (pairs : ∀ {z : Simulation}, z.Lawful → z.Pairs rules rules)
    (serves : Serves rules bound) {source : Text}
    (entry : Entry rules.limit (bound + 1) base (.ofText source))
    (hne : (fileShebang rules (.ofText source)).2.front ≠ .endOfInput) :
    sheltered.inv .outer (fileShebang rules (.ofText source)).2 := by
  have lawful := lawful_balanced []
  have start : (balanced []).inv .outer (State.ofText source) := balanced_start [] source
  by_cases hfront : (State.ofText source).front = .shebangStart
  · rw [fileShebang_of_eq hfront] at hne ⊢
    obtain ⟨hnone, hpiece⟩ : (shebang rules none (.ofText source)).2.scanner.NoShebang ∧
        Interpreter.isPieceKind (shebang rules none (.ofText source)).2.front = false :=
      shebang_leaves serves entry hfront
    have hline : (balanced []).inv .outer (shebang rules none (.ofText source)).2 :=
      (lawful.shebang (pairs lawful) (lawful.watches_live (c := .outer) rfl) (fun _ _ => id) hfront
        none start).1
    have hmid : (shebang rules none (.ofText source)).2.MidLine :=
      lawful.stops_shebang (c := .outer) rfl start hfront none
    have hlive : (shebang rules none (.ofText source)).2.exhausted = false :=
      (shebang_spec .outside serves entry hfront (Nat.lt_succ_self 1) none).toRan
        |>.derives.advances.exhausted_eq
    exact sheltered_lineEnd (pairs lawful_sheltered) hline hmid hlive hnone hpiece hne
  · rw [fileShebang_of_ne (beq_eq_false_iff_ne.2 hfront)]
    exact ⟨start, fun _ _ => ⟨noShebang_ofText hfront, fun hqueued => absurd rfl hqueued⟩⟩

end FirstLine

/-! ## Items -/

section Items

variable {limit bound : Nat} {s : State}

theorem indentation_of_levels {scanner : Scanner} (h : scanner.levels = []) :
    scanner.indentation = [0] := by
  unfold Scanner.indentation
  rw [h]
  rfl

/-- Outside of bodies no level is open, and nothing is queued for one. -/
theorem neutral_of_sheltered (between : Between limit bound s) (hinv : sheltered.inv .outer s) :
    s.Neutral := by
  obtain ⟨⟨-, -, hleveled⟩, hsheltered⟩ := hinv
  obtain ⟨hpending, hlevels, -⟩ := hleveled between.live
  have hshelter := hsheltered between.live (Nat.zero_le 1)
  exact {
    depth := between.depth
    nesting := between.nesting
    lineBound := between.lineBound
    mode := between.mode
    indentation := indentation_of_levels hlevels
    pendingDedents := hpending
    queued := by
      by_contra hqueued
      exact hshelter.levels hqueued hlevels }

end Items

end Grammar

namespace Parser

open Grammar (Between sheltered)

/-- What productions raise and lower is at its start, only the root is open in the builder, and no field
waits there. -/
structure Neutral (q : Parser) : Prop extends q.toState.Neutral where
  kind : q.builder.current.kind = .sourceFile
  outer : q.builder.outer = []
  field : q.builder.field = none

/-- The parsers with which items are called from one on, and the parser at the end of the input. -/
inductive Calls (rules : Rules) : Parser → List Parser → Parser → Prop
  | stop {q : Parser} : q.front = .endOfInput → Calls rules q [] q
  | call {q last : Parser} {parsers : List Parser} : q.front ≠ .endOfInput →
      Calls rules (item rules q).2 parsers last → Calls rules q (q :: parsers) last

/-- The parser in front of the first item: behind the shebang line, if there is one. -/
def firstItem (limit : Nat) (source : Text) : Parser :=
  (fileShebang (rulesFor limit source) (ofText source)).2

section Calls

variable {rules : Rules} {q last : Parser} {parsers : List Parser}

/-- What each item keeps holds at all calls. -/
theorem Calls.forall_mem {P : Parser → Prop} (calls : Calls rules q parsers last) (start : P q)
    (step : ∀ r, P r → r.front ≠ .endOfInput → P (item rules r).2) :
    ∀ r ∈ parsers, P r ∧ r.front ≠ .endOfInput := by
  induction calls with
  | stop => exact fun _ hmem => absurd hmem List.not_mem_nil
  | @call q last parsers hne _ ih =>
    exact List.forall_mem_cons.2 ⟨⟨start, hne⟩, ih (step q start hne)⟩

theorem isAt_bind {α : Type} (kind : Token.Kind) (g : Bool → Action α) (q : Parser) :
    (liftM (Grammar.isAt kind) >>= g) q = g (q.front == kind) q := rfl

theorem bind_apply {α β : Type} (a : Action α) (g : α → Action β) (q : Parser) :
    (a >>= g) q = g (a q).1 (a q).2 := rfl

theorem loop_fileStep (fuel : Nat) (q : Parser) :
    (loop (fileStep rules) (fuel + 1) () q).2 =
      if q.front = .endOfInput then q else (loop (fileStep rules) fuel () (item rules q).2).2 := by
  rw [loop, bind_apply, fileStep, isAt_bind]
  by_cases hend : q.front = .endOfInput
  · rw [if_pos (beq_iff_eq.2 hend), if_pos hend]
    rfl
  · rw [if_neg (by rwa [beq_iff_eq]), if_neg hend]
    rfl

/-- A loop that did not run out of its budget has called items up to the end of the input. -/
theorem exists_calls_of_loop {fuel : Nat}
    (hlive : (loop (fileStep rules) fuel () q).2.exhausted = false) :
    ∃ parsers, Calls rules q parsers (loop (fileStep rules) fuel () q).2 := by
  induction fuel generalizing q with
  -- A loop without budget would have left its mark.
  | zero => cases hlive
  | succ fuel ih =>
    rw [loop_fileStep] at hlive ⊢
    split at hlive
    · next hend =>
      rw [if_pos hend]
      exact ⟨[], .stop hend⟩
    · next hend =>
      rw [if_neg hend]
      obtain ⟨parsers, calls⟩ := ih hlive
      exact ⟨q :: parsers, .call hend calls⟩

end Calls

theorem file_apply (rules : Rules) (q : Parser) :
    (file rules q).2 =
      (flushTrivia (loop (fileStep rules) rules.budget () (fileShebang rules q).2).2).2 := rfl

theorem exhausted_flushTrivia (q : Parser) : (flushTrivia q).2.exhausted = q.exhausted := rfl

/-- Reading a source calls items up to its end. -/
theorem exists_calls (limit : Nat) (source : Text) :
    ∃ parsers last, Calls (rulesFor limit source) (firstItem limit source) parsers last ∧
      run limit source = (flushTrivia last).2 := by
  have hlive : (run limit source).exhausted = false := by
    obtain ⟨nodes, s, -, hgrammar, hrun⟩ := run_holding limit source
    have hgrammar' := Grammar.exhausted_run limit source
    rw [hgrammar] at hgrammar'
    rw [hrun]
    exact hgrammar'
  unfold run at hlive ⊢
  rw [file_apply] at hlive ⊢
  rw [exhausted_flushTrivia] at hlive
  obtain ⟨parsers, calls⟩ := exists_calls_of_loop hlive
  exact ⟨parsers, _, calls, rfl⟩

section Resting

variable {limit bound : Nat} {q : Parser}

/-- Between two items the builder holds nodes of the root, and reading goes on outside of everything. -/
def Resting (limit bound : Nat) (q : Parser) : Prop :=
  ∃ nodes s, q = holding (.ofRoot .sourceFile) nodes none s ∧ Between limit bound s ∧
    (s.front ≠ .endOfInput → sheltered.inv .outer s)

theorem Resting.neutral (resting : Resting limit bound q) (hne : q.front ≠ .endOfInput) :
    q.Neutral := by
  obtain ⟨nodes, s, rfl, between, hinv⟩ := resting
  exact ⟨Grammar.neutral_of_sheltered between (hinv hne), rfl, rfl, rfl⟩

variable {rules : Rules} {productions : Grammar.Rules}

/-- An item is built as it is returned, and then the builder holds its nodes as well. -/
theorem Resting.item (resting : Resting productions.limit bound q) (ties : rules.Ties productions)
    (serves : Grammar.Serves productions bound) (pairs : sheltered.Pairs productions productions)
    (hne : q.front ≠ .endOfInput) :
    Resting productions.limit bound (item rules q).2 ∧ (Parser.item rules q).2.Neutral := by
  obtain ⟨nodes, s, rfl, between, hinv⟩ := resting
  have hafter := between.item serves hne
  have hshelter : sheltered.inv .outer (Grammar.item productions s).2 :=
    (Grammar.lawful_sheltered.item rfl rfl pairs rfl (hinv hne)).1
  obtain ⟨-, hrun⟩ := ties.item between.entry.wellFormed
  obtain ⟨-, heq⟩ := hrun hafter.live
  rw [heq]
  -- The builder holds more nodes, and is otherwise the one with which the item was called.
  exact ⟨⟨_, _, rfl, hafter, fun _ => hshelter⟩, Grammar.neutral_of_sheltered hafter hshelter, rfl, rfl, rfl⟩

end Resting

section Source

variable (limit : Nat) (source : Text) {bound : Nat}

theorem pairs_rulesFor {z : Grammar.Simulation} (lawful : z.Lawful) :
    z.Pairs (Grammar.rulesFor limit source) (Grammar.rulesFor limit source) :=
  lawful.pairs_tie (Nat.le_refl limit) (.inl rfl) (Nat.le_refl _)

/-- In front of the first item the builder holds the shebang line, if there is one. -/
theorem resting_firstItem (hbound : Grammar.budgetFor source.length = bound + 1) :
    Resting limit bound (firstItem limit source) := by
  have between := Grammar.between_firstItem limit source hbound
  obtain ⟨-, hrun⟩ := (ties_tie limit (Grammar.budgetFor source.length)).fileShebang
    (s := .ofText source) (Scanner.wellFormed_ofText source)
  obtain ⟨-, heq⟩ := hrun between.live
  refine ⟨_, _, heq (.ofRoot .sourceFile) [], between, ?_⟩
  exact Grammar.sheltered_fileShebang (pairs_rulesFor limit source)
    (Grammar.serves_rulesFor limit hbound) (hbound ▸ Grammar.entry_ofText limit source)

/-- Whenever an item is called, and whenever it returns, all that productions raise and lower is at its start,
only the root is open in the builder, and no field waits, whatever was read or recovered from. The calls are
those with which the tree of the source is put together. -/
theorem items_neutral :
    ∃ parsers last, Calls (rulesFor limit source) (firstItem limit source) parsers last ∧
      run limit source = (flushTrivia last).2 ∧
      (∀ q ∈ parsers, q.Neutral ∧ (item (rulesFor limit source) q).2.Neutral) ∧
      tree limit source = parse limit source := by
  obtain ⟨parsers, last, calls, hrun⟩ := exists_calls limit source
  obtain ⟨bound, hbound⟩ := Grammar.exists_bound source
  have hitem : ∀ q, Resting limit bound q → q.front ≠ .endOfInput →
      Resting limit bound (item (rulesFor limit source) q).2 ∧
        (item (rulesFor limit source) q).2.Neutral := fun q resting hne =>
    resting.item (ties_tie limit _) (Grammar.serves_rulesFor limit hbound)
      (pairs_rulesFor limit source Grammar.lawful_sheltered) hne
  have hcalls := calls.forall_mem (resting_firstItem limit source hbound) fun q resting hne =>
    (hitem q resting hne).1
  refine ⟨parsers, last, calls, hrun, fun q hmem => ?_, tree_eq limit source⟩
  obtain ⟨resting, hne⟩ := hcalls q hmem
  exact ⟨resting.neutral hne, (hitem q resting hne).2⟩

end Source

end Parser

end Justfile
