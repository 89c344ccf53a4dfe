import Justfile.Proofs.Printed.Header
import Justfile.Proofs.Printed.Lines
import Justfile.Proofs.Reading.Combinator

/-!
# Reading printed bodies

A printed recipe is read as its layout, with its body or without one (`recipe_draws`). In a body a
place is more than the text that is left: a line starts, its text starts, or it ends (`LineStart`,
`LineText`, `LineEnd`). `Moves P Q kind word` says that the next token leads from one place to
another; the lemmas about it turn the cuts of the scanner into steps of the productions.
-/

set_option autoImplicit false

namespace Justfile.Grammar

open Scanner Printed Layout

/-! ## Tokens between places -/

/-- The next token is of the kind and takes the word; taking it leads from one place to another. -/
def Moves (P Q : State → Prop) (kind : Token.Kind) (word : Text) : Prop :=
  ∀ s, P s → s.step.1.kind = kind ∧
    s.step.1.span = ⟨s.stream.offset, s.stream.offset + word.byteSize⟩ ∧
    s.step.2.offset = s.stream.offset + word.byteSize ∧ Q s.taken

section Moves

variable {P Q R : State → Prop} {kind second : Token.Kind} {word : Text}

/-- Taking a token that is no fault reports nothing. -/
theorem taken_eq {s : State} (h : s.step.1.kind.isErrorRecovery = false) :
    s.taken = { s with
      stream := { s.stream with scanner := s.step.2 }, consumed := s.step.1 :: s.consumed } := by
  unfold State.taken State.take
  split
  · next heq =>
    rw [heq] at h
    cases h
  · rfl

theorem Moves.passes (h : Moves P Q kind word) (hkind : kind.isErrorRecovery = false) {s : State}
    (hs : P s) : Passes word s s.taken := by
  obtain ⟨hstep, -, hoffset, -⟩ := h s hs
  rw [taken_eq (by rw [hstep]; exact hkind)]
  exact ⟨hoffset, rfl, rfl⟩

theorem Moves.flush (h : Moves P Q kind word) (hflush : ∀ s, P s → s.stream.isTrivia kind = false)
    {s : State} (hs : P s) : s.stream.Flush := by
  unfold Stream.Flush
  rw [show s.stream.step.1.kind = kind from (h s hs).1]
  exact hflush s hs

theorem Moves.front (h : Moves P Q kind word) (hflush : ∀ s, P s → s.stream.isTrivia kind = false)
    {s : State} (hs : P s) : s.front = kind :=
  (front_of_flush (h.flush hflush hs)).trans (h s hs).1

/-- A token that counts is consumed. -/
theorem Moves.bump (h : Moves P Q kind word) (hregular : kind.isRegular = true)
    (hflush : ∀ s, P s → s.stream.isTrivia kind = false) (field : Option Field) :
    Draws P Q (bump field) (leaf field kind word) := by
  intro s hs
  obtain ⟨-, hend, hfault⟩ := (Token.Kind.isRegular_iff kind).1 hregular
  obtain ⟨hkind, hspan, -, hQ⟩ := h s hs
  have hfront : s.front ≠ .endOfInput := by
    rw [h.front hflush hs]
    exact hend
  obtain ⟨hnone, hflushed⟩ := flushed_of_flush (h.flush hflush hs)
  have hpass := h.passes hfault hs
  have hleaf : Node.ofToken field s.step.1 =
      .leaf field (.ofToken kind) ⟨s.stream.offset, s.stream.offset + word.byteSize⟩ := by
    rw [Node.ofToken, hkind, hspan]
  unfold Ensures Grammar.bump
  rw [bumpAs_eq field none s hfront, hflushed, hnone]
  exact ⟨congrArg ([·]) hleaf, hQ, hpass⟩

/-- White space in front of a token that counts. -/
theorem Moves.flushed (h : Moves P Q .whitespace word) (hrest : ∀ s, P s → s.scanner.rest ≠ [])
    (hflush : ∀ s, Q s → s.stream.Flush) {s : State} (hs : P s) :
    s.stream.takeTrivia.1 = [s.step.1] ∧ s.flushed = s.taken := by
  obtain ⟨hkind, -, -, hQ⟩ := h s hs
  have htrivia : s.stream.isTrivia s.step.1.kind = true := by
    rw [hkind]
    rfl
  rw [taken_eq (by rw [hkind]; rfl)]
  exact flushed_of_step (hrest s hs) htrivia (hflush _ hQ)

theorem Moves.trivia (h : Moves P Q .whitespace word) (hrest : ∀ s, P s → s.scanner.rest ≠ [])
    (hword : word ≠ []) (hflush : ∀ s, Q s → s.stream.Flush) : Draws P Q trivia (gap word) := by
  intro s hs
  obtain ⟨hnodes, hflushed⟩ := h.flushed hrest hflush hs
  obtain ⟨hkind, hspan, -, hQ⟩ := h s hs
  have hpass := h.passes rfl hs
  have hleaf : Node.ofToken none s.step.1 =
      .leaf none (.ofToken .whitespace) ⟨s.stream.offset, s.stream.offset + word.byteSize⟩ := by
    rw [Node.ofToken, hkind, hspan]
  have hgap : gap word = leaf none .whitespace word := by
    cases word with
    | nil => exact absurd rfl hword
    | cons c rest => rfl
  unfold Ensures
  rw [trivia_eq, hnodes, hflushed, hgap]
  exact ⟨congrArg ([·]) hleaf, hQ, hpass⟩

/-- A look sees the token behind white space. -/
theorem Moves.front_behind (h : Moves P Q .whitespace word)
    (hrest : ∀ s, P s → s.scanner.rest ≠ []) (hflush : ∀ s, Q s → s.stream.Flush) {s : State}
    (hs : P s) : s.front = s.taken.step.1.kind := by
  obtain ⟨-, hflushed⟩ := h.flushed hrest hflush hs
  change s.flushed.step.1.kind = _
  rw [hflushed]

end Moves

/-! ## Places of a body -/

/-- In a body with a width, with a text left. -/
structure InBody (width : Nat) (text : Text) (s : State) : Prop where
  ready : s.scanner.Ready
  rest : s.scanner.rest = text
  levels : s.scanner.levels = [width]
  mode : s.stream.mode = .body
  nesting : s.stream.nesting = 0
  depth : s.depth = 0

/-- The text is that of a line that a body can start with, behind the indentation. -/
def StartsBody (indent : Indent) (text : Text) : Prop :=
  ∃ (line : Line) (after : Text), text = indent.text ++ (line.text ++ '\n' :: after) ∧ line.Opens

/-- Where a line of a body starts. -/
structure LineStart (indent : Indent) (text : Text) (s : State) : Prop
    extends InBody indent.text.length text s where
  start : s.scanner.previous = some '\n'
  first : s.scanner.firstBodyLine = true → StartsBody indent text

/-- Where the text of a line starts. -/
structure LineText (indent : Indent) (text : Text) (s : State) : Prop
    extends InBody indent.text.length text s where
  within : s.scanner.atLineStart = false
  content : s.scanner.lineContent = some s.scanner.offset
  first : s.scanner.firstBodyLine = true → ['#', '!'].isPrefixOf text = false

/-- Where a line ends. -/
structure LineEnd (indent : Indent) (text : Text) (s : State) : Prop
    extends InBody indent.text.length text s where
  later : s.scanner.firstBodyLine = false

section Places

variable {indent : Indent} {line : Line} {text after word : Text} {width : Nat} {s : State}
  {kind : Token.Kind} {content : Option Nat} {first : Bool}

/-- A token of a line takes its word, and the body stays open. -/
structure Emitted (width : Nat) (kind : Token.Kind) (word after : Text) (content : Option Nat)
    (first : Bool) (s : State) : Prop where
  kind : s.step.1.kind = kind
  span : s.step.1.span = ⟨s.stream.offset, s.stream.offset + word.byteSize⟩
  offset : s.step.2.offset = s.stream.offset + word.byteSize
  inside : InBody width after s.taken
  base : s.step.2.base = s.scanner.base
  previous : s.step.2.previous = word.getLast?.or s.scanner.previous
  content : s.step.2.lineContent = content
  first : s.step.2.firstBodyLine = first

/-- What the scanner remembers of the line is all that changes, apart from the place. -/
theorem InBody.emitted (h : InBody width (word ++ after) s)
    (hstep : s.scanner.next .body =
      { s.scanner with lineContent := content, firstBodyLine := first }.emit kind word.length) :
    Emitted width kind word after content first s := by
  have hrest : { s.scanner with lineContent := content, firstBodyLine := first }.rest =
      word ++ after := h.rest
  have hnext : s.step = s.scanner.next .body := by
    change s.scanner.next s.stream.mode = _
    rw [h.mode]
  rw [← hnext, emit_eq _ hrest] at hstep
  refine ⟨?_, ?_, ?_, ⟨?_, ?_, ?_, h.mode, h.nesting, h.depth⟩, ?_, ?_, ?_, ?_⟩
  · rw [hstep]
  · rw [hstep]
    rfl
  · rw [hstep]
    rfl
  · change s.step.2.Ready
    rw [hstep]
    exact ⟨h.ready.queued, Nat.le_trans h.ready.base_le (Nat.le_add_right _ _),
      h.ready.pendingDedents, h.ready.pendingFault⟩
  · change s.step.2.rest = after
    rw [hstep]
  · change s.step.2.levels = [width]
    rw [hstep]
    exact h.levels
  all_goals rw [hstep]

theorem LineStart.startsLine (h : LineStart indent text s) : s.scanner.atLineStart = true := by
  simp [atLineStart, h.start]

theorem moves_indentation :
    Moves (LineStart indent (indent.text ++ (line.text ++ '\n' :: after)))
      (LineText indent (line.text ++ '\n' :: after)) .whitespace indent.text := by
  intro s hs
  have h := hs.toInBody.emitted (hs.ready.body_indentation hs.levels hs.startsLine hs.rest)
  have hpos := indent.pos
  have hbase := hs.ready.base_le
  -- The line goes on behind a blank, which is neither a line break nor at the start of the file.
  have hblank : s.step.2.previous ≠ some '\n' := by
    have hb := indent.blank _ (List.getLast_mem indent.nonempty)
    rw [h.previous, List.getLast?_eq_some_getLast indent.nonempty, Option.some_or]
    intro heq
    rw [Option.some.inj heq] at hb
    cases hb
  have hoffset : s.step.2.offset ≠ s.step.2.base := by
    rw [h.offset, h.base, indent.byteSize]
    change s.scanner.offset + _ ≠ _
    omega
  refine ⟨h.kind, h.span, h.offset, h.inside, ?_, ?_, ?_⟩
  · change s.step.2.atLineStart = false
    simp [atLineStart, hblank, hoffset]
  · change s.step.2.lineContent = some s.step.2.offset
    rw [h.content, h.offset, indent.byteSize]
    rfl
  · intro hfirst
    obtain ⟨line', after', htext, hopens⟩ := hs.first (h.first.symm.trans hfirst)
    rw [List.append_cancel_left htext]
    exact hopens.not_shebang after'

theorem moves_text :
    Moves (LineText indent (line.text ++ '\n' :: after)) (LineEnd indent ('\n' :: after)) .text
      line.text := by
  intro s hs
  have hfirst : s.scanner.firstBodyLine = true → ['#', '!'].isPrefixOf s.scanner.rest = false := by
    rw [hs.rest]
    exact hs.first
  have h := hs.toInBody.emitted (hs.ready.body_text hs.within hs.content hs.rest hfirst)
  exact ⟨h.kind, h.span, h.offset, h.inside, h.first⟩

theorem moves_newline :
    Moves (LineEnd indent ('\n' :: after)) (LineStart indent after) .newline ['\n'] := by
  intro s hs
  obtain ⟨content, first, hfirst, hnext⟩ := hs.ready.body_newline hs.rest
  have hin : InBody indent.text.length (['\n'] ++ after) s := hs.toInBody
  have h := hin.emitted hnext
  refine ⟨h.kind, h.span, h.offset, h.inside, h.previous, ?_⟩
  intro htrue
  have hflag := hfirst (h.first.symm.trans htrue)
  rw [hs.later] at hflag
  cases hflag

theorem moves_empty :
    Moves (LineStart indent ('\n' :: after)) (LineStart indent after) .newline ['\n'] := by
  intro s hs
  obtain ⟨content, first, hfirst, hnext⟩ := hs.ready.body_newline hs.rest
  have hin : InBody indent.text.length (['\n'] ++ after) s := hs.toInBody
  have h := hin.emitted hnext
  refine ⟨h.kind, h.span, h.offset, h.inside, h.previous, ?_⟩
  -- An empty line is never the first one.
  intro htrue
  obtain ⟨line, after', htext, -⟩ := hs.first (hfirst (h.first.symm.trans htrue))
  obtain ⟨b, blanks, hblanks⟩ := List.exists_cons_of_ne_nil indent.nonempty
  have hb := indent.blank b (by rw [hblanks]; exact List.mem_cons_self)
  rw [hblanks] at htext
  obtain rfl := (List.cons.inj htext).1
  cases hb

/-- Below a header, where a line starts. -/
structure Below (a : Spot) (text : Text) (s : State) : Prop extends At a text s where
  start : s.scanner.previous = some '\n'

/-- Before a body, where empty lines are passed over. -/
def atBody : Spot := { mode := .bodyStart }

/-- Behind a body. -/
def afterBody : Spot := { mode := .body }

theorem moves_indent (hopens : line.Opens) :
    Moves (Below atBody (indent.text ++ (line.text ++ '\n' :: after)))
      (fun t => LineStart indent (indent.text ++ (line.text ++ '\n' :: after)) (t.inMode .body))
      .indent [] := by
  intro s hs
  have hstep : s.step =
      (s.scanner.mark .indent (some indent.text.length),
        { s.scanner with levels := [indent.text.length], firstBodyLine := true }) := by
    change s.scanner.next s.stream.mode = _
    rw [hs.mode]
    exact hs.ready.bodyStart_indent hs.levels hs.rest hopens
  refine ⟨by rw [hstep]; rfl, by rw [hstep]; rfl, by rw [hstep]; rfl,
    ⟨⟨?_, ?_, ?_, rfl, hs.nesting, hs.depth⟩, ?_, fun _ => ⟨line, after, rfl, hopens⟩⟩⟩
  · change s.step.2.Ready
    rw [hstep]
    exact ⟨hs.ready.queued, hs.ready.base_le, hs.ready.pendingDedents, hs.ready.pendingFault⟩
  · change s.step.2.rest = _
    rw [hstep]
    exact hs.rest
  · change s.step.2.levels = _
    rw [hstep]
  · change s.step.2.previous = _
    rw [hstep]
    exact hs.start

theorem moves_dedent (hresumes : Resumes text) :
    Moves (LineStart indent text) (At afterBody text) .dedent [] := by
  intro s hs
  have hlevels := hs.levels
  obtain ⟨width, hnext⟩ := hs.ready.body_dedent indent.pos hlevels hs.startsLine
    (by rw [hs.rest]; exact hresumes)
  have hstep : s.step = (s.scanner.mark .dedent width, { s.scanner with levels := [] }) := by
    change s.scanner.next s.stream.mode = _
    rw [hs.mode]
    exact hnext
  refine ⟨by rw [hstep]; rfl, by rw [hstep]; rfl, by rw [hstep]; rfl,
    ⟨?_, ?_, ?_, hs.mode, hs.nesting, hs.depth⟩⟩
  · change s.step.2.Ready
    rw [hstep]
    exact ⟨hs.ready.queued, hs.ready.base_le, hs.ready.pendingDedents, hs.ready.pendingFault⟩
  · change s.step.2.rest = _
    rw [hstep]
    exact hs.rest
  · change s.step.2.levels = _
    rw [hstep]

/-- The line break at the end of a header. -/
theorem moves_headerEnd (rest : Text) :
    Moves (At {} ('\n' :: rest)) (Below {} rest) .newline ['\n'] := by
  intro s (hs : At {} (['\n'] ++ rest) s)
  have cut : Cut .normal .newline ['\n'] rest := cut_newline rest
  have htoken := hs.token cut
  obtain ⟨hat, hpass⟩ := hs.take cut s.step.1 (by rw [htoken]; rfl)
  obtain ⟨flag, hstep⟩ := hs.step cut
  refine ⟨by rw [htoken], by rw [htoken], hpass.offset, hat, ?_⟩
  change s.step.2.previous = _
  rw [hstep, emit_eq { s.scanner with literalClosed := flag } hs.rest]
  rfl

/-! ## Below a header without a body -/

/-- What follows a declaration is looked at as at item level, also below a header. -/
theorem At.front_resumes {a : Spot} (h : At a text s) (hmode : a.mode = .normal ∨ a.mode = .bodyStart)
    (hresumes : Resumes text) :
    s.stream.Flush ∧ (s.step.1.kind = .endOfInput ∨ s.step.1.kind = .identifier) := by
  have hrest : Resumes s.scanner.rest := by
    rw [h.rest]
    exact hresumes
  have hstep : s.step = s.scanner.next .normal := by
    change s.scanner.next s.stream.mode = _
    rw [h.mode]
    rcases hmode with hmode | hmode
    · rw [hmode]
    · rw [hmode]
      exact h.ready.bodyStart_resumes hrest
  have hkind := h.ready.next_resumes hrest
  rw [← hstep] at hkind
  refine ⟨?_, hkind⟩
  unfold Stream.Flush
  change s.stream.isTrivia s.step.1.kind = false
  rcases hkind with hkind | hkind <;> rw [hkind] <;> rfl

theorem moves_blank (count : Nat) (hresumes : Resumes text) :
    Moves (At atBody (List.replicate (count + 1) '\n' ++ text)) (At atBody text) .whitespace
      (List.replicate (count + 1) '\n') := by
  intro s hs
  have hstep : s.step = s.scanner.emit .whitespace (List.replicate (count + 1) '\n').length := by
    change s.scanner.next s.stream.mode = _
    rw [hs.mode, List.length_replicate]
    exact hs.ready.bodyStart_blank hs.rest hresumes
  rw [emit_eq s.scanner hs.rest] at hstep
  refine ⟨by rw [hstep], by rw [hstep]; rfl, by rw [hstep]; rfl, ⟨?_, ?_, ?_, hs.mode, hs.nesting,
    hs.depth⟩⟩
  · change s.step.2.Ready
    rw [hstep]
    exact ⟨hs.ready.queued, Nat.le_trans hs.ready.base_le (Nat.le_add_right _ _),
      hs.ready.pendingDedents, hs.ready.pendingFault⟩
  · change s.step.2.rest = _
    rw [hstep]
  · change s.step.2.levels = _
    rw [hstep]
    exact hs.levels

/-- Empty lines and what follows them open no body. -/
theorem front_ne_indent {count : Nat} (hresumes : Resumes text)
    (h : At atBody (List.replicate count '\n' ++ text) s) : s.front ≠ .indent := by
  have hkind : ∀ {t : State}, At atBody text t → t.stream.Flush ∧ t.step.1.kind ≠ .indent := by
    intro t ht
    obtain ⟨hflush, hkind⟩ := ht.front_resumes (.inr rfl) hresumes
    refine ⟨hflush, ?_⟩
    rcases hkind with hkind | hkind <;> rw [hkind] <;> nofun
  cases count with
  | zero =>
    rw [front_of_flush (hkind h).1]
    exact (hkind h).2
  | succ count =>
    have hrest : ∀ s : State, At atBody (List.replicate (count + 1) '\n' ++ text) s →
        s.scanner.rest ≠ [] := by
      intro s hs
      rw [hs.rest]
      nofun
    have hmoves := moves_blank count hresumes
    rw [hmoves.front_behind hrest (fun s hs => (hkind hs).1) h]
    exact (hkind (hmoves s h).2.2.2).2

end Places

/-! ## Lines -/

section Lines

variable {rules : Rules} {indent : Indent} {line : Line} {rest after : Text}

/-- Outside brackets a line break counts. -/
theorem InBody.not_isTrivia {width : Nat} {text : Text} {s : State} (h : InBody width text s)
    {kind : Token.Kind} (hkind : kind.isTrivia = false) : s.stream.isTrivia kind = false := by
  simp [Stream.isTrivia, hkind, h.nesting]

theorem trivia_idle {P : State → Prop} (hflush : ∀ s, P s → s.stream.Flush) :
    Draws P P trivia .empty := by
  intro s hs
  obtain ⟨hnone, hflushed⟩ := flushed_of_flush (hflush s hs)
  unfold Ensures
  rw [trivia_eq, hnone, hflushed]
  exact ⟨rfl, hs, .refl s⟩

/-- Where the text of a line starts, it is next. -/
theorem LineText.sees {s : State} (h : LineText indent (line.text ++ '\n' :: after) s) :
    s.stream.Flush ∧ s.front = .text :=
  ⟨moves_text.flush (fun _ hs => hs.not_isTrivia rfl) h,
    moves_text.front (fun _ hs => hs.not_isTrivia rfl) h⟩

/-- Where a line ends, its line break is next. -/
theorem LineEnd.front {s : State} (h : LineEnd indent ('\n' :: after) s) : s.front = .newline :=
  moves_newline.front (fun _ hs => hs.not_isTrivia rfl) h

theorem LineStart.rest_ne_nil {s : State}
    (h : LineStart indent (indent.text ++ (line.text ++ '\n' :: after)) s) :
    s.scanner.rest ≠ [] := by
  rw [h.rest]
  exact List.append_ne_nil_of_left_ne_nil indent.nonempty _

/-- Where a line starts, a look goes past its indentation. -/
theorem LineStart.front {s : State}
    (h : LineStart indent (indent.text ++ (line.text ++ '\n' :: after)) s) : s.front = .text := by
  have hmoves : Moves _ (LineText indent (line.text ++ '\n' :: after)) _ _ := moves_indentation
  rw [hmoves.front_behind (fun _ hs => hs.rest_ne_nil) (fun _ hs => hs.sees.1) h]
  exact (moves_text _ (hmoves s h).2.2.2).1

theorem recipeLine_draws (hbudget : 2 ≤ rules.budget) :
    Draws (LineStart indent (indent.text ++ (line.text ++ '\n' :: after)))
      (LineEnd indent ('\n' :: after)) (recipeLine rules)
      (gap indent.text ++ group none .recipeLine (leaf none .text line.text)) := by
  obtain ⟨fuel, hfuel⟩ : ∃ fuel, rules.budget = fuel + 2 := ⟨rules.budget - 2, by omega⟩
  have htrivia := moves_indentation.trivia (fun _ hs => hs.rest_ne_nil) indent.nonempty
    (fun s (hs : LineText indent (line.text ++ '\n' :: after) s) => hs.sees.1)
  refine branch_yields none .recipeLine htrivia ?_
  refine .skip (bumpIf_idle (fun s hs => hs.sees.2) (by nofun)) ?_
  refine .last ?_ fun _ => rfl
  have hstep : Yields (LineText indent (line.text ++ '\n' :: after))
      (LineEnd indent ('\n' :: after)) (recipeLineStep rules ()) (·, some ()) []
      (leaf none .text line.text) := by
    unfold recipeLineStep
    refine .peek (fun s hs => hs.sees.2) ?_
    exact .last (moves_text.bump rfl (fun _ hs => hs.not_isTrivia rfl) none) fun _ => rfl
  have hend : Yields (LineEnd indent ('\n' :: after)) (LineEnd indent ('\n' :: after))
      (recipeLineStep rules ()) (·, none) [] .empty := by
    unfold recipeLineStep
    refine .peek (fun s hs => hs.front) ?_
    exact .pure rfl
  rw [hfuel, ← append_empty (leaf none .text line.text)]
  exact loop_again hstep (loop_done hend fuel)

/-! ### The steps of a body -/

theorem recipeBodyStep_line (hbudget : 2 ≤ rules.budget) :
    Yields (LineStart indent (indent.text ++ (line.text ++ '\n' :: after))) (LineStart indent after)
      (recipeBodyStep rules ()) (·, some ()) [] (lineLayout indent line) := by
  unfold recipeBodyStep
  refine .peek (fun s hs => hs.front) ?_
  refine .bind (recipeLine_draws hbudget) fun nodes => ?_
  refine .last ?_ fun _ => rfl
  refine .isAt (fun s hs => hs.front) ?_
  rw [beq_self_eq_true]
  exact moves_newline.bump rfl (fun _ hs => hs.not_isTrivia rfl) none

theorem recipeBodyStep_empty :
    Yields (LineStart indent ('\n' :: after)) (LineStart indent after)
      (recipeBodyStep rules ()) (·, some ()) [] newline := by
  have hflush : ∀ s, LineStart indent ('\n' :: after) s → s.stream.isTrivia .newline = false :=
    fun _ hs => hs.not_isTrivia rfl
  unfold recipeBodyStep
  refine .peek (fun s hs => moves_empty.front hflush hs) ?_
  exact .last (moves_empty.bump rfl hflush none) fun _ => rfl

theorem recipeBodyStep_end (hresumes : Resumes rest) :
    Yields (LineStart indent rest) (At afterBody rest) (recipeBodyStep rules ()) (·, none) []
      (leaf none .dedent []) := by
  have hflush : ∀ s, LineStart indent rest s → s.stream.isTrivia .dedent = false :=
    fun _ hs => hs.not_isTrivia rfl
  have hmoves : Moves (LineStart indent rest) _ _ _ := moves_dedent hresumes
  unfold recipeBodyStep
  refine .peek (fun s hs => hmoves.front hflush hs) ?_
  exact .last (hmoves.bump rfl hflush none) fun _ => rfl

/-- Line breaks, each read by a step, and then whatever the loop goes on with. -/
theorem loop_newlines {σ : Type} {P : Text → State → Prop} {R : State → Prop}
    {step : σ → Parse (Forest × Option σ)} {memory : σ} {y : Layout}
    (hstep : ∀ text, Yields (P ('\n' :: text)) (P text) (step memory) (·, some memory) [] newline)
    {fuel : Nat} (hend : Draws (P rest) R (loop step fuel memory) y) (count : Nat) :
    Draws (P (List.replicate count '\n' ++ rest)) R (loop step (fuel + count) memory)
      (newlines count ++ y) := by
  induction count with
  | zero => exact hend
  | succ count ih =>
    have hlayout : newlines (count + 1) ++ y = newline ++ (newlines count ++ y) := by
      rw [newlines, List.replicate_succ, concat, Layout.append_assoc]
      rfl
    rw [hlayout]
    exact loop_again (hstep _) ih

/-- All of a body behind its opening: its lines, the empty ones at its end, and the end. -/
theorem bodyLoop_draws (indent : Indent) (lines : List Line) (count : Nat) (hresumes : Resumes rest)
    (hbudget : lines.length + count + 2 ≤ rules.budget) :
    Draws (LineStart indent (printLines indent lines ++ (List.replicate count '\n' ++ rest)))
      (At afterBody rest) (loop (recipeBodyStep rules) rules.budget ())
      (linesLayout indent lines ++ (newlines count ++ leaf none .dedent [])) := by
  obtain ⟨fuel, hfuel⟩ : ∃ fuel, rules.budget = fuel + 1 + count + lines.length :=
    ⟨rules.budget - 1 - count - lines.length, by omega⟩
  have hend : Draws (LineStart indent rest) (At afterBody rest)
      (loop (recipeBodyStep rules) (fuel + 1) ()) (leaf none .dedent []) :=
    loop_done (recipeBodyStep_end hresumes) fuel
  have hempty := loop_newlines (P := LineStart indent) (fun _ => recipeBodyStep_empty) hend count
  rw [hfuel]
  refine loop_concat (lineLayout indent)
    (fun lines => LineStart indent
      (printLines indent lines ++ (List.replicate count '\n' ++ rest))) ?_ hempty lines
  intro line more
  have htext : printLines indent (line :: more) ++ (List.replicate count '\n' ++ rest) =
      indent.text ++ (line.text ++
        '\n' :: (printLines indent more ++ (List.replicate count '\n' ++ rest))) := by
    simp [printLines]
  rw [htext]
  exact recipeBodyStep_line (by omega)

end Lines

/-! ## Recipes -/

section Recipe

variable {rules : Rules} {indent : Indent} {rest : Text}

/-- A body is read from below the header to its end. -/
theorem recipeBody_draws (indent : Indent) {line : Line} (lines : List Line) (count : Nat) (hopens : line.Opens)
    (hresumes : Resumes rest) (hbudget : (line :: lines).length + count + 2 ≤ rules.budget) :
    Draws
      (Below atBody (printLines indent (line :: lines) ++ (List.replicate count '\n' ++ rest)))
      (At afterBody rest) (recipeBody rules) (bodyLayout indent (line :: lines) count) := by
  let after := printLines indent lines ++ (List.replicate count '\n' ++ rest)
  have htext : printLines indent (line :: lines) ++ (List.replicate count '\n' ++ rest) =
      indent.text ++ (line.text ++ '\n' :: after) := by
    simp [printLines, after]
  have hmoves : Moves (Below atBody (indent.text ++ (line.text ++ '\n' :: after))) _ _ _ :=
    moves_indent hopens
  have hflush : ∀ s, Below atBody (indent.text ++ (line.text ++ '\n' :: after)) s →
      s.stream.isTrivia .indent = false := fun _ _ => rfl
  have hbody := bodyLoop_draws indent (line :: lines) count hresumes hbudget
  rw [htext] at hbody ⊢
  refine branch_yields (some .body) .recipeBody (trivia_idle fun s hs => hmoves.flush hflush hs) ?_
  refine .bind (hmoves.bump rfl hflush none) fun opened => ?_
  refine .change (fun s hs => ⟨hs, ⟨rfl, rfl, rfl⟩⟩) ?_
  have hshebang : Draws (LineStart indent (indent.text ++ (line.text ++ '\n' :: after)))
      (LineStart indent (indent.text ++ (line.text ++ '\n' :: after))) (bodyShebang rules)
      .empty := by
    refine .isAt (fun s hs => hs.front) ?_
    exact .pure rfl
  refine .skip hshebang ?_
  exact .last hbody fun lines =>
    congrArg (fun front => pure (front ++ lines)) (List.append_nil opened)

/-- The end of a header's line. -/
theorem headerEnd_draws (rest : Text) :
    Draws (At {} ('\n' :: rest)) (Below {} rest) (lineEnd rules) newline := by
  have hmoves := moves_headerEnd rest
  have hflush : ∀ s, At {} ('\n' :: rest) s → s.stream.isTrivia .newline = false := by
    intro s hs
    simp [Stream.isTrivia, hs.nesting, Token.Kind.isTrivia]
  unfold lineEnd
  refine .peek (fun s hs => hmoves.front hflush hs) ?_
  exact hmoves.bump rfl hflush none

/-- A recipe is its header, the end of the line, and what stands below. -/
theorem recipe_draws {header body : Layout} {text : Text} (opens : Bool) (mode : Mode)
    (hheader : Spells {} {} (recipeHeader rules) id [] header ('\n' :: text))
    (hopens : ∀ s, Below atBody text s → (s.front == .indent) = opens)
    (hbody : Draws (Below atBody text) (At { mode := mode } rest)
      (if opens then recipeBody rules else pure []) body) :
    Draws (At {} (header.text ++ '\n' :: text)) (At {} rest) (recipe rules [])
      (recipeLayout header body) := by
  have hnormal : ∀ nodes : Forest,
      Yields (At { mode := mode } rest) (At {} rest) (do setMode .normal; return nodes) id nodes
        .empty := by
    intro nodes
    refine .change (Q := At {} rest) ?_ (.pure rfl)
    intro s hs
    exact ⟨⟨hs.ready, hs.rest, hs.levels, rfl, hs.nesting, hs.depth⟩, ⟨rfl, rfl, rfl⟩⟩
  refine enclose_yields .recipe ?_
  refine .bind hheader fun nodes => ?_
  refine .bind (headerEnd_draws text) fun ending => ?_
  refine .change (Q := Below atBody text) ?_ ?_
  · intro s hs
    exact ⟨⟨⟨hs.ready, hs.rest, hs.levels, rfl, hs.nesting, hs.depth⟩, hs.start⟩, ⟨rfl, rfl, rfl⟩⟩
  refine .look opens (fun s hs => congrArg (·, s) (hopens s hs)) ?_
  rw [← append_empty body]
  cases opens with
  | false => exact .bind hbody fun body => hnormal _
  | true => exact .bind hbody fun body => hnormal _

end Recipe

end Justfile.Grammar
