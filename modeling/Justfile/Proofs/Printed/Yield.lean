import Justfile.Proofs.Printed.Cut
import Justfile.Proofs.Reading.Primitive

/-!
# Productions that read layouts

`Yields P Q p make front x` says what a production `p` does in front of the text of a layout `x`: it
returns the nodes of the layout, takes its text and nothing more, and reports nothing. `P` and `Q`
say where it is before and after; `front` are nodes that were made before it and `make` is what it
does with all of them at its end. So a production is gone through from its first step to its last,
with one rule for each step, and what it returns is the layout that is joined on the way.

Outside recipe bodies the two places are given by the text that is left (`At`); then `Spells` is
used. What a look sees is known from the text too (`Sees`).
-/

set_option autoImplicit false

namespace Justfile.Grammar

open Scanner

/-! ## Places -/

/-- The context of a place: how it is read, and the brackets and expressions around it. -/
structure Spot where
  mode : Mode := .normal
  nesting : Nat := 0
  depth : Nat := 0

/-- Nothing is decided ahead, no body is open, and the text is all that is left. -/
structure At (spot : Spot) (text : Text) (s : State) : Prop where
  ready : s.scanner.Ready
  rest : s.scanner.rest = text
  levels : s.scanner.levels = []
  mode : s.stream.mode = spot.mode
  nesting : s.stream.nesting = spot.nesting
  depth : s.depth = spot.depth

/-- A text has been taken, and nothing was wrong with it. -/
structure Passes (text : Text) (s t : State) : Prop where
  offset : t.stream.offset = s.stream.offset + text.byteSize
  reports : t.reports = s.reports
  exhausted : t.exhausted = s.exhausted

theorem Passes.refl (s : State) : Passes [] s s := ⟨rfl, rfl, rfl⟩

theorem Passes.trans {first second : Text} {s t u : State} (hfirst : Passes first s t)
    (hsecond : Passes second t u) : Passes (first ++ second) s u := by
  refine ⟨?_, hsecond.reports.trans hfirst.reports, hsecond.exhausted.trans hfirst.exhausted⟩
  rw [hsecond.offset, hfirst.offset, Text.byteSize_append, Nat.add_assoc]

/-! ## Productions -/

section Yields

variable {α β : Type} {P Q R : State → Prop} {make : Forest → β} {front : Forest} {x y : Layout}

/-- The production reads the layout on its way from one place to another. -/
def Yields (P Q : State → Prop) (p : Parse α) (make : Forest → α) (front : Forest) (x : Layout) :
    Prop :=
  ∀ s, P s → Ensures s p fun out t =>
    out = make (front ++ x.nodes s.stream.offset) ∧ Q t ∧ Passes x.text s t

/-- The production returns the nodes of the layout. -/
abbrev Draws (P Q : State → Prop) (p : Parse Forest) (x : Layout) : Prop := Yields P Q p id [] x

theorem Yields.bind {p : Parse Forest} {f : Forest → Parse β} (hp : Draws P Q p x)
    (hf : ∀ nodes, Yields Q R (f nodes) make (front ++ nodes) y) :
    Yields P R (p >>= f) make front (x ++ y) := by
  intro s hs
  refine (hp s hs).bind ?_
  rintro nodes t ⟨rfl, ht, hpass⟩
  refine (hf _ t ht).mono ?_
  rintro out u ⟨rfl, hu, hmore⟩
  refine ⟨?_, hu, hpass.trans hmore⟩
  rw [hpass.offset, Layout.nodes_append, List.append_assoc]
  rfl

/-- The last step of a production. -/
theorem Yields.last {p : Parse Forest} {f : Forest → Parse β} (hp : Draws P Q p x)
    (hf : ∀ nodes, f nodes = pure (make (front ++ nodes))) : Yields P Q (p >>= f) make front x := by
  intro s hs
  refine (hp s hs).bind ?_
  rintro nodes t ⟨rfl, ht, hpass⟩
  rw [hf]
  exact .pure ⟨rfl, ht, hpass⟩

theorem Yields.pure {out : β} (h : out = make front) :
    Yields P P (pure out) make front .empty := by
  intro s hs
  refine .pure ⟨?_, hs, .refl s⟩
  rw [h, Layout.nodes_empty, List.append_nil]

/-- A step that adds no nodes. -/
theorem Yields.skip {p : Parse Forest} {f : Forest → Parse β} (hp : Draws P Q p .empty)
    (hf : Yields Q R (f []) make front x) : Yields P R (p >>= f) make front x := by
  have hbind : Yields P R (p >>= f) make front (.empty ++ x) := by
    intro s hs
    refine (hp s hs).bind ?_
    rintro nodes t ⟨rfl, ht, hpass⟩
    refine (hf t ht).mono ?_
    rintro out u ⟨rfl, hu, hmore⟩
    refine ⟨?_, hu, hpass.trans hmore⟩
    rw [hpass.offset]
    rfl
  exact hbind

theorem Yields.mono {P' Q' : State → Prop} {p : Parse β} (h : Yields P Q p make front x)
    (hP : ∀ s, P' s → P s) (hQ : ∀ s, Q s → Q' s) : Yields P' Q' p make front x :=
  fun s hs => (h s (hP s hs)).mono fun _ t ht => ⟨ht.1, hQ t ht.2.1, ht.2.2⟩

/-! Looking changes nothing: what it sees is known at the place, or some of it. -/

theorem Yields.glance {p : Parse α} (Known : α → Prop) {f : α → Parse β}
    (hsees : ∀ s, P s → ∃ answer, p s = (answer, s) ∧ Known answer)
    (hf : ∀ answer, Known answer → Yields P Q (f answer) make front x) :
    Yields P Q (p >>= f) make front x := by
  intro s hs
  obtain ⟨answer, hanswer, hknown⟩ := hsees s hs
  have hrun : (p >>= f) s = f answer s := by
    change f (p s).1 (p s).2 = _
    rw [hanswer]
  unfold Ensures
  rw [hrun]
  exact hf answer hknown s hs

theorem Yields.look {p : Parse α} (answer : α) {f : α → Parse β}
    (hsees : ∀ s, P s → p s = (answer, s)) (hf : Yields P Q (f answer) make front x) :
    Yields P Q (p >>= f) make front x := by
  refine .glance _ (fun s hs => ⟨answer, hsees s hs, rfl⟩) ?_
  rintro _ rfl
  exact hf

theorem Yields.peek {kind : Token.Kind} {f : Token.Kind → Parse β}
    (hsees : ∀ s, P s → s.front = kind) (hf : Yields P Q (f kind) make front x) :
    Yields P Q (peek >>= f) make front x :=
  .look _ (fun s hs => congrArg (·, s) (hsees s hs)) hf

theorem Yields.peekAt {n : Nat} {k : Token.Kind} {f : Token.Kind → Parse β}
    (hsees : ∀ s, P s → (s.stream.nth n).kind = k) (hf : Yields P Q (f k) make front x) :
    Yields P Q (peekAt n >>= f) make front x :=
  .look _ (fun s hs => congrArg (·, s) (hsees s hs)) hf

theorem Yields.isAt {kind wanted : Token.Kind} {f : Bool → Parse β}
    (hsees : ∀ s, P s → s.front = kind) (hf : Yields P Q (f (kind == wanted)) make front x) :
    Yields P Q (isAt wanted >>= f) make front x :=
  .look _ (fun s hs => congrArg (fun kind => (kind == wanted, s)) (hsees s hs)) hf

/-- A change of context that is known in advance. -/
theorem Yields.change {change : State → State} {f : PUnit → Parse β}
    (hchange : ∀ s, P s → Q (change s) ∧ Passes [] s (change s))
    (hf : Yields Q R (f ⟨⟩) make front x) : Yields P R (modify change >>= f) make front x := by
  intro s hs
  obtain ⟨ht, hpass⟩ := hchange s hs
  refine Ensures.modify ((hf (change s) ht).mono ?_)
  rintro out u ⟨rfl, hu, hmore⟩
  refine ⟨?_, hu, hpass.trans hmore⟩
  rw [hpass.offset, Text.byteSize_nil, Nat.add_zero]

/-- A token that is not there is not taken. -/
theorem bumpIf_idle {kind wanted : Token.Kind} (hsees : ∀ s, P s → s.front = kind)
    (hkind : kind ≠ wanted) : Draws P P (bumpIf wanted) .empty := by
  refine .isAt hsees ?_
  rw [beq_eq_false_iff_ne.2 hkind]
  exact .pure rfl

/-! ### Nodes -/

theorem branch_yields {g : Layout} {body : Parse Forest} (field : Option Field) (kind : Node.Kind)
    (hbefore : Draws P Q trivia g) (hbody : Draws Q R body x) :
    Draws P R (branch field kind body) (g ++ .group field kind x) := by
  unfold branch
  refine .bind hbefore ?_
  intro before s hs
  refine (hbody s hs).bind ?_
  rintro children t ⟨rfl, ht, hpass⟩
  refine Ensures.offset (.pure ⟨?_, ht, hpass⟩)
  rw [hpass.offset]
  rfl

theorem enclose_yields {body : Parse Forest} (kind : Node.Kind) (hbody : Draws P Q body x) :
    Draws P Q (enclose kind [] body) (.group none kind x) := by
  intro s hs
  refine (hbody s hs).bind ?_
  rintro children t ⟨rfl, ht, hpass⟩
  refine Ensures.offset (.pure ⟨?_, ht, hpass⟩)
  rw [hpass.offset]
  rfl

/-! ### Single tokens -/

/-- One piece of trivia stands in front of a token. -/
theorem flushed_of_step {s : State} (hrest : s.scanner.rest ≠ [])
    (hfirst : s.stream.isTrivia s.step.1.kind = true)
    (hflush : s.stream.isTrivia (s.step.2.next s.stream.mode).1.kind = false) :
    s.stream.takeTrivia.1 = [s.step.1] ∧
      s.flushed = { s with
        stream := { s.stream with scanner := s.step.2 }, consumed := s.step.1 :: s.consumed } := by
  obtain ⟨c, rest, hrest⟩ := List.exists_cons_of_ne_nil hrest
  have hskip : s.stream.takeTrivia =
      ([s.step.1], { s.stream with scanner := s.step.2 }) := by
    unfold Stream.takeTrivia
    rw [hrest]
    simp only [Stream.skip]
    rw [show s.scanner.next s.stream.mode = s.step from rfl, if_pos hfirst,
      Stream.skip_of_not_isTrivia hflush]
  refine ⟨by rw [hskip], ?_⟩
  unfold State.flushed Stream.flushed
  rw [hskip]
  rfl

end Yields

/-! ## Texts -/

/-- The text starts with a word that is a token of the kind, and that counts for the grammar. -/
def Leads (spot : Spot) (text : Text) (kind : Token.Kind) (word : Text) : Prop :=
  ∃ after, text = word ++ after ∧ Cut spot.mode kind word after ∧
    (kind = .newline → spot.nesting = 0)

/-- What can stand in front of a token: nothing, or one blank at item level. -/
def IsGap (spot : Spot) (text : Text) : Prop := text = [] ∨ (text = [' '] ∧ spot.mode = .normal)

theorem isGap_nil (spot : Spot) : IsGap spot [] := .inl rfl

theorem isGap_blank {spot : Spot} (h : spot.mode = .normal) : IsGap spot [' '] := .inr ⟨rfl, h⟩

section Text

variable {spot : Spot} {text word after gap : Text} {kind : Token.Kind} {s : State}

theorem leads_of_cut (cut : Cut spot.mode kind word after) (hkind : kind ≠ .newline) :
    Leads spot (word ++ after) kind word :=
  ⟨after, rfl, cut, fun h => absurd h hkind⟩

theorem Leads.solid (h : Leads spot text kind word) (hmode : spot.mode = .normal) :
    Measure.blanks text = 0 := by
  obtain ⟨after, rfl, cut, -⟩ := h
  exact cut.solid hmode

/-- The next token at a place whose text starts with it. -/
theorem At.step (h : At spot (word ++ after) s) (cut : Cut spot.mode kind word after) :
    ∃ flag, s.step = { s.scanner with literalClosed := flag }.emit kind word.length := by
  obtain ⟨flag, hnext⟩ := cut.next s.scanner h.ready h.rest
  refine ⟨flag, ?_⟩
  change s.scanner.next s.stream.mode = _
  rw [h.mode, hnext]

/-- What a scanner in front of a word emits. -/
theorem emit_eq (scanner : Scanner) (hrest : scanner.rest = word ++ after) :
    scanner.emit kind word.length =
      (⟨kind, ⟨scanner.offset, scanner.offset + word.byteSize⟩, word, none⟩,
        { scanner with
          offset := scanner.offset + word.byteSize
          rest := after
          previous := word.getLast?.or scanner.previous }) := by
  simp only [emit, hrest, List.take_left', List.drop_left']

theorem At.token (h : At spot (word ++ after) s) (cut : Cut spot.mode kind word after) :
    s.step.1 = ⟨kind, ⟨s.stream.offset, s.stream.offset + word.byteSize⟩, word, none⟩ := by
  obtain ⟨flag, hstep⟩ := h.step cut
  rw [hstep, emit_eq { s.scanner with literalClosed := flag } h.rest]
  rfl

theorem At.flush (h : At spot text s) (lead : Leads spot text kind word) : s.stream.Flush := by
  obtain ⟨after, rfl, cut, hline⟩ := lead
  obtain ⟨htrivia, -, -⟩ := (Token.Kind.isRegular_iff kind).1 cut.regular
  have htoken : s.stream.step.1.kind = kind := by
    rw [show s.stream.step.1 = _ from h.token cut]
  unfold Stream.Flush Stream.isTrivia
  rw [htoken, htrivia, h.nesting, Bool.false_or]
  -- A line break counts only outside brackets.
  by_cases heq : kind = .newline
  · rw [hline heq]
    simp
  · simp [heq]

/-- Taking a word, as a token of its kind or of another one. -/
theorem At.take (h : At spot (word ++ after) s) (cut : Cut spot.mode kind word after) (token : Token)
    (htoken : token.kind.isErrorRecovery = false) :
    At spot after (s.take token s.step.2) ∧ Passes word s (s.take token s.step.2) := by
  obtain ⟨flag, hstep⟩ := h.step cut
  rw [emit_eq { s.scanner with literalClosed := flag } h.rest] at hstep
  have hreports : (s.take token s.step.2).reports = s.reports := by
    unfold State.take
    dsimp only
    split
    · next heq =>
      rw [heq] at htoken
      cases htoken
    · rfl
  refine ⟨⟨?_, ?_, ?_, h.mode, h.nesting, h.depth⟩, ⟨?_, hreports, rfl⟩⟩
  · change s.step.2.Ready
    rw [hstep]
    exact ⟨h.ready.queued, Nat.le_trans h.ready.base_le (Nat.le_add_right _ _),
      h.ready.pendingDedents, h.ready.pendingFault⟩
  · change s.step.2.rest = after
    rw [hstep]
  · change s.step.2.levels = []
    rw [hstep]
    exact h.levels
  · change s.step.2.offset = _
    rw [hstep]
    rfl

/-! ### Trivia -/

/-- Trivia in front of a token: the blank, if there is one. -/
theorem At.trim (h : At spot (gap ++ text) s) (hgap : IsGap spot gap)
    (lead : Leads spot text kind word) :
    s.stream.takeTrivia.1.map (.ofToken none) = (Layout.gap gap).nodes s.stream.offset ∧
      At spot text s.flushed ∧ Passes gap s s.flushed := by
  rcases hgap with rfl | ⟨rfl, hmode⟩
  · rw [List.nil_append] at h
    obtain ⟨htrivia, hflushed⟩ := flushed_of_flush (h.flush lead)
    rw [htrivia, hflushed]
    exact ⟨rfl, h, .refl s⟩
  · have hstep : s.step = s.scanner.emit .whitespace 1 := by
      change s.scanner.next s.stream.mode = _
      rw [h.mode, hmode]
      exact h.ready.next_blank h.rest (lead.solid hmode)
    rw [show (1 : Nat) = [' '].length from rfl, emit_eq s.scanner h.rest] at hstep
    -- The state behind the blank is at the text, so that nothing more is skipped.
    let t : State := { s with stream := { s.stream with scanner := s.step.2 } }
    have ht : At spot text t := by
      refine ⟨?_, ?_, ?_, h.mode, h.nesting, h.depth⟩
      · change s.step.2.Ready
        rw [hstep]
        exact ⟨h.ready.queued, Nat.le_trans h.ready.base_le (Nat.le_add_right _ _),
          h.ready.pendingDedents, h.ready.pendingFault⟩
      · change s.step.2.rest = text
        rw [hstep]
      · change s.step.2.levels = []
        rw [hstep]
        exact h.levels
    have hrest : s.scanner.rest ≠ [] := by
      rw [h.rest]
      nofun
    have hfirst : s.stream.isTrivia s.step.1.kind = true := by
      rw [hstep]
      rfl
    obtain ⟨htrivia, hflushed⟩ := flushed_of_step hrest hfirst (ht.flush lead)
    rw [htrivia, hflushed]
    refine ⟨?_, ⟨ht.ready, ht.rest, ht.levels, ht.mode, ht.nesting, ht.depth⟩, ?_, rfl, rfl⟩
    · rw [hstep]
      rfl
    · change s.step.2.offset = _
      rw [hstep]
      rfl

/-! ### Looks -/

theorem At.nth_zero (h : At spot (gap ++ (word ++ after)) s) (hgap : IsGap spot gap)
    (cut : Cut spot.mode kind word after) (hline : kind = .newline → spot.nesting = 0) :
    (s.stream.nth 0).kind = kind ∧ (s.stream.nth 0).text = word := by
  obtain ⟨-, ht, -⟩ := h.trim hgap ⟨after, rfl, cut, hline⟩
  have htoken := ht.token cut
  have hnth : s.stream.nth 0 = s.flushed.step.1 := Stream.nth_zero s.stream
  rw [hnth, htoken]
  exact ⟨rfl, rfl⟩

theorem At.front (h : At spot (gap ++ text) s) (hgap : IsGap spot gap)
    (lead : Leads spot text kind word) : s.front = kind := by
  obtain ⟨after, rfl, cut, hline⟩ := lead
  exact (h.nth_zero hgap cut hline).1

/-- The token after the next one. -/
theorem At.nth_one {second : Text} {kind' : Token.Kind} {word' : Text}
    (h : At spot (gap ++ (word ++ (second ++ text))) s) (hgap : IsGap spot gap)
    (cut : Cut spot.mode kind word (second ++ text)) (hline : kind ≠ .newline) (hsecond : IsGap spot second)
    (lead : Leads spot text kind' word') :
    (s.stream.nth 1).kind = kind' ∧ (s.stream.nth 1).text = word' := by
  obtain ⟨after, rfl, cut', hline'⟩ := lead
  have hlead : Leads spot (word ++ (second ++ (word' ++ after))) kind word := leads_of_cut cut hline
  obtain ⟨-, ht, -⟩ := h.trim hgap hlead
  obtain ⟨-, hend, hfault⟩ := (Token.Kind.isRegular_iff kind).1 cut.regular
  have htoken := ht.token cut
  have hkind : s.flushed.step.1.kind = kind := by rw [htoken]
  obtain ⟨hu, -⟩ := ht.take cut s.flushed.step.1 (hkind ▸ hfault)
  have hnth : s.stream.nth 1 = s.flushed.taken.stream.nth 0 := by
    have htrimmed := (trimmed_flushed h.ready.wellFormed).nth 1
    rw [← htrimmed]
    exact (nth_take (ht.flush hlead) (hkind ▸ hend) _ 0).symm
  rw [hnth]
  exact At.nth_zero hu hsecond cut' hline'

end Text

/-- What a look sees at a place with the text: a token of the kind with the characters of a word,
behind a blank or not. -/
def Sees (spot : Spot) (text : Text) (kind : Token.Kind) (word : Text) : Prop :=
  ∃ gap rest, text = gap ++ rest ∧ IsGap spot gap ∧ Leads spot rest kind word

section Sees

variable {spot : Spot} {text word : Text} {kind : Token.Kind} {s : State}

theorem Leads.sees (lead : Leads spot text kind word) : Sees spot text kind word :=
  ⟨[], text, rfl, isGap_nil spot, lead⟩

theorem Leads.sees_gap {gap : Text} (lead : Leads spot text kind word) (hgap : IsGap spot gap) :
    Sees spot (gap ++ text) kind word :=
  ⟨gap, text, rfl, hgap, lead⟩

/-- A layout starts with what its first part starts with. -/
theorem Leads.append {x y : Layout} {rest : Text}
    (lead : Leads spot (x.text ++ (y.text ++ rest)) kind word) :
    Leads spot ((x ++ y).text ++ rest) kind word := by
  rw [Layout.text_append, List.append_assoc]
  exact lead

theorem Leads.sees_layout {gap : Text} {x : Layout} {rest : Text}
    (lead : Leads spot (x.text ++ rest) kind word) (hgap : IsGap spot gap) :
    Sees spot ((Layout.gap gap ++ x).text ++ rest) kind word := by
  rw [Layout.text_append, Layout.text_gap, List.append_assoc]
  exact lead.sees_gap hgap

theorem Sees.nth_zero (sees : Sees spot text kind word) (h : At spot text s) :
    (s.stream.nth 0).kind = kind ∧ (s.stream.nth 0).text = word := by
  obtain ⟨gap, rest, rfl, hgap, after, rfl, cut, hline⟩ := sees
  exact h.nth_zero hgap cut hline

theorem Sees.front (sees : Sees spot text kind word) (h : At spot text s) : s.front = kind :=
  (sees.nth_zero h).1

/-- A look behind the next token sees what stands after its word. -/
theorem Sees.nth_one {gap rest : Text} {kind' : Token.Kind} {word' : Text}
    (sees : Sees spot rest kind' word') (cut : Cut spot.mode kind word rest)
    (hline : kind ≠ .newline) (hgap : IsGap spot gap) (h : At spot (gap ++ (word ++ rest)) s) :
    (s.stream.nth 1).kind = kind' ∧ (s.stream.nth 1).text = word' := by
  obtain ⟨second, text, rfl, hsecond, lead⟩ := sees
  exact h.nth_one hgap cut hline hsecond lead

end Sees

/-! ## Rules for texts -/

/-- The production reads the layout in front of a text that stays. -/
abbrev Spells {α : Type} (a b : Spot) (p : Parse α) (make : Forest → α) (front : Forest)
    (x : Layout) (rest : Text) : Prop :=
  Yields (At a (x.text ++ rest)) (At b rest) p make front x

section Spells

variable {β : Type} {a b c : Spot} {make : Forest → β} {front : Forest} {x y z : Layout}
  {gap rest word : Text} {kind : Token.Kind}

theorem Spells.bind {p : Parse Forest} {f : Forest → Parse β}
    (hp : Spells a b p id [] x (y.text ++ rest))
    (hf : ∀ nodes, Spells b c (f nodes) make (front ++ nodes) y rest) :
    Spells a c (p >>= f) make front (x ++ y) rest := by
  unfold Spells
  rw [Layout.text_append, List.append_assoc]
  exact Yields.bind hp hf

/-- A step that reads a layout in two parts. -/
theorem Spells.bind₂ {p : Parse Forest} {f : Forest → Parse β}
    (hp : Spells a b p id [] (x ++ y) (z.text ++ rest))
    (hf : ∀ nodes, Spells b c (f nodes) make (front ++ nodes) z rest) :
    Spells a c (p >>= f) make front (x ++ (y ++ z)) rest := by
  rw [← Layout.append_assoc]
  exact Spells.bind hp hf

/-! ### Context -/

theorem Spells.get {f : State → Parse β}
    (h : ∀ s : State, s.stream.mode = a.mode → Spells a b (f s) make front x rest) :
    Spells a b (get >>= f) make front x rest :=
  fun s hs => Ensures.get (h s hs.mode s hs)

theorem Spells.setMode {mode : Mode} {f : Unit → Parse β}
    (h : Spells { a with mode := mode } b (f ()) make front x rest) :
    Spells a b (setMode mode >>= f) make front x rest := by
  refine Yields.change ?_ h
  intro s hs
  exact ⟨⟨hs.ready, hs.rest, hs.levels, rfl, hs.nesting, hs.depth⟩, ⟨rfl, rfl, rfl⟩⟩

/-! ### Tokens -/

theorem trivia_spells (hgap : IsGap a gap) (lead : Leads a rest kind word) :
    Spells a a trivia id [] (.gap gap) rest := by
  intro s hs
  rw [Layout.text_gap] at hs
  obtain ⟨hnodes, ht, hpass⟩ := hs.trim hgap lead
  unfold Ensures
  rw [trivia_eq, hnodes]
  refine ⟨rfl, ht, ?_⟩
  rw [Layout.text_gap]
  exact hpass

theorem bumpAs_spells (field : Option Field) (as? : Option Token.Kind) (hgap : IsGap a gap)
    (cut : Cut a.mode kind word rest) (hline : kind = .newline → a.nesting = 0)
    (has : (as?.getD kind).isErrorRecovery = false) :
    Spells a a (bumpAs field as?) id [] (.gap gap ++ .leaf field (as?.getD kind) word) rest := by
  intro s hs
  rw [Layout.text_append, Layout.text_gap, List.append_assoc] at hs
  have lead : Leads a (word ++ rest) kind word := ⟨rest, rfl, cut, hline⟩
  obtain ⟨hnodes, ht, hpass⟩ := hs.trim hgap lead
  obtain ⟨-, hend, -⟩ := (Token.Kind.isRegular_iff kind).1 cut.regular
  have htoken := ht.token cut
  have hfront : s.front ≠ .endOfInput := by
    rw [hs.front hgap lead]
    exact hend
  have hkind : s.flushed.step.1.kind = kind := by rw [htoken]
  obtain ⟨hu, hmore⟩ := ht.take cut { s.flushed.step.1 with kind := as?.getD kind } has
  unfold Ensures
  rw [bumpAs_eq field as? s hfront, hkind, hnodes]
  refine ⟨?_, hu, ?_⟩
  · rw [htoken, hpass.offset, Layout.nodes_append, Layout.text_gap]
    rfl
  · rw [Layout.text_append, Layout.text_gap]
    exact hpass.trans hmore

theorem bump_spells (field : Option Field) (hgap : IsGap a gap) (cut : Cut a.mode kind word rest)
    (hline : kind = .newline → a.nesting = 0) :
    Spells a a (bump field) id [] (.gap gap ++ .leaf field kind word) rest :=
  bumpAs_spells field none hgap cut hline ((Token.Kind.isRegular_iff kind).1 cut.regular).2.2

/-! ### Nodes -/

theorem branch_spells {body : Parse Forest} (field : Option Field) (node : Node.Kind)
    (hgap : IsGap a gap) (lead : Leads a (x.text ++ rest) kind word)
    (hbody : Spells a b body id [] x rest) :
    Spells a b (branch field node body) id [] (.gap gap ++ .group field node x) rest := by
  unfold Spells
  rw [Layout.text_append, List.append_assoc]
  exact branch_yields field node (trivia_spells hgap lead) hbody

/-! ### Brackets -/

theorem openBracket_spells {sign : Mark} (hgap : IsGap a gap)
    (cut : Cut a.mode (.mark sign) sign.name.toList rest) :
    Spells a { a with nesting := a.nesting + 1 } openBracket id [] (.gap gap ++ .mark sign) rest := by
  intro s hs
  refine (bump_spells none hgap cut (by nofun) s hs).bind ?_
  rintro nodes t ⟨rfl, ht, hpass⟩
  refine Ensures.onStream (.pure ⟨rfl, ?_, ⟨hpass.offset, hpass.reports, hpass.exhausted⟩⟩)
  exact ⟨ht.ready, ht.rest, ht.levels, ht.mode, congrArg (· + 1) ht.nesting, ht.depth⟩

theorem expectMark_spells {sign : Mark} (hgap : IsGap a gap)
    (cut : Cut a.mode (.mark sign) sign.name.toList rest) :
    Spells a a (expectMark sign) id [] (.gap gap ++ .mark sign) rest := by
  have hsees : Sees a ((Layout.gap gap ++ .mark sign).text ++ rest) (.mark sign)
      sign.name.toList := by
    rw [Layout.text_append, Layout.text_gap, List.append_assoc]
    exact (leads_of_cut cut (by nofun)).sees_gap hgap
  refine .isAt (fun s hs => hsees.front hs) ?_
  rw [beq_self_eq_true]
  exact bump_spells none hgap cut (by nofun)

theorem closeBracket_spells {sign : Mark} (hgap : IsGap a gap)
    (cut : Cut a.mode (.mark sign) sign.name.toList rest) :
    Spells { a with nesting := a.nesting + 1 } a (closeBracket sign) id [] (.gap gap ++ .mark sign) rest := by
  intro s hs
  let inner : Spot := { a with nesting := a.nesting + 1 }
  refine ((expectMark_spells hgap cut : Spells inner inner _ _ _ _ rest) s hs).bind ?_
  rintro nodes t ⟨rfl, ht, hpass⟩
  refine Ensures.onStream (.pure ⟨rfl, ?_, ⟨hpass.offset, hpass.reports, hpass.exhausted⟩⟩)
  exact ⟨ht.ready, ht.rest, ht.levels, ht.mode, congrArg (· - 1) ht.nesting, ht.depth⟩

/-! ### Depth -/

/-- So many expressions are no longer around the spot. -/
theorem At.surface {count : Nat} {text : Text} {s : State}
    (h : At { a with depth := a.depth + count } text s) :
    At a text { s with depth := s.depth - count } := by
  have hdepth : s.depth - count = a.depth := by
    rw [h.depth]
    exact Nat.add_sub_cancel ..
  exact ⟨h.ready, h.rest, h.levels, h.mode, h.nesting, hdepth⟩

/-- A production is read one level deeper, and behind it the depth is as before. -/
theorem deeper_spells {body : Parse Forest}
    (hbody : Spells { a with depth := a.depth + 1 } { a with depth := a.depth + 1 } body id [] x rest) :
    Spells a a (do
      deepen
      let nodes ← body
      surface 1
      return nodes) id [] x rest := by
  intro s hs
  refine Ensures.modify ?_
  have hentered : At { a with depth := a.depth + 1 } (x.text ++ rest)
      { s with depth := s.depth + 1 } :=
    ⟨hs.ready, hs.rest, hs.levels, hs.mode, hs.nesting, congrArg (· + 1) hs.depth⟩
  refine (hbody _ hentered).bind ?_
  rintro nodes t ⟨rfl, ht, hpass⟩
  exact Ensures.modify (.pure ⟨rfl, ht.surface, ⟨hpass.offset, hpass.reports, hpass.exhausted⟩⟩)

end Spells

/-! ## Keywords -/

theorem isKeywordAt_eq {n : Nat} {s : State} {kind : Token.Kind} {text : Text}
    (h : (s.stream.nth n).kind = kind ∧ (s.stream.nth n).text = text) (word : Keyword) :
    isKeywordAt n word s = (kind == .identifier && text == word.spelling, s) := by
  change ((s.stream.nth n).kind == .identifier && (s.stream.nth n).text == word.spelling, s) = _
  rw [h.1, h.2]

/-! ## Loops -/

section Loop

variable {σ : Type} {P Q R : State → Prop} {step : σ → Parse (Forest × Option σ)} {memory next : σ}
  {x y : Layout}

theorem loop_again (hstep : Yields P Q (step memory) (·, some next) [] x) {fuel : Nat}
    (hmore : Draws Q R (loop step fuel next) y) : Draws P R (loop step (fuel + 1) memory) (x ++ y) := by
  intro s hs
  refine (hstep s hs).bind ?_
  rintro out t ⟨rfl, ht, hpass⟩
  refine (hmore t ht).bind ?_
  rintro nodes u ⟨rfl, hu, hmore⟩
  refine .pure ⟨?_, hu, hpass.trans hmore⟩
  rw [hpass.offset]
  rfl

theorem loop_done (hstep : Yields P Q (step memory) (·, none) [] x) (fuel : Nat) :
    Draws P Q (loop step (fuel + 1) memory) x := by
  intro s hs
  refine (hstep s hs).bind ?_
  rintro out t ⟨rfl, ht, hpass⟩
  exact .pure ⟨rfl, ht, hpass⟩

/-- A step for each layout of a list, and then whatever the loop goes on with. -/
theorem loop_concat {ι : Type} (layout : ι → Layout) (P : List ι → State → Prop)
    (hstep : ∀ i more, Yields (P (i :: more)) (P more) (step memory) (·, some memory) [] (layout i))
    {fuel : Nat} (hend : Draws (P []) R (loop step fuel memory) y) (items : List ι) :
    Draws (P items) R (loop step (fuel + items.length) memory)
      (.concat (items.map layout) ++ y) := by
  induction items with
  | nil => exact hend
  | cons i more ih =>
    rw [List.map_cons, Layout.concat, Layout.append_assoc]
    exact loop_again (hstep i more) ih

/-- A step of a loop, in front of what the further steps read. -/
theorem Spells.loop_again {a b c : Spot} {rest : Text}
    (hstep : Spells a b (step memory) (·, some next) [] x (y.text ++ rest)) {fuel : Nat}
    (hmore : Spells b c (loop step fuel next) id [] y rest) :
    Spells a c (loop step (fuel + 1) memory) id [] (x ++ y) rest := by
  unfold Spells
  rw [Layout.text_append, List.append_assoc]
  exact Grammar.loop_again hstep hmore

end Loop

end Justfile.Grammar
