import Justfile.Proofs.Blank.Placed
import Justfile.Proofs.Simulation.Balance

/-!
# Blanks among the tokens

An invariant of all productions, carried by a simulation that compares a run with nothing (`spaced`).
A token of white space among those that were consumed starts behind a character that is no blank, ends
in front of one unless it is the indentation of a body line, and stands at no place where a body was
opened inside a line (`Apart`).

The scanner alone does not ensure this. Between two blanks, and behind an `indent` inside a line, the
blanks ahead are text of a body line (`InText`): there the mode of bodies has to hold until they are
taken. That mode is left for another one behind the body, or behind a token that opens something inside
the line.
-/

set_option autoImplicit false

namespace Justfile

open Text (byteSize)
open Justfile.Measure (isBlank)

/-- A body is opened by a token without characters, when nothing is decided ahead. -/
theorem Scanner.Step.indent_inv {s : Scanner} {mode : Mode} {out : Token × Scanner}
    (wf : s.WellFormed) (step : s.Step mode out) (hkind : out.1.kind = .indent) :
    s.Ready ∧ out.1.span = .empty s.offset ∧ out.2.offset = s.offset ∧ out.2.base = s.base ∧
      out.2.queued = s.queued := by
  rcases step.layout_cases wf (by rw [hkind]; rfl) with ⟨-, -, -, rfl⟩ | ⟨ready, -, -, rfl⟩ |
    hdedent | ⟨fault, -, rfl⟩ | ⟨content, first, -, -, -, -, rfl⟩
  · cases hkind
  · exact ⟨ready, rfl, rfl, rfl, rfl⟩
  · cases hdedent.symm.trans hkind
  · cases hkind
  · cases hkind

namespace Grammar

/-! ## Places of blanks -/

/-- The next characters are blanks that belong to the text of a body line: the scanner stands between
two blanks, or where a body was opened inside a line. -/
def InText (s : Scanner) (consumed : List Token) : Prop :=
  (∃ c ∈ s.rest.head?, isBlank c = true) ∧
    ((∃ c ∈ s.previous, isBlank c = true) ∨ (s.atLineStart = false ∧
      ∃ token ∈ consumed, token.kind = .indent ∧ token.span.start = s.offset))

/-- From the one place to the other there is white space: a run of blanks that has none in front of it,
and none behind it unless it indents a body line. No body was opened where it starts, unless a line
starts there. -/
structure Apart (source : Text) (consumed : List Token) (s t : Scanner) : Prop where
  first : s.Placed source
  second : t.Placed source
  lt : s.offset < t.offset
  start : ¬s.Between
  stop : t.Between → s.atLineStart = true ∧
    ∃ token ∈ consumed, token.kind = .indent ∧ token.span.start ≤ s.offset
  noIndent : (∃ c ∈ s.rest.head?, isBlank c = true) → s.atLineStart = false →
    ∀ token ∈ consumed, token.kind = .indent → token.span.start ≠ s.offset

/-- What is known of the levels in a context with at most one open body. -/
structure Deep (c : Context) (s : Scanner) (consumed : List Token) : Prop where
  pendingDedents : s.pendingDedents = 0
  closed : c.bodies = 0 → s.levels = []
  opened : s.levels ≠ [] → ∃ token ∈ consumed, token.kind = .indent

/-- Where blanks ahead belong to the text of a line, that text is read next. The tokens of white space
so far are apart, and each `indent` lies behind the place `low`. -/
structure Spaced (source : Text) (low : Nat) (c : Context) (s : Scanner) (consumed : List Token) :
    Prop where
  bodies_le : c.bodies ≤ 1
  bodyStart : c.mode = .bodyStart → c.bodies = 0
  placed : s.Placed source
  inText : InText s consumed →
    c.mode = .body ∧ c.bodies ≠ 0 ∧ s.queued = [] ∧ s.base ≤ s.offset
  entered : ∀ token ∈ consumed.head?,
    token.kind.opensLiteral = true ∨ token.kind = .interpolationOpen → ¬InText s consumed
  low_le : low ≤ s.offset
  starts : ∀ token ∈ consumed, token.span.start ≤ s.offset
  low_indent : ∀ token ∈ consumed, token.kind = .indent → low ≤ token.span.start
  apart : ∀ token ∈ consumed, token.kind = .whitespace → ∃ x y : Scanner,
    token.span = ⟨x.offset, y.offset⟩ ∧ y.offset ≤ s.offset ∧ Apart source consumed x y

section Spaced

variable {source : Text} {low : Nat} {c e : Context} {s t x y : Scanner}
  {consumed more : List Token} {token : Token}

/-- Only what is known of `indent`s depends on the other tokens. -/
theorem Apart.mono (h : Apart source consumed x y)
    (hsub : ∀ token ∈ consumed, token.kind = .indent → token ∈ more)
    (hnew : ∀ token ∈ more, token.kind = .indent → token ∈ consumed ∨ token.span.start ≠ x.offset) :
    Apart source more x y := by
  refine ⟨h.first, h.second, h.lt, h.start, ?_, ?_⟩
  · intro hbetween
    obtain ⟨hline, token, hmem, hkind, hle⟩ := h.stop hbetween
    exact ⟨hline, token, hsub token hmem hkind, hkind, hle⟩
  · intro hblank hline token hmem hkind
    rcases hnew token hmem hkind with hmem' | hne
    · exact h.noIndent hblank hline token hmem' hkind
    · exact hne

/-- Inside the text of a line no line starts. -/
theorem InText.atLineStart (h : InText s consumed) (placed : s.Placed source) :
    s.atLineStart = false := by
  obtain ⟨hblank, hprevious | ⟨hline, -⟩⟩ := h
  · rw [← Bool.not_eq_true]
    exact fun hstart => placed.not_between_of_atLineStart hstart ⟨hprevious, hblank⟩
  · exact hline

/-- Blanks of the text of a line are read as text. -/
theorem Spaced.next_inText (h : Spaced source low c s consumed) (wf : s.WellFormed)
    (deep : Deep c s consumed) (htext : InText s consumed) :
    ((s.next c.mode).1.kind = .text ∨ ∃ fault, (s.next c.mode).1.kind = .errorRecovery fault) ∧
      (s.next c.mode).1.text ≠ [] := by
  obtain ⟨hmode, -, hqueued, hbase⟩ := h.inText htext
  rw [hmode]
  exact Scanner.next_in_line wf hqueued hbase deep.pendingDedents (htext.atLineStart h.placed)
    htext.1

/-! ## One token -/

/-- A token without characters leaves the scanner at its place. -/
theorem atLineStart_of_nil {mode : Mode} (hnil : (s.next mode).1.text = []) :
    (s.next mode).2.offset = s.offset ∧ (s.next mode).2.rest = s.rest ∧
      (s.next mode).2.previous = s.previous ∧ (s.next mode).2.atLineStart = s.atLineStart := by
  have htakes := Scanner.takes_next s mode
  have step := Scanner.step_next s mode
  have hoffset : (s.next mode).2.offset = s.offset := by
    rw [htakes.offset_eq, hnil]
    rfl
  have hrest : (s.next mode).2.rest = s.rest := by
    rw [← htakes.text_append_rest, hnil, List.nil_append]
  have hprevious : (s.next mode).2.previous = s.previous := by
    rw [step.previous_eq, hnil]
    rfl
  refine ⟨hoffset, hrest, hprevious, ?_⟩
  unfold Scanner.atLineStart
  rw [hoffset, hprevious, step.base_eq]

/-- Behind a token that opens no body, blanks ahead belong to the text of a line only if the token
indents that line. -/
theorem Spaced.indents_of_inText (h : Spaced source low c s consumed) (wf : s.WellFormed)
    (deep : Deep c s consumed) (htoken : token.kind ≠ .indent)
    (htext : InText (s.next c.mode).2 (token :: consumed)) : s.Indents c.mode := by
  obtain ⟨hblank, hbehind⟩ := htext
  by_cases hnil : (s.next c.mode).1.text = []
  · -- Nothing was taken, so that blanks of the text were ahead before, and would have been taken.
    obtain ⟨hoffset, hrest, hprevious, hline⟩ := atLineStart_of_nil hnil
    rw [hrest] at hblank
    rw [hprevious, hline, hoffset] at hbehind
    refine absurd hnil (h.next_inText wf deep ⟨hblank, hbehind.imp_right ?_⟩).2
    rintro ⟨hline, other, hmem, hkind, hstart⟩
    rcases List.mem_cons.1 hmem with rfl | hmem
    · exact absurd hkind htoken
    · exact ⟨hline, other, hmem, hkind, hstart⟩
  · have hlt := Gap.byteSize_pos hnil
    have htakes := (Scanner.takes_next s c.mode).offset_eq
    refine h.placed.next_between wf (fun hmode => deep.closed (h.bodyStart hmode)) hnil ⟨?_, hblank⟩
    rcases hbehind with hprevious | ⟨-, other, hmem, hkind, hstart⟩
    · exact hprevious
    · rcases List.mem_cons.1 hmem with rfl | hmem
      · exact absurd hkind htoken
      · have hle := h.starts other hmem
        omega

/-- A token of white space is apart from the others. -/
theorem Spaced.apart_next (h : Spaced source low c s consumed) (wf : s.WellFormed)
    (deep : Deep c s consumed) (hkind : (s.next c.mode).1.kind = .whitespace) :
    Apart source consumed s (s.next c.mode).2 := by
  have htakes := Scanner.takes_next s c.mode
  have hne : (s.next c.mode).1.text ≠ [] := Scanner.text_next_ne_nil wf (by rw [hkind]; rfl)
  have hpos := Gap.byteSize_pos hne
  have hnot : ¬InText s consumed := by
    intro htext
    rcases (h.next_inText wf deep htext).1 with hother | ⟨fault, hother⟩
    · rw [hkind] at hother
      cases hother
    · rw [hkind] at hother
      cases hother
  refine ⟨h.placed, h.placed.next wf _, ?_, ?_, ?_, ?_⟩
  · have hoffset := htakes.offset_eq
    omega
  · exact fun hbetween => hnot ⟨hbetween.2, .inl hbetween.1⟩
  · intro hbetween
    have indents := h.placed.next_between wf (fun hmode => deep.closed (h.bodyStart hmode)) hne
      hbetween
    obtain ⟨other, hmem, hother⟩ := deep.opened indents.levels
    exact ⟨indents.atLineStart, other, hmem, hother, h.starts other hmem⟩
  · exact fun hblank hline other hmem hother hstart =>
      hnot ⟨hblank, .inr ⟨hline, other, hmem, hother, hstart⟩⟩

/-- A token is consumed that opens no body, perhaps as a keyword. -/
theorem Spaced.take (h : Spaced source low c s consumed) (wf : s.WellFormed)
    (deep : Deep c s consumed) (hspan : token.span = (s.next c.mode).1.span)
    (hkind : token.kind = (s.next c.mode).1.kind ∨ ∃ word, token.kind = .keyword word)
    (hindent : (s.next c.mode).1.kind ≠ .indent) :
    Spaced source low c (s.next c.mode).2 (token :: consumed) := by
  have htakes := Scanner.takes_next s c.mode
  have hle : s.offset ≤ (s.next c.mode).2.offset := by
    rw [htakes.offset_eq]
    exact Nat.le_add_right _ _
  rw [htakes.span_eq] at hspan
  have hstart : token.span.start = s.offset := congrArg Span.start hspan
  have hnot : token.kind ≠ .indent := by
    rcases hkind with hkind | ⟨word, hkind⟩
    · rwa [hkind]
    · rw [hkind]
      exact nofun
  -- What is left: the text proper of a line, its last token, where tokens start, the lowest of them that
  -- opens a body, and what keeps whitespace apart.
  refine ⟨h.bodies_le, h.bodyStart, h.placed.next wf _, ?_, ?_, Nat.le_trans h.low_le hle, ?_, ?_, ?_⟩
  · intro htext
    have indents := h.indents_of_inText wf deep hnot htext
    refine ⟨indents.inBody, fun hnone => indents.levels (deep.closed hnone), indents.queued, ?_⟩
    rw [(Scanner.step_next s c.mode).base_eq]
    exact Nat.le_trans indents.ready.base_le hle
  · rintro _ ⟨⟩ hopens htext
    have hwhite := (h.indents_of_inText wf deep hnot htext).kind
    rcases hkind with hkind | ⟨word, hkind⟩
    · rw [hkind, hwhite] at hopens
      rcases hopens with hopens | hopens <;> cases hopens
    · rw [hkind] at hopens
      rcases hopens with hopens | hopens <;> cases hopens
  · intro other hmem
    rcases List.mem_cons.1 hmem with rfl | hmem
    · rwa [hstart]
    · exact Nat.le_trans (h.starts other hmem) hle
  · intro other hmem hother
    rcases List.mem_cons.1 hmem with rfl | hmem
    · exact absurd hother hnot
    · exact h.low_indent other hmem hother
  · have hmono : ∀ {x y : Scanner}, Apart source consumed x y → Apart source (token :: consumed) x y :=
      fun hapart => hapart.mono (fun other hmem _ => List.mem_cons_of_mem _ hmem)
        fun other hmem hother => .inl ((List.mem_cons.1 hmem).resolve_left fun heq =>
          hnot (heq ▸ hother))
    intro other hmem hother
    rcases List.mem_cons.1 hmem with rfl | hmem
    · have hwhite : (s.next c.mode).1.kind = .whitespace := by
        rcases hkind with hkind | ⟨word, hkind⟩
        · rw [← hkind, hother]
        · rw [hkind] at hother
          cases hother
      exact ⟨s, (s.next c.mode).2, hspan, Nat.le_refl _, hmono (h.apart_next wf deep hwhite)⟩
    · obtain ⟨x, y, hxy, hy, hapart⟩ := h.apart other hmem hother
      exact ⟨x, y, hxy, Nat.le_trans hy hle, hmono hapart⟩

theorem Deep.next (deep : Deep c s consumed) (wf : s.WellFormed) {mode : Mode}
    (hlevel : (s.next mode).1.kind.isLevel = false) (token : Token) :
    Deep c (s.next mode).2 (token :: consumed) := by
  obtain ⟨hlevels, hpending⟩ := Scanner.levels_next wf hlevel
  refine ⟨hpending.trans deep.pendingDedents, fun hnone => hlevels.trans (deep.closed hnone), ?_⟩
  rw [hlevels]
  intro hne
  obtain ⟨other, hmem, hother⟩ := deep.opened hne
  exact ⟨other, List.mem_cons_of_mem _ hmem, hother⟩

/-- Trivia is consumed. -/
theorem Spaced.run {tokens : List Token} (run : Scanner.Run c.mode s tokens t)
    (hkinds : ∀ token ∈ tokens, token.kind.isLevel = false) (h : Spaced source low c s consumed)
    (wf : s.WellFormed) (deep : Deep c s consumed) :
    Spaced source low c t (tokens.reverse ++ consumed) ∧ Deep c t (tokens.reverse ++ consumed) := by
  induction run generalizing consumed with
  | nil s => exact ⟨h, deep⟩
  | @cons s t tokens _ ih =>
    have hlevel := hkinds _ List.mem_cons_self
    have hindent : (s.next c.mode).1.kind ≠ .indent := by
      intro hkind
      rw [hkind] at hlevel
      cases hlevel
    rw [List.reverse_cons, List.append_assoc]
    exact ih (fun token hmem => hkinds token (List.mem_cons_of_mem _ hmem))
      (h.take wf deep rfl (.inl rfl) hindent) (wf.next c.mode) (deep.next wf hlevel _)

/-- A body is opened. -/
theorem Spaced.openBody (h : Spaced source low c s consumed) (wf : s.WellFormed)
    (hkind : (s.next c.mode).1.kind = .indent) :
    Spaced source low ((c.withBodies 1).within .body c.nesting c.lineBound) (s.next c.mode).2
      ((s.next c.mode).1 :: consumed) := by
  obtain ⟨ready, hspan, hoffset, hbase, hqueued⟩ :=
    (Scanner.step_next s c.mode).indent_inv wf hkind
  have hstart : (s.next c.mode).1.span.start = s.offset := congrArg Span.start hspan
  refine ⟨Nat.le_refl 1, nofun, h.placed.next wf c.mode, fun _ => ⟨rfl, Nat.one_ne_zero, ?_, ?_⟩, ?_,
    ?_, ?_, ?_, ?_⟩
  · rw [hqueued]
    exact ready.queued
  · rw [hbase, hoffset]
    exact ready.base_le
  · rintro _ ⟨⟩ hopens
    rw [hkind] at hopens
    rcases hopens with hopens | hopens <;> cases hopens
  · rw [hoffset]
    exact h.low_le
  · rw [hoffset]
    intro other hmem
    rcases List.mem_cons.1 hmem with rfl | hmem
    · exact Nat.le_of_eq hstart
    · exact h.starts other hmem
  · intro other hmem hother
    rcases List.mem_cons.1 hmem with rfl | hmem
    · rw [hstart]
      exact h.low_le
    · exact h.low_indent other hmem hother
  · rw [hoffset]
    intro other hmem hother
    rcases List.mem_cons.1 hmem with rfl | hmem
    · rw [hkind] at hother
      cases hother
    · obtain ⟨x, y, hxy, hy, hapart⟩ := h.apart other hmem hother
      refine ⟨x, y, hxy, hy, hapart.mono (fun _ hmem _ => List.mem_cons_of_mem _ hmem) ?_⟩
      intro token hmem _
      rcases List.mem_cons.1 hmem with rfl | hmem
      · -- The body is opened behind the white space.
        have hlt := hapart.lt
        rw [hstart]
        exact .inr (by omega)
      · exact .inl hmem

/-- Two tokens are consumed as one. -/
theorem Spaced.glue {first second : Token}
    (h : Spaced source low c s (second :: first :: consumed)) (hfirst : first.kind ≠ .indent)
    (hsecond : second.kind ≠ .indent) (hstart : token.span.start = first.span.start)
    (hkind : token.kind = .interpolationClose) : Spaced source low c s (token :: consumed) := by
  have hnot : token.kind ≠ .indent := by
    rw [hkind]
    exact nofun
  have hold : ∀ other ∈ second :: first :: consumed, other.kind = .indent → other ∈ consumed := by
    intro other hmem hother
    rcases List.mem_cons.1 hmem with rfl | hmem
    · exact absurd hother hsecond
    · rcases List.mem_cons.1 hmem with rfl | hmem
      · exact absurd hother hfirst
      · exact hmem
  have hnew : ∀ other ∈ token :: consumed, other.kind = .indent → other ∈ consumed := by
    intro other hmem hother
    exact (List.mem_cons.1 hmem).resolve_left fun heq => hnot (heq ▸ hother)
  have hback : ∀ other ∈ consumed, other ∈ second :: first :: consumed :=
    fun other hmem => List.mem_cons_of_mem _ (List.mem_cons_of_mem _ hmem)
  refine ⟨h.bodies_le, h.bodyStart, h.placed, ?_, ?_, h.low_le, ?_, ?_, ?_⟩
  · intro htext
    apply h.inText
    refine ⟨htext.1, htext.2.imp_right ?_⟩
    rintro ⟨hline, other, hmem, hother, hat⟩
    exact ⟨hline, other, hback other (hnew other hmem hother), hother, hat⟩
  · rintro _ ⟨⟩ hopens
    rw [hkind] at hopens
    rcases hopens with hopens | hopens <;> cases hopens
  · intro other hmem
    rcases List.mem_cons.1 hmem with rfl | hmem
    · rw [hstart]
      exact h.starts first (List.mem_cons_of_mem _ List.mem_cons_self)
    · exact h.starts other (hback other hmem)
  · exact fun other hmem hother => h.low_indent other (hback other (hnew other hmem hother)) hother
  · intro other hmem hother
    have hmem' : other ∈ consumed := (List.mem_cons.1 hmem).resolve_left fun heq => by
      rw [heq, hkind] at hother
      cases hother
    obtain ⟨x, y, hxy, hy, hapart⟩ := h.apart other (hback other hmem') hother
    refine ⟨x, y, hxy, hy, hapart.mono ?_ ?_⟩
    · exact fun token hmem hindent => List.mem_cons_of_mem _ (hold token hmem hindent)
    · exact fun token hmem hindent => .inl (hback token (hnew token hmem hindent))

/-! ## Changes of context -/

/-- In another context the same is known, if the text of a line is read there or none is ahead. -/
theorem Spaced.context (h : Spaced source low c s consumed) (hbodies : e.bodies ≤ 1)
    (hstart : e.mode = .bodyStart → e.bodies = 0)
    (htext : InText s consumed → e.mode = .body ∧ e.bodies ≠ 0) :
    Spaced source low e s consumed :=
  ⟨hbodies, hstart, h.placed, fun hin => ⟨(htext hin).1, (htext hin).2, (h.inText hin).2.2⟩, h.entered,
    h.low_le, h.starts, h.low_indent, h.apart⟩

end Spaced

/-! ## The simulation -/

/-- A run on its own. Nothing is compared: the guards never hold. -/
def spaced (source : Text) (low : Nat) : Simulation where
  place := id
  inv c s := (balanced []).inv c s ∧
    (s.exhausted = false → Spaced source low c s.scanner s.consumed)
  rel _ _ _ := False
  calm _ := False
  wide _ := False
  live _ := False
  peer _ := False

section Laws

variable {source : Text} {low : Nat} {c e : Context} {s : State}

/-- Of two productions only the invariant of the first one is to be shown. -/
theorem spaced_tracks {α β : Type} {p : Parse α} {q : Parse β} {m : α → β} {d : α → Context}
    (h : (spaced source low).inv c s → (spaced source low).inv (d (p s).1) (p s).2) :
    (spaced source low).Tracks c (fun _ => False) m d (fun _ _ => False) s p q :=
  fun hinv => ⟨h hinv, False.elim⟩

theorem deep_of_leveled (leveled : Leveled [] c.bodies s) (hbodies : c.bodies ≤ 1) :
    Deep c s.scanner s.consumed := by
  obtain ⟨hpending, hphase⟩ := leveled
  rcases hcase : c.bodies with _ | _ | bodies
  · rw [hcase] at hphase
    exact ⟨hpending, fun _ => hphase.1, fun hne => absurd hphase.1 hne⟩
  · rw [hcase] at hphase
    obtain ⟨-, count, hkinds⟩ := hphase
    refine ⟨hpending, fun hnone => absurd (hcase.symm.trans hnone) Nat.one_ne_zero, fun _ => ?_⟩
    have hmem : Token.Kind.indent ∈ levelKinds s.consumed := by
      rw [hkinds]
      exact List.mem_cons_self
    obtain ⟨token, htoken, hkind⟩ := List.mem_map.1 (List.mem_of_mem_filter hmem)
    exact ⟨token, htoken, hkind⟩
  · omega

/-- What is known in front of the next significant token. -/
theorem spaced_flushed (hinv : (spaced source low).inv c s) (hlive : s.exhausted = false) :
    Spaced source low c s.flushed.scanner s.flushed.consumed ∧
      Deep c s.flushed.scanner s.flushed.consumed ∧ s.flushed.scanner.WellFormed := by
  obtain ⟨⟨wf, hgov, hleveled⟩, hspaced⟩ := hinv
  have h := hspaced hlive
  obtain ⟨hrun, htrivia, -⟩ := Stream.takeTrivia_spec wf
  rw [show s.stream.mode = c.mode from hgov.mode] at hrun
  obtain ⟨hafter, deep⟩ := h.run hrun
    (fun token hmem => Stream.isLevel_of_isTrivia (htrivia token hmem)) wf
    (deep_of_leveled (hleveled hlive) h.bodies_le)
  exact ⟨hafter, deep, (hrun.wellFormed wf).1⟩

section Bump

variable (hne : s.front ≠ .endOfInput) (hindent : s.front ≠ .indent) (field : Option Field)
  (word : Option Keyword)
include hne hindent

theorem spaced_bumpAs (hinv : (spaced source low).inv c s) (hlive : s.exhausted = false) :
    Spaced source low c (bumpAs field (word.map .keyword) s).2.scanner
      (bumpAs field (word.map .keyword) s).2.consumed := by
  obtain ⟨h, deep, wf⟩ := spaced_flushed hinv hlive
  have hmode : s.flushed.stream.mode = c.mode := hinv.1.2.1.mode
  have hfront := front_eq_step hinv.1.1
  rw [hmode] at hfront
  rw [bumpAs_eq field _ s hne]
  change Spaced source low c (s.flushed.scanner.next s.flushed.stream.mode).2 _
  rw [hmode]
  refine h.take wf deep ?_ ?_ (hfront ▸ hindent)
  · change (s.flushed.scanner.next s.flushed.stream.mode).1.span = _
    rw [hmode]
  · cases word with
    | none =>
      refine .inl ?_
      change (s.flushed.scanner.next s.flushed.stream.mode).1.kind = _
      rw [hmode]
    | some word => exact .inr ⟨word, rfl⟩

/-- Behind a token that is no white space, no text of a line is ahead. -/
theorem not_inText_bump (hwhite : s.front ≠ .whitespace) (hinv : (spaced source low).inv c s)
    (hlive : s.exhausted = false) :
    ¬InText (bump field s).2.scanner (bump field s).2.consumed := by
  obtain ⟨h, deep, wf⟩ := spaced_flushed hinv hlive
  have hmode : s.flushed.stream.mode = c.mode := hinv.1.2.1.mode
  have hfront := front_eq_step hinv.1.1
  rw [hmode] at hfront
  intro htext
  rw [show bump field s = bumpAs field none s from rfl, bumpAs_eq field _ s hne] at htext
  change InText (s.flushed.scanner.next s.flushed.stream.mode).2
    ((s.flushed.scanner.next s.flushed.stream.mode).1 :: s.flushed.consumed) at htext
  rw [hmode] at htext
  have indents := h.indents_of_inText wf deep (hfront ▸ hindent) htext
  exact hwhite (hfront.trans indents.kind)

/-- A token is consumed, in a context with the same bodies. -/
theorem spaced_tracks_bumpAs (hbodies : e.bodies = c.bodies) (hmode : e.mode = c.mode)
    (hbalanced : (balanced []).inv c s →
      (balanced []).inv e (bumpAs field (word.map .keyword) s).2) :
    (spaced source low).Tracks c (fun _ => False) (spaced source low).moved (fun _ => e)
      (fun _ _ => False) s (bumpAs field (word.map .keyword))
      (bumpAs field (word.map .keyword)) := by
  refine spaced_tracks fun hinv => ⟨hbalanced hinv.1, fun hlive => ?_⟩
  rw [bumpAs_eq field _ s hne] at hlive
  have h := spaced_bumpAs hne hindent field word hinv hlive
  refine h.context (hbodies ▸ h.bodies_le) (hbodies ▸ hmode ▸ h.bodyStart) fun htext => ?_
  obtain ⟨hbody, hopen, -⟩ := h.inText htext
  exact ⟨hmode.trans hbody, hbodies ▸ hopen⟩

end Bump

/-- Behind the token that opens a body its lines are read. -/
theorem spaced_openBody (hfront : s.front = .indent) (hinv : (spaced source low).inv c s)
    (hlive : s.exhausted = false) :
    Spaced source low ((c.withBodies 1).within .body c.nesting c.lineBound) (openBody s).2.scanner
      (openBody s).2.consumed := by
  obtain ⟨h, -, wf⟩ := spaced_flushed hinv hlive
  have hmode : s.flushed.stream.mode = c.mode := hinv.1.2.1.mode
  have hkind := (front_eq_step hinv.1.1).symm.trans hfront
  have hopened := h.openBody wf (hmode ▸ hkind)
  have hne : s.front ≠ .endOfInput := by
    rw [hfront]
    exact nofun
  change Spaced source low _ (bumpAs none none s).2.scanner (bumpAs none none s).2.consumed
  rw [bumpAs_eq none _ s hne]
  rw [← hmode] at hopened
  exact hopened

theorem spaced_closeBraces (hinv : (spaced source low).inv c s)
    (hlive : s.exhausted = false) :
    Spaced source low c (closeBraces s).2.scanner (closeBraces s).2.consumed := by
  rw [closeBraces_eq]
  split
  · next hat =>
    obtain ⟨h, deep, wf⟩ := spaced_flushed hinv hlive
    obtain ⟨hfirst, -, hsecond⟩ := Stream.atGlued_spec hat
    have hnormal : s.stream.mode = c.mode := hinv.1.2.1.mode
    change (s.flushed.scanner.next s.stream.mode).1.kind = _ at hfirst
    change ((s.flushed.scanner.next s.stream.mode).2.next s.stream.mode).1.kind = _ at hsecond
    rw [hnormal] at hfirst hsecond
    have hne : (s.flushed.scanner.next c.mode).1.kind ≠ .indent := by
      rw [hfirst]
      exact nofun
    have hne' : ((s.flushed.scanner.next c.mode).2.next c.mode).1.kind ≠ .indent := by
      rw [hsecond]
      exact nofun
    have hone := h.take wf deep rfl (.inl rfl) hne
    have htwo := hone.take (wf.next c.mode) (deep.next wf (by rw [hfirst]; rfl) _) rfl (.inl rfl)
      hne'
    have hstep : s.flushed.step = s.flushed.scanner.next c.mode :=
      congrArg s.flushed.scanner.next hnormal
    rw [bumpGlued_eq hat, hnormal, hstep]
    change Spaced source low c ((s.flushed.scanner.next c.mode).2.next c.mode).2
      (⟨.interpolationClose, ⟨(s.flushed.scanner.next c.mode).1.span.start, _⟩, _, none⟩ ::
        s.flushed.consumed)
    exact htwo.glue hne hne' rfl rfl
  · exact hinv.2 hlive

theorem lawful_spaced (source : Text) (low : Nat) : (spaced source low).Lawful where
  wellFormed h := h.1.1
  governs h := h.1.2.1
  governs_rel h := h.elim
  depth h := h.elim
  offset h := h.elim
  inv_within {c s _ _ _ _} hadmits hleaves h := by
    refine ⟨(lawful_balanced []).inv_within hadmits hleaves h.1, fun hlive => ?_⟩
    have hspaced := h.2 hlive
    refine hspaced.context hspaced.bodies_le hadmits.2.2 fun htext => ?_
    obtain ⟨hbody, hopen, -⟩ := hspaced.inText htext
    -- With text of a line ahead, the mode of bodies is not left.
    rcases hleaves hbody with hmode | hnone | ⟨token, hhead, hopens⟩
    · exact ⟨hmode, hopen⟩
    · exact absurd hnone hopen
    · exact absurd htext (hspaced.entered token hhead hopens)
  rel_within _ h := h.elim
  inv_opened h := ⟨(lawful_balanced []).inv_opened h.1, fun hlive =>
    (h.2 hlive).context (h.2 hlive).bodies_le (h.2 hlive).bodyStart fun htext =>
      ⟨((h.2 hlive).inText htext).1, ((h.2 hlive).inText htext).2.1⟩⟩
  rel_opened h := h.elim
  inv_report cause span h := ⟨(lawful_balanced []).inv_report cause span h.1, h.2⟩
  rel_report _ _ h := h.elim
  inv_spent bodies h := ⟨(lawful_balanced []).inv_spent bodies h.1, nofun⟩
  calm_of_wide := id
  wide_of_live := id
  live_of_peer := id
  calm_within := id
  wide_within := id
  live_atDepth := id
  not_calm_spent := id
  peer_of_report := id
  peer_of_reported _ h := h
  live_of_calm _ h _ _ _ := h
  live_of_wide _ h _ _ := h
  live_of_midLine _ _ h _ _ _ := h
  peer_of_next h _ _ := h
  peer_of_trimmed h _ _ := h
  token _ h _ := h.elim
  second _ _ h _ := h.elim
  third _ _ h _ := h.elim
  front_body _ _ _ h _ := h.elim
  indent _ _ h _ := h.elim
  trivia := spaced_tracks fun h => ⟨((lawful_balanced []).trivia h.1).1,
    fun hlive => (spaced_flushed h hlive).1⟩
  bump {c s} field hallows hne := by
    refine spaced_tracks fun h =>
      ⟨((lawful_balanced []).bump field hallows hne h.1).1, fun hlive => ?_⟩
    rw [show bump field s = bumpAs field none s from rfl, bumpAs_eq field _ s hne] at hlive
    have hlevel := isLevel_of_allows h.1.1 h.1.2.1 (h.1.2.2 hlive).pendingDedents hallows
    have hindent : s.front ≠ .indent := by
      intro hfront
      rw [hfront] at hlevel
      cases hlevel
    exact spaced_bumpAs hne hindent field none h hlive
  keyword {c s} word hmode hfront := by
    have hne : s.front ≠ .endOfInput := by
      rw [hfront]
      exact nofun
    have hindent : s.front ≠ .indent := by
      rw [hfront]
      exact nofun
    exact spaced_tracks_bumpAs (c := c) hne hindent none (some word) rfl rfl
      fun h => ((lawful_balanced []).keyword word hmode hfront h).1
  open_literal {c s} field hopens := by
    have hindent : s.front ≠ .indent := by
      intro hfront
      rw [hfront] at hopens
      cases hopens
    exact spaced_tracks_bumpAs (c := c) (e := c.opened) (ne_endOfInput_of_opensLiteral hopens) hindent
      field none rfl rfl fun h => ((lawful_balanced []).open_literal field hopens h).1
  open_body {c s} hfront hmode hbodies := by
    refine spaced_tracks fun h =>
      ⟨((lawful_balanced []).open_body hfront hmode hbodies h.1).1, fun hlive => ?_⟩
    have hne : s.front ≠ .endOfInput := by
      rw [hfront]
      exact nofun
    change (bumpAs none none s).2.exhausted = false at hlive
    rw [bumpAs_eq none _ s hne] at hlive
    exact spaced_openBody hfront h hlive
  close_body {c s} hfront hmode hbodies := by
    have hne : s.front ≠ .endOfInput := by
      rw [hfront]
      exact nofun
    have hindent : s.front ≠ .indent := by
      rw [hfront]
      exact nofun
    refine spaced_tracks fun h =>
      ⟨((lawful_balanced []).close_body hfront hmode hbodies h.1).1, fun hlive => ?_⟩
    rw [show bump none s = bumpAs none none s from rfl, bumpAs_eq none _ s hne] at hlive
    have hafter := spaced_bumpAs hne hindent none none h hlive
    have hnone := not_inText_bump hne hindent none (by rw [hfront]; exact nofun) h hlive
    refine hafter.context (Nat.zero_le 1) (fun _ => rfl) fun htext => absurd htext hnone
  end_body {c s} hfront hmode hbodies h := by
    refine ⟨⟨((lawful_balanced []).end_body hfront hmode hbodies h.1).1, fun hlive => ?_⟩,
      fun _ hrel => hrel.elim⟩
    have leveled := h.1.2.2 hlive
    rw [hbodies] at leveled
    exact absurd hfront (leveled.front_ne h.1.1 (h.1.2.1.mode.trans hmode))
  close_braces {c s} hmode := by
    refine spaced_tracks fun h =>
      ⟨((lawful_balanced []).close_braces hmode h.1).1, fun hlive => spaced_closeBraces h ?_⟩
    rw [closeBraces_eq] at hlive
    split at hlive
    · next hat =>
      rwa [bumpGlued_eq hat] at hlive
    · exact hlive

end Laws

end Grammar

end Justfile
