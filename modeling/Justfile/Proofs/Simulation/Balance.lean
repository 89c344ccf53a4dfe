import Justfile.Proofs.Scanner.Level
import Justfile.Proofs.Simulation.Action
import Justfile.Proofs.Simulation.Item

/-!
# Balance of indentation

An invariant of all productions, carried by a simulation that compares a run with nothing
(`balanced`). Outside of recipe bodies no level is open, inside of one there is exactly one, and the
`indent`s and `dedent`s consumed so far come in pairs, up to the `indent` of an open body. No body is
pending, so that a `dedent` can only be found in the mode of bodies.

A context with more bodies than a recipe can open stands for a stretch of reading in which no level
is touched: there the invariant says that no `indent` or `dedent` is consumed at all.
-/

set_option autoImplicit false

namespace Justfile

/-- The kinds of the tokens that move between levels, in the order of the tokens. -/
def levelKinds (tokens : List Token) : List Token.Kind :=
  (tokens.map Token.kind).filter Token.Kind.isLevel

@[simp] theorem levelKinds_append (front back : List Token) :
    levelKinds (front ++ back) = levelKinds front ++ levelKinds back := by
  simp [levelKinds]

theorem levelKinds_of_forall {tokens : List Token} (h : ∀ token ∈ tokens, token.kind.isLevel = false) :
    levelKinds tokens = [] := by
  simpa [levelKinds] using h

theorem levelKinds_cons_of_not {token : Token} (h : token.kind.isLevel = false)
    (tokens : List Token) : levelKinds (token :: tokens) = levelKinds tokens := by
  simp [levelKinds, h]

theorem levelKinds_cons_of {token : Token} (h : token.kind.isLevel = true) (tokens : List Token) :
    levelKinds (token :: tokens) = token.kind :: levelKinds tokens := by
  simp [levelKinds, h]

theorem Stream.isLevel_of_isTrivia {s : Stream} {kind : Token.Kind} (h : s.isTrivia kind = true) :
    kind.isLevel = false := by
  unfold Token.Kind.isLevel
  split
  · cases h
  · cases h
  · rfl

namespace Scanner

variable {s t : Scanner} {mode : Mode}

/-- With no body pending, an `indent` needs the mode that looks for a body, and a `dedent` the mode
of bodies. -/
theorem isLevel_next (wf : s.WellFormed) (hpending : s.pendingDedents = 0)
    (hallows : mode.isFlat = true ∨ (mode = .body ∧ (s.next mode).1.kind ≠ .dedent)) :
    (s.next mode).1.kind.isLevel = false := by
  rcases (step_next s mode).levels_cases wf with ⟨hkind, -⟩ | ⟨rfl, -⟩ | ⟨hmode, hkind, -⟩
  · exact hkind
  · rcases hallows with hflat | ⟨hmode, -⟩
    · cases hflat
    · cases hmode
  · rw [hpending] at hmode
    obtain rfl := hmode.resolve_right (Nat.lt_irrefl 0)
    rcases hallows with hflat | ⟨-, hnot⟩
    · cases hflat
    · exact absurd hkind hnot

/-- Other tokens leave the levels alone. -/
theorem levels_next (wf : s.WellFormed) (hkind : (s.next mode).1.kind.isLevel = false) :
    (s.next mode).2.levels = s.levels ∧ (s.next mode).2.pendingDedents = s.pendingDedents := by
  rcases (step_next s mode).levels_cases wf with ⟨-, hsame⟩ | ⟨-, width, htoken, -⟩ | ⟨-, hdedent, -⟩
  · exact hsame
  · rw [htoken] at hkind
    cases hkind
  · rw [hdedent] at hkind
    cases hkind

theorem Run.levels {tokens : List Token} (run : Run mode s tokens t) (wf : s.WellFormed)
    (hkinds : ∀ token ∈ tokens, token.kind.isLevel = false) :
    t.levels = s.levels ∧ t.pendingDedents = s.pendingDedents := by
  induction run with
  | nil => exact ⟨rfl, rfl⟩
  | @cons s t tokens _ ih =>
    obtain ⟨hlevels, hpending⟩ := levels_next wf (hkinds _ List.mem_cons_self)
    obtain ⟨hlevels', hpending'⟩ := ih (wf.next mode)
      fun token hmem => hkinds token (List.mem_cons_of_mem _ hmem)
    exact ⟨hlevels'.trans hlevels, hpending'.trans hpending⟩

end Scanner

namespace Grammar

/-! ## Steady states -/

/-- From one state to a later one no level is touched. -/
structure Steady (s t : State) : Prop extends Onward s t where
  levels : t.scanner.levels = s.scanner.levels
  pendingDedents : t.scanner.pendingDedents = s.scanner.pendingDedents
  kinds : levelKinds t.consumed = levelKinds s.consumed

section Steady

variable {s t u : State} {c : Context}

theorem Steady.trans (first : Steady s t) (second : Steady t u) : Steady s u :=
  ⟨first.toOnward.trans second.toOnward, second.levels.trans first.levels,
    second.pendingDedents.trans first.pendingDedents, second.kinds.trans first.kinds⟩

theorem steady_report (s : State) (cause : Cause) (span : Span) :
    Steady s (s.withReport cause span) :=
  ⟨onward_report s cause span, rfl, rfl, rfl⟩

theorem steady_flushed (wf : s.scanner.WellFormed) : Steady s s.flushed := by
  obtain ⟨hrun, htrivia, -⟩ := Stream.takeTrivia_spec wf
  have hkinds : ∀ token ∈ s.stream.takeTrivia.1, token.kind.isLevel = false :=
    fun token hmem => Stream.isLevel_of_isTrivia (htrivia token hmem)
  obtain ⟨hlevels, hpending⟩ := hrun.levels wf hkinds
  refine ⟨onward_flushed wf, hlevels, hpending, ?_⟩
  have hnone : levelKinds s.stream.takeTrivia.1.reverse = [] :=
    levelKinds_of_forall fun token hmem => hkinds token (List.mem_reverse.1 hmem)
  change levelKinds (s.stream.takeTrivia.1.reverse ++ s.consumed) = _
  rw [levelKinds_append, hnone, List.nil_append]

/-- A token is taken that does not move between levels, perhaps as one of another kind. -/
theorem steady_take (wf : s.scanner.WellFormed) (hkind : s.step.1.kind.isLevel = false)
    {token : Token} (htoken : token.kind.isLevel = false) : Steady s (s.take token s.step.2) := by
  obtain ⟨hlevels, hpending⟩ := Scanner.levels_next wf hkind
  exact ⟨onward_take s token fun hwf => hwf.next _, hlevels, hpending,
    levelKinds_cons_of_not htoken s.consumed⟩

/-- The next significant token is the one behind the trivia. -/
theorem front_eq_step (wf : s.scanner.WellFormed) :
    s.front = (s.flushed.scanner.next s.flushed.stream.mode).1.kind :=
  (trimmed_flushed wf).step_kind.symm

/-- What a context allows to be consumed does not move between levels. -/
theorem isLevel_of_allows (wf : s.scanner.WellFormed) (governs : c.Governs s.stream)
    (hpending : s.scanner.pendingDedents = 0) (hallows : c.Allows s.front) :
    s.front.isLevel = false := by
  have hsteady := steady_flushed wf
  have hmode : s.flushed.stream.mode = c.mode := governs.mode
  unfold Context.Allows at hallows
  rw [front_eq_step wf, ← hmode] at hallows
  rw [front_eq_step wf]
  exact Scanner.isLevel_next (hsteady.wellFormed wf) (hsteady.pendingDedents.trans hpending)
    (hallows.imp_right fun ⟨hbody, _, hkind⟩ => ⟨hbody, hkind⟩)

theorem steady_bumpAs (wf : s.scanner.WellFormed) (hlevel : s.front.isLevel = false)
    (hne : s.front ≠ .endOfInput) (field : Option Field) (word : Option Keyword) :
    Steady s (bumpAs field (word.map .keyword) s).2 := by
  rw [front_eq_step wf] at hlevel
  rw [bumpAs_eq field _ s hne]
  refine (steady_flushed wf).trans (steady_take ((steady_flushed wf).wellFormed wf) hlevel ?_)
  cases word with
  | none => exact hlevel
  | some word => rfl

theorem steady_closeBraces (wf : s.scanner.WellFormed) : Steady s (closeBraces s).2 := by
  rw [closeBraces_eq]
  split
  · next hat =>
    obtain ⟨hfirst, -, hsecond⟩ := Stream.atGlued_spec hat
    have hsteady := steady_flushed wf
    have hwf := hsteady.wellFormed wf
    have hkind : (s.flushed.scanner.next s.stream.mode).1.kind.isLevel = false := by
      change s.stream.flushed.step.1.kind.isLevel = false
      rw [hfirst]
      rfl
    obtain ⟨hlevels, hpending⟩ := Scanner.levels_next hwf hkind
    have hkind : ((s.flushed.scanner.next s.stream.mode).2.next s.stream.mode).1.kind.isLevel =
        false := by
      change (s.stream.flushed.step.2.next s.stream.mode).1.kind.isLevel = false
      rw [hsecond]
      rfl
    obtain ⟨hlevels', hpending'⟩ := Scanner.levels_next (hwf.next s.stream.mode) hkind
    refine ⟨?_, ?_, ?_, ?_⟩
    · have honward := onward_closeBraces wf
      rwa [closeBraces_eq, if_pos hat] at honward
    all_goals rw [bumpGlued_eq hat]
    · exact (hlevels'.trans hlevels).trans hsteady.levels
    · exact (hpending'.trans hpending).trans hsteady.pendingDedents
    · exact (levelKinds_cons_of_not rfl s.flushed.consumed).trans hsteady.kinds
  · exact steady_report s _ _

end Steady

/-! ## Phases -/

/-- So many pairs of an `indent` and a `dedent`, the latest token first. -/
def pairedKinds (count : Nat) : List Token.Kind := (List.replicate count [.dedent, .indent]).flatten

/-- What is known with a number of open bodies: with none or one, the tokens that were consumed are
paired; with more, they are the given ones. -/
def Phase (kinds : List Token.Kind) : Nat → State → Prop
  | 0, s => s.scanner.levels = [] ∧ ∃ count, levelKinds s.consumed = pairedKinds count
  | 1, s => (∃ width, s.scanner.levels = [width]) ∧
      ∃ count, levelKinds s.consumed = .indent :: pairedKinds count
  | _, s => levelKinds s.consumed = kinds

/-- No body is pending, and the levels are as the phase says. -/
structure Leveled (kinds : List Token.Kind) (bodies : Nat) (s : State) : Prop where
  pendingDedents : s.scanner.pendingDedents = 0
  phase : Phase kinds bodies s

section Phase

variable {kinds : List Token.Kind} {bodies : Nat} {s t : State}

theorem Leveled.steady (leveled : Leveled kinds bodies s) (steady : Steady s t) :
    Leveled kinds bodies t := by
  obtain ⟨hpending, hphase⟩ := leveled
  refine ⟨steady.pendingDedents.trans hpending, ?_⟩
  rcases bodies with _ | _ | bodies
  all_goals
    simp only [Phase, steady.levels, steady.kinds] at hphase ⊢
    exact hphase

theorem Leveled.within (leveled : Leveled kinds bodies s) (mode : Mode) (nesting : Nat)
    (lineBound : Bool) (depth : Nat) :
    Leveled kinds bodies (s.within mode nesting lineBound depth) := by
  obtain ⟨hpending, hphase⟩ := leveled
  refine ⟨hpending, ?_⟩
  rcases bodies with _ | _ | bodies
  all_goals exact hphase

/-- The token that opens a body. -/
theorem Leveled.opened (leveled : Leveled kinds 0 s) (wf : s.scanner.WellFormed)
    (hfront : s.front = .indent) (field : Option Field) :
    Leveled kinds 1 (bumpAs field none s).2 := by
  have hwf := (steady_flushed wf).wellFormed wf
  have hkind := (front_eq_step wf).symm.trans hfront
  obtain ⟨hpending, hlevels, count, hcount⟩ := leveled.steady (steady_flushed wf)
  rw [bumpAs_eq field none s (by rw [hfront]; exact nofun)]
  rcases (Scanner.step_next s.flushed.scanner s.flushed.stream.mode).levels_cases hwf with
    ⟨hlevel, -⟩ | ⟨-, width, -, -, hpushed, hpending'⟩ | ⟨-, hdedent, -⟩
  · rw [hkind] at hlevel
    cases hlevel
  · refine ⟨hpending'.trans hpending, ⟨width, ?_⟩, count, ?_⟩
    · exact hpushed.trans (by rw [hlevels])
    · change levelKinds
        ((s.flushed.scanner.next s.flushed.stream.mode).1 :: s.flushed.consumed) = _
      rw [levelKinds_cons_of (by rw [hkind]; rfl), hkind, hcount]
  · rw [hkind] at hdedent
    cases hdedent

/-- The token that closes a body. -/
theorem Leveled.closed (leveled : Leveled kinds 1 s) (wf : s.scanner.WellFormed)
    (hfront : s.front = .dedent) (field : Option Field) :
    Leveled kinds 0 (bumpAs field none s).2 := by
  have hwf := (steady_flushed wf).wellFormed wf
  have hkind := (front_eq_step wf).symm.trans hfront
  obtain ⟨hpending, ⟨width, hlevels⟩, count, hcount⟩ := leveled.steady (steady_flushed wf)
  rw [bumpAs_eq field none s (by rw [hfront]; exact nofun)]
  rcases (Scanner.step_next s.flushed.scanner s.flushed.stream.mode).levels_cases hwf with
    ⟨hlevel, -⟩ | ⟨-, width, htoken, -⟩ | ⟨-, -, closed, hpopped, hpending'⟩
  · rw [hkind] at hlevel
    cases hlevel
  · rw [htoken] at hkind
    cases hkind
  · -- One level is open, and at least one is closed.
    rw [hlevels] at hpopped
    rw [hpending, Nat.zero_add] at hpending'
    have hlength := congrArg List.length hpopped
    rw [List.length_append, List.length_singleton] at hlength
    refine ⟨?_, ?_, count + 1, ?_⟩
    · change (s.flushed.scanner.next s.flushed.stream.mode).2.pendingDedents = 0
      omega
    · apply List.length_eq_zero_iff.1
      change (s.flushed.scanner.next s.flushed.stream.mode).2.levels.length = 0
      omega
    · change levelKinds
        ((s.flushed.scanner.next s.flushed.stream.mode).1 :: s.flushed.consumed) = _
      rw [levelKinds_cons_of (by rw [hkind]; rfl), hkind, hcount]
      rfl

/-- Where a level is open, a body does not end with the input. -/
theorem Leveled.front_ne (leveled : Leveled kinds 1 s) (wf : s.scanner.WellFormed)
    (hmode : s.stream.mode = .body) : s.front ≠ .endOfInput := by
  intro hfront
  have hwf := (steady_flushed wf).wellFormed wf
  have hkind := (front_eq_step wf).symm.trans hfront
  obtain ⟨-, ⟨width, hlevels⟩, -⟩ := leveled.steady (steady_flushed wf)
  rw [(Scanner.atEnd_of_endOfInput hwf hkind).levels hmode] at hlevels
  cases hlevels

end Phase

/-! ## The simulation -/

/-- A run on its own. Nothing is compared: the guards never hold. -/
def balanced (kinds : List Token.Kind) : Simulation where
  place := id
  inv c s := s.scanner.WellFormed ∧ c.Governs s.stream ∧
    (s.exhausted = false → Leveled kinds c.bodies s)
  rel _ _ _ := False
  calm _ := False
  wide _ := False
  live _ := False
  peer _ := False

section Balanced

variable {kinds : List Token.Kind} {c e : Context} {s : State}

/-- Of two productions only the invariant of the first one is to be shown. -/
theorem balanced_tracks {α β : Type} {p : Parse α} {q : Parse β} {m : α → β} {d : α → Context}
    (h : (balanced kinds).inv c s → (balanced kinds).inv (d (p s).1) (p s).2) :
    (balanced kinds).Tracks c (fun _ => False) m d (fun _ _ => False) s p q :=
  fun hinv => ⟨h hinv, False.elim⟩

theorem balanced_steady {p : Parse Forest} (hgoverns : e.mode = c.mode ∧ e.nesting = c.nesting ∧
      e.lineBound = c.lineBound ∧ e.bodies = c.bodies)
    (honward : (balanced kinds).inv c s → Onward s (p s).2)
    (hsteady : (balanced kinds).inv c s → s.scanner.pendingDedents = 0 → Steady s (p s).2) :
    (balanced kinds).Tracks c (fun _ => False) (balanced kinds).moved (fun _ => e)
      (fun _ _ => False) s p p := by
  refine balanced_tracks fun hinv => ?_
  have onward := honward hinv
  have hsteady := hsteady hinv
  obtain ⟨hwf, hgov, hleveled⟩ := hinv
  obtain ⟨hmode, hnesting, hlineBound⟩ := onward.governs hgov
  obtain ⟨hmode', hnesting', hlineBound', hbodies⟩ := hgoverns
  refine ⟨onward.wellFormed hwf, ⟨hmode.trans hmode'.symm, hnesting.trans hnesting'.symm,
    hlineBound.trans hlineBound'.symm⟩, fun hexhausted => ?_⟩
  have leveled := hleveled (onward.exhausted ▸ hexhausted)
  rw [hbodies]
  exact leveled.steady (hsteady leveled.pendingDedents)

/-- Behind the token that opens a body, one is open. -/
theorem balanced_opened (hfront : s.front = .indent) (hbodies : c.bodies = 0)
    (h : (balanced kinds).inv c s) : (balanced kinds).inv (c.withBodies 1) (bump none s).2 := by
  obtain ⟨hwf, hgov, hleveled⟩ := h
  have onward := onward_bumpAs hwf (by rw [hfront]; exact nofun) none none
  obtain ⟨hmode, hnesting, hlineBound⟩ := onward.governs hgov
  refine ⟨onward.wellFormed hwf, ⟨hmode, hnesting, hlineBound⟩, fun hexhausted => ?_⟩
  have leveled := hleveled (onward.exhausted ▸ hexhausted)
  rw [hbodies] at leveled
  exact leveled.opened hwf hfront none

theorem lawful_balanced (kinds : List Token.Kind) : (balanced kinds).Lawful where
  wellFormed h := h.1
  governs h := h.2.1
  -- No two states are related, so that only the invariant is left to keep.
  governs_rel h := h.elim
  depth h := h.elim
  offset h := h.elim
  inv_within _ _ h := ⟨h.1, ⟨rfl, rfl, rfl⟩, fun hexhausted => (h.2.2 hexhausted).within _ _ _ _⟩
  rel_within _ h := h.elim
  inv_opened h := ⟨h.1, ⟨h.2.1.mode, h.2.1.nesting, h.2.1.lineBound⟩, h.2.2⟩
  rel_opened h := h.elim
  inv_report cause span h := ⟨h.1, h.2.1, fun hexhausted =>
    (h.2.2 hexhausted).steady (steady_report _ cause span)⟩
  rel_report _ _ h := h.elim
  -- Levels count only while a budget lasts.
  inv_spent _ h := ⟨h.1, ⟨h.2.1.mode, h.2.1.nesting, h.2.1.lineBound⟩, nofun⟩
  calm_of_wide := id
  wide_of_live := id
  live_of_peer := id
  calm_within := id
  wide_within := id
  live_atDepth := id
  not_calm_spent := id
  peer_of_report := id
  peer_of_reported _ h := h
  live_of_calm _ h _ _ _ := h
  live_of_wide _ h _ _ := h
  live_of_midLine _ _ h _ _ _ := h
  peer_of_next h _ _ := h
  peer_of_trimmed h _ _ := h
  token _ h _ := h.elim
  second _ _ h _ := h.elim
  third _ _ h _ := h.elim
  front_body _ _ _ h _ := h.elim
  indent _ _ h _ := h.elim
  trivia := balanced_steady ⟨rfl, rfl, rfl, rfl⟩ (fun h => onward_flushed h.1)
    fun h _ => steady_flushed h.1
  bump field hallows hne := balanced_steady ⟨rfl, rfl, rfl, rfl⟩
    (fun h => onward_bumpAs h.1 hne field none)
    fun h hpending => steady_bumpAs h.1 (isLevel_of_allows h.1 h.2.1 hpending hallows) hne field
      none
  keyword {c s} word _ hfront := by
    have hne : s.front ≠ .endOfInput := by
      rw [hfront]
      exact nofun
    exact balanced_steady (c := c) ⟨rfl, rfl, rfl, rfl⟩ (fun h => onward_bumpAs h.1 hne none _)
      fun h _ => steady_bumpAs h.1 (by rw [hfront]; rfl) hne none (some word)
  open_literal field hopens := by
    have hne := ne_endOfInput_of_opensLiteral hopens
    exact balanced_steady ⟨rfl, rfl, rfl, rfl⟩ (fun h => onward_bumpAs h.1 hne field none)
      fun h _ => steady_bumpAs h.1 (Token.Kind.isLevel_of_opensLiteral hopens) hne field none
  open_body hfront _ hbodies := by
    refine Simulation.Tracks.openBody (balanced_tracks fun h => balanced_opened hfront hbodies h)
      (fun u h => ?_) (fun _ _ h => h.elim) fun _ => id
    exact ⟨h.1, ⟨rfl, h.2.1.nesting, h.2.1.lineBound⟩, fun hexhausted =>
      (h.2.2 hexhausted).within .body u.stream.nesting u.stream.lineBound u.depth⟩
  close_body hfront _ hbodies := by
    refine balanced_tracks fun h => ?_
    obtain ⟨hwf, hgov, hleveled⟩ := h
    have onward := onward_bumpAs hwf (by rw [hfront]; exact nofun) none none
    obtain ⟨hmode, hnesting, hlineBound⟩ := onward.governs hgov
    refine ⟨onward.wellFormed hwf, ⟨hmode, hnesting, hlineBound⟩, fun hexhausted => ?_⟩
    have leveled := hleveled (onward.exhausted ▸ hexhausted)
    rw [hbodies] at leveled
    exact leveled.closed hwf hfront none
  end_body hfront hmode hbodies h := by
    obtain ⟨hwf, hgov, hleveled⟩ := h
    refine ⟨⟨hwf, ⟨hgov.mode, hgov.nesting, hgov.lineBound⟩, fun hexhausted => ?_⟩,
      fun _ hrel => hrel.elim⟩
    have leveled := hleveled hexhausted
    rw [hbodies] at leveled
    -- Inside a body the input does not end in front of a dedent.
    exact absurd hfront (leveled.front_ne hwf (hgov.mode.trans hmode))
  close_braces _ := balanced_steady ⟨rfl, rfl, rfl, rfl⟩ (fun h => onward_closeBraces h.1)
    fun h _ => steady_closeBraces h.1

/-- Before a source is read, no body is open. -/
theorem balanced_start (kinds : List Token.Kind) (source : Text) :
    (balanced kinds).inv .outer (.ofText source) :=
  ⟨Scanner.wellFormed_ofText source, ⟨rfl, rfl, rfl⟩, fun _ => ⟨rfl, rfl, 0, rfl⟩⟩

end Balanced

end Grammar

end Justfile
