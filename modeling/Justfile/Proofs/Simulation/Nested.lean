import Justfile.Proofs.Reading.Progress
import Justfile.Proofs.Simulation.Action
import Justfile.Proofs.Simulation.Item
import Justfile.Proofs.Simulation.Moved

/-!
# Nested expressions

An expression leads to another one only behind a token that it consumed: what it calls in front of that
makes no difference (`expression_of_agree`). So nesting comes to an end, and the production for nested
expressions is the one for expressions again (`expression_tie`), with no budget left out of account.

Two runs from one state are compared. As long as no budget has run out both are in the same state, and
tokens were consumed since, or the scanner is where it was (`sameFrom`). An expression in a state with as
much work ahead as at the start would run out of the budget that is enough for all of them, and so there
is none.
-/

set_option autoImplicit false

namespace Justfile.Grammar

/-! ## The simulation -/

section Actions

variable {s : State}

theorem grows_flushed (wf : s.scanner.WellFormed) : Grows s s.flushed :=
  ((trimmed_flushed wf).outcome .outside Nat.one_pos).derives.grows

theorem grows_bumpAs (wf : s.scanner.WellFormed) (hne : s.front ≠ .endOfInput)
    (field : Option Field) (kind : Option Token.Kind) : Grows s (bumpAs field kind s).2 := by
  rw [bumpAs_eq field kind s hne]
  exact (grows_flushed wf).trans (grows_take _ _ _)

theorem grows_closeBraces (wf : s.scanner.WellFormed) : Grows s (closeBraces s).2 := by
  rw [closeBraces_eq]
  split
  · next hat =>
    rw [bumpGlued_eq hat]
    exact (grows_flushed wf).trans (grows_take _ _ _)
  · exact .inr ⟨rfl, rfl⟩

end Actions

/-- Two runs that started in one state are in the same state, as long as no budget has run out. -/
def sameFrom (start : State) : Simulation where
  place := id
  inv c s := s.scanner.WellFormed ∧ c.Governs s.stream ∧ Grows start s
  rel c s t := t = s ∧ c.Governs s.stream
  calm s := s.exhausted = false
  wide s := s.exhausted = false
  live s := s.exhausted = false
  peer s := s.exhausted = false

section SameFrom

variable {start : State}

/-- A production is tracked by itself. -/
theorem sameFrom_tracks {c e : Context} {s : State} {p : Parse Forest}
    (honward : s.scanner.WellFormed → Onward s (p s).2)
    (hgrows : s.scanner.WellFormed → Grows s (p s).2)
    (hgoverns : e.mode = c.mode ∧ e.nesting = c.nesting ∧ e.lineBound = c.lineBound) :
    (sameFrom start).Tracks c (fun s => s.exhausted = false) (sameFrom start).moved (fun _ => e)
      (fun _ s => s.exhausted = false) s p p := by
  rintro ⟨wf, governs, grows⟩
  have onward := honward wf
  have hafter : e.Governs (p s).2.stream := by
    obtain ⟨hmode, hnesting, hlineBound⟩ := onward.governs governs
    obtain ⟨hmode', hnesting', hlineBound'⟩ := hgoverns
    exact ⟨hmode.trans hmode'.symm, hnesting.trans hnesting'.symm,
      hlineBound.trans hlineBound'.symm⟩
  refine ⟨⟨onward.wellFormed wf, hafter, grows.trans (hgrows wf)⟩, fun hlive =>
    ⟨onward.exhausted.symm.trans hlive, ?_⟩⟩
  rintro t ⟨rfl, -⟩
  exact ⟨(Node.moveList_id _).symm, rfl, hafter⟩

theorem sameFrom_tracks_bumpAs {c e : Context} {s : State} (field : Option Field)
    (kind : Option Token.Kind) (hne : s.front ≠ .endOfInput)
    (hgoverns : e.mode = c.mode ∧ e.nesting = c.nesting ∧ e.lineBound = c.lineBound) :
    (sameFrom start).Tracks c (fun s => s.exhausted = false) (sameFrom start).moved (fun _ => e)
      (fun _ s => s.exhausted = false) s (bumpAs field kind) (bumpAs field kind) :=
  sameFrom_tracks (fun wf => onward_bumpAs wf hne field kind) (fun wf => grows_bumpAs wf hne field kind)
    hgoverns

theorem lawful_sameFrom (start : State) : (sameFrom start).Lawful where
  wellFormed h := h.1
  governs h := h.2.1
  governs_rel h := h.1 ▸ h.2
  depth h := by rw [h.1]
  offset h := by
    rw [h.1]
    rfl
  inv_within _ _ h := ⟨h.1, ⟨rfl, rfl, rfl⟩, h.2.2⟩
  rel_within _ h := ⟨by rw [h.1], rfl, rfl, rfl⟩
  inv_opened h := ⟨h.1, ⟨h.2.1.mode, h.2.1.nesting, h.2.1.lineBound⟩, h.2.2⟩
  rel_opened h := ⟨h.1, h.2.mode, h.2.nesting, h.2.lineBound⟩
  inv_report _ _ h := h
  rel_report _ _ h := ⟨by rw [h.1]; rfl, h.2⟩
  inv_spent _ h := ⟨h.1, ⟨h.2.1.mode, h.2.1.nesting, h.2.1.lineBound⟩, h.2.2⟩
  -- One condition stands for all of them: the budget lasts.
  calm_of_wide := id
  wide_of_live := id
  live_of_peer := id
  calm_within := id
  wide_within := id
  live_atDepth := id
  not_calm_spent := nofun
  peer_of_report := id
  peer_of_reported _ h := h
  live_of_calm _ h _ _ _ := h
  live_of_wide _ h _ _ := h
  live_of_midLine _ _ h _ _ _ := h
  peer_of_next h _ _ := h
  peer_of_trimmed h _ _ := h
  -- The states are the same, and so is what is ahead of them.
  token _ _ h := ⟨by rw [h.1], fun _ => by rw [h.1]; rfl, fun _ => by rw [h.1]⟩
  second _ _ _ h := ⟨by rw [h.1], fun _ => by rw [h.1]; rfl, fun _ => by rw [h.1]⟩
  third _ _ _ h := by rw [h.1]
  front_body _ _ _ _ h := by rw [h.1]
  indent _ _ _ h := by rw [h.1]
  trivia := sameFrom_tracks onward_flushed grows_flushed ⟨rfl, rfl, rfl⟩
  bump field _ hne := sameFrom_tracks_bumpAs field none hne ⟨rfl, rfl, rfl⟩
  keyword _ _ hfront :=
    sameFrom_tracks_bumpAs none _ (by rw [hfront]; exact nofun) ⟨rfl, rfl, rfl⟩
  open_literal field hopens :=
    sameFrom_tracks_bumpAs field none (ne_endOfInput_of_opensLiteral hopens) ⟨rfl, rfl, rfl⟩
  open_body {c s} hfront _ _ := by
    refine Simulation.Tracks.openBody ?_ ?_ ?_ fun _ => id
    · exact sameFrom_tracks_bumpAs none none (by rw [hfront]; exact nofun) ⟨rfl, rfl, rfl⟩
    · exact fun u h => ⟨h.1, ⟨rfl, h.2.1.nesting, h.2.1.lineBound⟩, h.2.2⟩
    · exact fun u t h => ⟨by rw [h.1], rfl, h.2.nesting, h.2.lineBound⟩
  close_body hfront _ _ :=
    sameFrom_tracks_bumpAs none none (by rw [hfront]; exact nofun) ⟨rfl, rfl, rfl⟩
  end_body _ _ _ h := ⟨⟨h.1, ⟨h.2.1.mode, h.2.1.nesting, h.2.1.lineBound⟩, h.2.2⟩,
    fun _ hrel => ⟨hrel.1, hrel.2.mode, hrel.2.nesting, hrel.2.lineBound⟩⟩
  close_braces _ := sameFrom_tracks onward_closeBraces grows_closeBraces ⟨rfl, rfl, rfl⟩

end SameFrom

/-! ## Budgets that are not used up -/

/-- The context of a state, outside of bodies. -/
def State.context (s : State) : Context :=
  ⟨s.stream.mode, s.stream.nesting, s.stream.lineBound, 0, false⟩

section Budgets

variable {limit budget bound base : Nat} {s : State}

/-- If the first of two runs ends with budget left, the second one ends as the first. -/
theorem eq_of_follows {p q : Parse Forest} (wf : s.scanner.WellFormed)
    (h : (sameFrom s).Follows s.context (sameFrom s).live (sameFrom s).live s p q)
    (hlive : (p s).2.exhausted = false) : q s = p s := by
  obtain ⟨-, hrun⟩ := h ⟨wf, ⟨rfl, rfl, rfl⟩, .refl s⟩
  obtain ⟨hnodes, hstate, -⟩ := (hrun hlive).2 s ⟨rfl, rfl, rfl, rfl⟩
  exact Prod.ext (hnodes.trans (Node.moveList_id _)) hstate

/-- With a larger budget, a source is read in the same way. -/
theorem file_tie_of_le (limit : Nat) (source : Text) (hle : budgetFor source.length ≤ budget) :
    file (.tie limit budget) (.ofText source) = run limit source := by
  have lawful := lawful_sameFrom (.ofText source)
  have hfile := lawful.file (c := (State.ofText source).context) (s := .ofText source) rfl rfl
    (lawful.pairs_tie (Nat.le_refl limit) (.inl rfl) hle) rfl
  have hlive := exhausted_run limit source
  rw [run_eq] at hlive ⊢
  exact eq_of_follows (Scanner.wellFormed_ofText source) hfile hlive

/-- The production for nested expressions is the one for expressions. -/
theorem expression_tie (entry : Entry limit bound base s) (hmode : s.stream.mode = .normal)
    (hlive : s.exhausted = false) (field : Option Field) :
    (Rules.tie limit (bound + 1)).expression field s = expression (.tie limit (bound + 1)) field s := by
  have hnested := (lawful_sameFrom s).expressionAt (c := s.context) (Nat.le_refl limit) (.inl rfl)
    (Nat.le_refl (bound + 1)) (Nat.le_succ (bound + 1)) hmode field
  have hreads := serves_tie.expression entry .outside (Nat.le_refl base) field
  have hafter := hreads.derives.advances.exhausted_eq.trans hlive
  exact (eq_of_follows entry.wellFormed (hnested.follows s) hafter).symm

end Budgets

/-! ## What an expression leads to -/

/-- The rules, with nested expressions read as long as there is less work ahead than the bound. -/
def Rules.below (rules : Rules) (bound : Nat) : Rules :=
  { rules with
    expression := fun field s =>
      if s.scanner.work < bound then rules.expression field s else ([], s.spent) }

section Below

variable {rules : Rules} {limit bound low base : Nat} {s : State}

theorem below_expression (h : s.scanner.work < low) (field : Option Field) :
    (rules.below low).expression field s = rules.expression field s := if_pos h

theorem below_expression_spent (h : ¬s.scanner.work < low) (field : Option Field) :
    (rules.below low).expression field s = ([], s.spent) := if_neg h

/-- Below the bound nothing is missing from the rules. -/
theorem serves_below (serves : Serves rules bound) (hle : low ≤ bound) :
    Serves (rules.below low) low := by
  refine ⟨Nat.lt_of_le_of_lt hle serves.budget, ?_⟩
  intro base s entry place height hbase field
  unfold Ensures
  rw [below_expression entry.work_lt]
  exact serves.expression ⟨⟨entry.wellFormed, Nat.lt_of_lt_of_le entry.work_lt hle, entry.reach_le⟩,
    entry.outer⟩ place hbase field

/-- Behind a token, nested expressions are read in one way. -/
theorem pairs_below {start : State} {other : Option Field → Parse Forest}
    (hagree : ∀ field s, start.consumed.length < s.consumed.length →
      other field s = (Rules.tie limit bound).expression field s) :
    (sameFrom start).Pairs ((Rules.tie limit bound).below start.scanner.work)
      { Rules.tie limit bound with expression := other } := by
  have lawful := lawful_sameFrom start
  have pairs : (sameFrom start).Pairs (.tie limit bound) (.tie limit bound) :=
    lawful.pairs_tie (Nat.le_refl limit) (.inl rfl) (Nat.le_refl bound)
  refine ⟨Nat.le_refl _, .inl rfl, Nat.le_refl _, ?_, ?_⟩
  · intro c s field hmode
    refine Simulation.Tracks.of_inv fun hinv => ?_
    by_cases hwork : s.scanner.work < start.scanner.work
    · refine Simulation.Tracks.congr (fun _ => below_expression hwork field) ?_
        (pairs.expression field hmode)
      rintro t ⟨rfl, -⟩
      exact hagree field t (hinv.2.2.length_lt hwork)
    · -- No less work is ahead than at the start: the first run gives up, and nothing is compared.
      intro _
      rw [below_expression_spent hwork]
      exact ⟨lawful.inv_spent c.bodies hinv, nofun⟩
  · intro c s field hmode hinv
    unfold Stops Ensures
    by_cases hwork : s.scanner.work < start.scanner.work
    · rw [below_expression hwork]
      exact pairs.stops field hmode hinv
    · rw [below_expression_spent hwork]
      exact fun _ => nofun

/-- What an expression is depends on nested expressions only where a token was consumed since its start:
there is no other place from which it leads to one. -/
theorem expression_of_agree (entry : Entry limit bound base s) (hmode : s.stream.mode = .normal)
    (hlive : s.exhausted = false) {other : Option Field → Parse Forest}
    (hagree : ∀ field t, s.consumed.length < t.consumed.length →
      other field t = (Rules.tie limit (bound + 1)).expression field t) (field : Option Field) :
    expression { Rules.tie limit (bound + 1) with expression := other } field s =
      expression (.tie limit (bound + 1)) field s := by
  have lawful := lawful_sameFrom s
  have serves : Serves ((Rules.tie limit (bound + 1)).below s.scanner.work) s.scanner.work :=
    serves_below serves_tie (Nat.le_of_lt entry.work_lt)
  have hreads := expression_spec .outside serves
    ⟨⟨entry.wellFormed, Nat.lt_succ_self _, entry.reach_le⟩, entry.outer⟩ (Nat.le_refl base) field
  have hafter := hreads.derives.advances.exhausted_eq.trans hlive
  -- Both are the run that reads nested expressions below the start only.
  have hother := eq_of_follows entry.wellFormed
    (lawful.expression (c := s.context) hmode (pairs_below hagree) field) hafter
  have hsame := eq_of_follows entry.wellFormed
    (lawful.expression (c := s.context) hmode (pairs_below fun _ _ _ => rfl) field) hafter
  exact hother.trans hsame.symm

end Below

end Justfile.Grammar
