import Justfile.Proofs.Reading.File
import Justfile.Proofs.Simulation.Action
import Justfile.Proofs.Simulation.Item
import Justfile.Proofs.Simulation.Moved

/-!
# Raising the limit

The limit on nested expressions shows in a tree only where it is reached. Two runs on one source are
compared, with a limit and with a higher one. As long as the first run has not reported that
expressions are nested too deep, both are in the same state; so if it never does, the trees are the
same (`parse_of_limit_le`).
-/

set_option autoImplicit false

namespace Justfile

/-- The cause is that expressions are nested beyond the limit. -/
def Cause.isTooDeep : Cause → Bool
  | nestingTooDeep _ => true
  | _ => false

theorem Cause.code_eq_iff (cause : Cause) : cause.code = "nesting_too_deep" ↔ cause.isTooDeep := by
  cases cause with
  | lexical fault => cases fault <;> simp [code, isTooDeep, Fault.code]
  | _ => simp [code, isTooDeep]

namespace Grammar

/-! ## The simulation -/

/-- No limit has been reached, nor the end of a budget. -/
def State.Shallow (s : State) : Prop :=
  s.exhausted = false ∧ ∀ report ∈ s.reports, report.cause.isTooDeep = false

theorem Onward.shallow {s t : State} (h : Onward s t) (shallow : t.Shallow) : s.Shallow :=
  ⟨h.exhausted ▸ shallow.1, fun report hmem => shallow.2 report (h.reports.subset hmem)⟩

/-- Two runs on one source are in the same state. -/
def sameSource : Simulation where
  place := id
  inv c s := s.scanner.WellFormed ∧ c.Governs s.stream
  rel c s t := t = s ∧ c.Governs s.stream
  calm := State.Shallow
  wide := State.Shallow
  live := State.Shallow
  peer := State.Shallow

/-- A production is tracked by itself. -/
theorem sameSource_tracks {c e : Context} {s : State} {p : Parse Forest}
    (honward : sameSource.inv c s → Onward s (p s).2)
    (hgoverns : e.mode = c.mode ∧ e.nesting = c.nesting ∧ e.lineBound = c.lineBound) :
    sameSource.Tracks c State.Shallow sameSource.moved (fun _ => e) (fun _ => State.Shallow) s p p := by
  intro hinv
  have onward := honward hinv
  have governs : e.Governs (p s).2.stream := by
    obtain ⟨hmode, hnesting, hlineBound⟩ := onward.governs hinv.2
    obtain ⟨hmode', hnesting', hlineBound'⟩ := hgoverns
    exact ⟨hmode.trans hmode'.symm, hnesting.trans hnesting'.symm,
      hlineBound.trans hlineBound'.symm⟩
  refine ⟨⟨onward.wellFormed hinv.1, governs⟩, fun hpost => ⟨onward.shallow hpost, ?_⟩⟩
  rintro t ⟨rfl, -⟩
  exact ⟨(Node.moveList_id _).symm, rfl, governs⟩

theorem lawful_sameSource : sameSource.Lawful where
  wellFormed h := h.1
  governs h := h.2
  governs_rel h := h.1 ▸ h.2
  depth h := by rw [h.1]
  offset h := by
    rw [h.1]
    rfl
  inv_within _ _ h := ⟨h.1, rfl, rfl, rfl⟩
  rel_within _ h := ⟨by rw [h.1], rfl, rfl, rfl⟩
  inv_opened h := ⟨h.1, h.2.mode, h.2.nesting, h.2.lineBound⟩
  rel_opened h := ⟨h.1, h.2.mode, h.2.nesting, h.2.lineBound⟩
  inv_report _ _ h := h
  rel_report _ _ h := ⟨by rw [h.1]; rfl, h.2⟩
  inv_spent _ h := ⟨h.1, h.2.mode, h.2.nesting, h.2.lineBound⟩
  -- One condition stands for all of them: the budget lasts, and nothing is nested too deep.
  calm_of_wide := id
  wide_of_live := id
  live_of_peer := id
  calm_within := id
  wide_within := id
  live_atDepth := id
  not_calm_spent h := by cases h.1
  peer_of_report h := (onward_report _ _ _).shallow h
  peer_of_reported _ h := h
  live_of_calm _ h _ _ _ := h
  live_of_wide _ h _ _ := h
  live_of_midLine _ _ h _ _ _ := h
  peer_of_next h _ _ := h
  peer_of_trimmed h _ _ := h
  -- The states are the same, and so is what is ahead of them.
  token _ _ h := ⟨by rw [h.1], fun _ => by rw [h.1]; rfl, fun _ => by rw [h.1]⟩
  second _ _ _ h := ⟨by rw [h.1], fun _ => by rw [h.1]; rfl, fun _ => by rw [h.1]⟩
  third _ _ _ h := by rw [h.1]
  front_body _ _ _ _ h := by rw [h.1]
  indent _ _ _ h := by rw [h.1]
  trivia := sameSource_tracks (fun h => onward_flushed h.1) ⟨rfl, rfl, rfl⟩
  bump field _ hne :=
    sameSource_tracks (fun h => onward_bumpAs h.1 hne field none) ⟨rfl, rfl, rfl⟩
  keyword _ _ hfront :=
    sameSource_tracks (fun h => onward_bumpAs h.1 (by rw [hfront]; exact nofun) none _)
      ⟨rfl, rfl, rfl⟩
  open_literal field hopens :=
    sameSource_tracks (fun h => onward_bumpAs h.1 (ne_endOfInput_of_opensLiteral hopens) field none)
      ⟨rfl, rfl, rfl⟩
  open_body {c s} hfront _ _ := by
    refine Simulation.Tracks.openBody ?_ ?_ ?_ fun _ => id
    · refine sameSource_tracks (fun h => onward_bumpAs h.1 ?_ none none) ⟨rfl, rfl, rfl⟩
      rw [hfront]
      exact nofun
    · exact fun u h => ⟨h.1, rfl, h.2.nesting, h.2.lineBound⟩
    · exact fun u t h => ⟨by rw [h.1], rfl, h.2.nesting, h.2.lineBound⟩
  close_body hfront _ _ := by
    refine sameSource_tracks (fun h => onward_bumpAs h.1 ?_ none none) ⟨rfl, rfl, rfl⟩
    rw [hfront]
    exact nofun
  end_body _ _ _ h := ⟨⟨h.1, h.2.mode, h.2.nesting, h.2.lineBound⟩,
    fun _ hrel => ⟨hrel.1, hrel.2.mode, hrel.2.nesting, hrel.2.lineBound⟩⟩
  close_braces _ := sameSource_tracks (fun h => onward_closeBraces h.1) ⟨rfl, rfl, rfl⟩

/-! ## Runs and trees -/

theorem run_of_limit_le {limit limit' : Nat} (hle : limit ≤ limit') (source : Text)
    (hshallow : (run limit source).2.Shallow) : run limit' source = run limit source := by
  have hdead : ∀ (s : State) (span : Span),
      ¬(s.withReport (.nestingTooDeep limit) span).Shallow := by
    intro s span hreported
    cases hreported.2 _ List.mem_cons_self
  have pairs := lawful_sameSource.pairs_tie hle (.inr hdead) (Nat.le_refl (budgetFor source.length))
  have governs : Context.outer.Governs (State.ofText source).stream := ⟨rfl, rfl, rfl⟩
  have hfile := lawful_sameSource.file (c := .outer) (s := .ofText source) rfl rfl pairs rfl
  obtain ⟨-, hrun⟩ := hfile ⟨Scanner.wellFormed_ofText source, governs⟩
  rw [run_eq] at hshallow
  obtain ⟨-, hrel⟩ := hrun hshallow
  obtain ⟨hnodes, hstate, -⟩ := hrel (.ofText source) ⟨rfl, governs⟩
  rw [run_eq, run_eq]
  exact Prod.ext (hnodes.trans (Node.moveList_id _)) hstate

end Grammar

/-- What a run reports is among the diagnostics. -/
theorem mem_diagnostics {limit : Nat} {source : Text} {report : Report}
    (h : report ∈ (Grammar.run limit source).2.reports) :
    report.located source ∈ (parse limit source).diagnostics := by
  rw [diagnostics_parse]
  exact List.mem_map_of_mem ((Report.perm_sort _).mem_iff.2 (List.mem_reverse.2 h))

/-- A higher limit changes nothing about a tree in which the limit was not reached. -/
theorem parse_of_limit_le {limit limit' : Nat} (hle : limit ≤ limit') {source : Text}
    (hdeep : ∀ d ∈ (parse limit source).diagnostics, d.cause.code ≠ "nesting_too_deep") :
    parse limit' source = parse limit source := by
  have hshallow : (Grammar.run limit source).2.Shallow := by
    refine ⟨Grammar.exhausted_run limit source, fun report hmem => ?_⟩
    rw [Bool.eq_false_iff]
    intro htoo
    exact hdeep _ (mem_diagnostics hmem) (report.cause.code_eq_iff.2 htoo)
  unfold parse
  rw [Grammar.run_of_limit_le hle source hshallow]

/-- An expression in another one needs a limit of two; an open bracket is reported with any limit. -/
theorem parse_of_limit_two :
    (∃ d ∈ (parse 1 "x := (a\n".toList).diagnostics, d.cause.code = "nesting_too_deep") ∧
    (parse 2 "x := (a\n".toList).diagnostics ≠ [] ∧
    (∀ d ∈ (parse 2 "x := (a\n".toList).diagnostics, d.cause.code ≠ "nesting_too_deep") ∧
    parse 3 "x := (a\n".toList = parse 2 "x := (a\n".toList :=
  ⟨by decide +kernel, by decide +kernel, by decide +kernel,
    parse_of_limit_le (by decide) (by decide +kernel)⟩

end Justfile
