import Justfile.Proofs.Reading.Literal
import Justfile.Proofs.Simulation.Judgement

/-!
# Single actions

What one action does to a state, whichever simulation it is looked at with: the context stays, the
scanner stays well-formed, and reports are only added (`Onward`).
-/

set_option autoImplicit false

namespace Justfile.Grammar

/-- A later state in the same context. -/
structure Onward (s t : State) : Prop where
  wellFormed : s.scanner.WellFormed → t.scanner.WellFormed
  keeps : Keeps s t
  reports : s.reports <:+ t.reports
  exhausted : t.exhausted = s.exhausted

section Onward

variable {s t u : State}

theorem Onward.trans (first : Onward s t) (second : Onward t u) : Onward s u :=
  ⟨fun wf => second.wellFormed (first.wellFormed wf), first.keeps.trans second.keeps,
    first.reports.trans second.reports, second.exhausted.trans first.exhausted⟩

theorem Onward.governs {c : Context} (h : Onward s t) (governs : c.Governs s.stream) :
    c.Governs t.stream :=
  ⟨h.keeps.mode.trans governs.mode, h.keeps.nesting.trans governs.nesting,
    h.keeps.lineBound.trans governs.lineBound⟩

theorem onward_report (s : State) (cause : Cause) (span : Span) :
    Onward s (s.withReport cause span) :=
  ⟨id, ⟨rfl, rfl, rfl, rfl⟩, List.suffix_cons _ _, rfl⟩

/-- Consuming a token adds at most the report that it is none. -/
theorem onward_take (s : State) (token : Token) {scanner : Scanner}
    (hwf : s.scanner.WellFormed → scanner.WellFormed) : Onward s (s.take token scanner) := by
  refine ⟨hwf, ⟨rfl, rfl, rfl, rfl⟩, ?_, rfl⟩
  unfold State.take
  dsimp only
  split
  · exact List.suffix_cons _ _
  · exact List.suffix_refl _

theorem onward_flushed (wf : s.scanner.WellFormed) : Onward s s.flushed :=
  ⟨(trimmed_flushed wf).wellFormed, ⟨rfl, rfl, rfl, rfl⟩, List.suffix_refl _, rfl⟩

theorem onward_bumpAs (wf : s.scanner.WellFormed) (hne : s.front ≠ .endOfInput)
    (field : Option Field) (kind : Option Token.Kind) : Onward s (bumpAs field kind s).2 := by
  rw [bumpAs_eq field kind s hne]
  exact (onward_flushed wf).trans
    (onward_take _ _ fun hflushed => hflushed.next s.flushed.stream.mode)

theorem ne_endOfInput_of_opensLiteral (h : s.front.opensLiteral = true) :
    s.front ≠ .endOfInput := by
  intro hend
  rw [hend] at h
  cases h

theorem onward_closeBraces (wf : s.scanner.WellFormed) : Onward s (closeBraces s).2 := by
  rw [closeBraces_eq]
  split
  · next hat =>
    rw [bumpGlued_eq hat]
    dsimp only
    exact (onward_flushed wf).trans (onward_take s.flushed _ fun hflushed =>
      (hflushed.next s.stream.mode).next s.stream.mode)
  · exact onward_report s _ _

end Onward

/-- A body is opened by a token, and the mode is changed behind it. -/
theorem Simulation.Tracks.openBody {z : Simulation} {c : Context} {pre post : State → Prop} {s : State}
    (h : z.Tracks c pre z.moved (fun _ => c.withBodies 1) (fun _ => post) s bump bump)
    (hinv : ∀ u, z.inv (c.withBodies 1) u →
      z.inv ((c.withBodies 1).within .body c.nesting c.lineBound) (u.inMode .body))
    (hrel : ∀ u t, z.rel (c.withBodies 1) u t →
      z.rel ((c.withBodies 1).within .body c.nesting c.lineBound) (u.inMode .body) (t.inMode .body))
    (hpost : ∀ u : State, post (u.inMode .body) → post u) :
    z.Tracks c pre z.moved (fun _ => (c.withBodies 1).within .body c.nesting c.lineBound)
      (fun _ => post) s openBody openBody := by
  intro hs
  obtain ⟨hinv', hrun⟩ := h hs
  refine ⟨hinv _ hinv', fun hafter => ?_⟩
  obtain ⟨hpre, htracked⟩ := hrun (hpost _ hafter)
  refine ⟨hpre, fun t ht => ?_⟩
  obtain ⟨hnodes, hrel'⟩ := htracked t ht
  exact ⟨hnodes, hrel _ _ hrel'⟩

end Justfile.Grammar
