import Justfile.Proofs.Scanner.Shebang
import Justfile.Proofs.Simulation.Balance

/-!
# Shebang lines stay in their bodies

A second invariant of all productions, on top of the balance of indentation (`sheltered`): behind the first
line of a file, pieces of a shebang line are queued inside of a body only. A body is read where a level is
open, and outside of bodies no `#!` is given, so that the only token that queues pieces is one of a body.

Between two items no level is open. So nothing is queued there.
-/

set_option autoImplicit false

namespace Justfile

namespace Scanner

/-- A run over tokens that start no shebang line. -/
theorem Run.sheltered {mode : Mode} {s t : Scanner} {tokens : List Token} (run : Run mode s tokens t)
    (wf : s.WellFormed) (h : s.Sheltered) (hkinds : ∀ token ∈ tokens, token.kind ≠ .shebangStart) :
    t.Sheltered := by
  induction run with
  | nil => exact h
  | cons _ ih =>
    obtain ⟨hkind, hmore⟩ := List.forall_mem_cons.1 hkinds
    exact ih (wf.next mode) (h.next wf fun hstart => absurd hstart hkind) hmore

end Scanner

namespace Grammar

/-! ## Single actions -/

section Actions

variable {s : State}

theorem sheltered_flushed (wf : s.scanner.WellFormed) (h : s.scanner.Sheltered) :
    s.flushed.scanner.Sheltered := by
  obtain ⟨hrun, htrivia, -⟩ := Stream.takeTrivia_spec wf
  refine hrun.sheltered wf h fun token hmem hkind => ?_
  have hstart := htrivia token hmem
  rw [hkind] at hstart
  cases hstart

/-- A token is consumed; if it is a `#!`, a level is open. -/
theorem sheltered_bumpAs (wf : s.scanner.WellFormed) (h : s.scanner.Sheltered)
    (hne : s.front ≠ .endOfInput) (hstart : s.front = .shebangStart → s.scanner.levels ≠ [])
    (field : Option Field) (kind : Option Token.Kind) :
    (bumpAs field kind s).2.scanner.Sheltered := by
  have steady := steady_flushed wf
  rw [bumpAs_eq field kind s hne]
  refine (sheltered_flushed wf h).next (steady.wellFormed wf) fun hkind => ?_
  rw [steady.levels]
  exact hstart ((front_eq_step wf).trans hkind)

theorem sheltered_closeBraces (wf : s.scanner.WellFormed) (h : s.scanner.Sheltered) :
    (closeBraces s).2.scanner.Sheltered := by
  rw [closeBraces_eq]
  split
  · next hat =>
    obtain ⟨hfirst, -, hsecond⟩ := Stream.atGlued_spec hat
    have hwf := (steady_flushed wf).wellFormed wf
    have hbrace : (s.flushed.scanner.next s.stream.mode).2.Sheltered := by
      refine (sheltered_flushed wf h).next hwf fun hkind => ?_
      cases hfirst.symm.trans hkind
    rw [bumpGlued_eq hat]
    refine hbrace.next (hwf.next _) fun hkind => ?_
    cases hsecond.symm.trans hkind
  · exact h

end Actions

/-! ## The simulation -/

/-- A run on its own: nothing is compared. -/
def sheltered : Simulation where
  place := id
  inv c s := (balanced []).inv c s ∧ (s.exhausted = false → c.bodies ≤ 1 → s.scanner.Sheltered)
  rel _ _ _ := False
  calm _ := False
  wide _ := False
  live _ := False
  peer _ := False

section Sheltered

variable {c e : Context} {s : State}

/-- Of two productions only the invariant of the first one is to be shown, and of that what comes on top
of the balance. -/
theorem sheltered_tracks {p q : Parse Forest}
    (hbalanced : (balanced []).inv c s → (balanced []).inv e (p s).2)
    (honward : (balanced []).inv c s → Onward s (p s).2) (hbodies : e.bodies ≤ 1 → c.bodies ≤ 1)
    (h : (balanced []).inv c s → s.exhausted = false → c.bodies ≤ 1 → s.scanner.Sheltered →
      (p s).2.scanner.Sheltered) :
    sheltered.Tracks c (fun _ => False) sheltered.moved (fun _ => e) (fun _ _ => False) s p q := by
  refine fun hinv => ⟨⟨hbalanced hinv.1, fun hlive hle => ?_⟩, False.elim⟩
  have hbefore : s.exhausted = false := (honward hinv.1).exhausted ▸ hlive
  exact h hinv.1 hbefore (hbodies hle) (hinv.2 hbefore (hbodies hle))

/-- A token is consumed that is no `#!`. -/
theorem sheltered_tracks_bumpAs {q : Parse Forest} (field : Option Field) (kind : Option Token.Kind)
    (hne : s.front ≠ .endOfInput) (hkind : s.front ≠ .shebangStart) (hbodies : e.bodies ≤ 1 → c.bodies ≤ 1)
    (hbalanced : (balanced []).inv c s → (balanced []).inv e (bumpAs field kind s).2) :
    sheltered.Tracks c (fun _ => False) sheltered.moved (fun _ => e) (fun _ _ => False) s
      (bumpAs field kind) q :=
  sheltered_tracks hbalanced (fun hinv => onward_bumpAs hinv.1 hne field kind) hbodies
    fun hinv _ _ h => sheltered_bumpAs hinv.1 h hne (fun hstart => absurd hstart hkind) field kind

theorem lawful_sheltered : sheltered.Lawful where
  wellFormed h := h.1.1
  governs h := h.1.2.1
  -- No two states are related, so that only the invariant is left to keep.
  governs_rel h := h.elim
  depth h := h.elim
  offset h := h.elim
  inv_within hadmits hleaves h := ⟨(lawful_balanced []).inv_within hadmits hleaves h.1, h.2⟩
  rel_within _ h := h.elim
  inv_opened h := ⟨(lawful_balanced []).inv_opened h.1, h.2⟩
  rel_opened h := h.elim
  inv_report cause span h := ⟨(lawful_balanced []).inv_report cause span h.1, h.2⟩
  rel_report _ _ h := h.elim
  inv_spent bodies h := ⟨(lawful_balanced []).inv_spent bodies h.1, nofun⟩
  calm_of_wide := id
  wide_of_live := id
  live_of_peer := id
  calm_within := id
  wide_within := id
  live_atDepth := id
  not_calm_spent := id
  peer_of_report := id
  peer_of_reported _ h := h
  live_of_calm _ h _ _ _ := h
  live_of_wide _ h _ _ := h
  live_of_midLine _ _ h _ _ _ := h
  peer_of_next h _ _ := h
  peer_of_trimmed h _ _ := h
  token _ h _ := h.elim
  second _ _ h _ := h.elim
  third _ _ h _ := h.elim
  front_body _ _ _ h _ := h.elim
  indent _ _ h _ := h.elim
  trivia := sheltered_tracks (fun h => ((lawful_balanced []).trivia h).1) (fun h => onward_flushed h.1)
    id fun hinv _ _ h => sheltered_flushed hinv.1 h
  bump {c s} field hallows hne := by
    refine sheltered_tracks (fun h => ((lawful_balanced []).bump field hallows hne h).1)
      (fun hinv => onward_bumpAs hinv.1 hne field none) id fun hinv hlive hle h => ?_
    refine sheltered_bumpAs hinv.1 h hne (fun hstart => ?_) field none
    obtain ⟨hwf, hgoverns, hleveled⟩ := hinv
    rcases hallows with hflat | ⟨-, hbodies, -⟩
    · -- Outside of bodies there is no shebang line.
      have hmode : s.flushed.stream.mode ≠ .body := by
        rw [show s.flushed.stream.mode = c.mode from hgoverns.mode]
        intro hbody
        rw [hbody] at hflat
        cases hflat
      have hnone := (sheltered_flushed hwf h).noShebang.kind_next_ne
        ((steady_flushed hwf).wellFormed hwf) hmode
      exact absurd ((front_eq_step hwf).symm.trans hstart) hnone
    · -- Inside of one a level is open.
      have hone : c.bodies = 1 := by omega
      have leveled := hleveled hlive
      rw [hone] at leveled
      obtain ⟨-, ⟨width, hlevels⟩, -⟩ := leveled
      rw [hlevels]
      exact nofun
  keyword {c s} word hmode hfront :=
    sheltered_tracks_bumpAs (c := c) none _ (by rw [hfront]; exact nofun) (by rw [hfront]; exact nofun)
      id fun h => ((lawful_balanced []).keyword word hmode hfront h).1
  open_literal {c s} field hopens := by
    refine sheltered_tracks_bumpAs (c := c) (e := c.opened) field none
      (ne_endOfInput_of_opensLiteral hopens) (fun hfront => ?_) id
      fun h => ((lawful_balanced []).open_literal field hopens h).1
    rw [hfront] at hopens
    cases hopens
  open_body {c s} hfront hmode hbodies := by
    refine Simulation.Tracks.openBody (sheltered_tracks_bumpAs none none (by rw [hfront]; exact nofun)
        (by rw [hfront]; exact nofun) (fun _ => hbodies ▸ Nat.zero_le 1)
        fun h => balanced_opened hfront hbodies h)
      (fun u h => ⟨?_, h.2⟩) (fun _ _ h => h.elim) fun _ => id
    exact ⟨h.1.1, ⟨rfl, h.1.2.1.nesting, h.1.2.1.lineBound⟩, fun hexhausted =>
      (h.1.2.2 hexhausted).within .body u.stream.nesting u.stream.lineBound u.depth⟩
  close_body {c s} hfront hmode hbodies :=
    sheltered_tracks_bumpAs none none (by rw [hfront]; exact nofun) (by rw [hfront]; exact nofun)
      (fun _ => Nat.le_of_eq hbodies)
      fun h => ((lawful_balanced []).close_body hfront hmode hbodies h).1
  end_body hfront hmode hbodies h :=
    ⟨⟨((lawful_balanced []).end_body hfront hmode hbodies h.1).1,
      fun hlive _ => h.2 hlive (Nat.le_of_eq hbodies)⟩, fun _ hrel => hrel.elim⟩
  close_braces hmode := sheltered_tracks (fun h => ((lawful_balanced []).close_braces hmode h).1)
    (fun h => onward_closeBraces h.1) id fun hinv _ _ h => sheltered_closeBraces hinv.1 h

end Sheltered

end Grammar

end Justfile
