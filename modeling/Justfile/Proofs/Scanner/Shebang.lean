import Justfile.Proofs.Scanner.Level

/-!
# Shebang lines of a scanner

A shebang line is cut into pieces at once, and they are queued. It can stand in two places: at the start
of the text proper, where a scanner may be past that (`Scanner.NoShebang`), and on the first line of a body.
Once the first place is passed, only the mode of bodies gives a `#!` (`NoShebang.kind_next_ne`), and pieces
are queued while a body is open, if bodies are read where one is open (`Scanner.Sheltered.next`).
-/

set_option autoImplicit false

namespace Justfile.Scanner

variable {s : Scanner} {mode : Mode} {out : Token × Scanner}

/-! ## The start of the text proper -/

/-- No shebang line stands at the start of the text proper, or the scanner is past it. In front of a byte
order mark the text proper starts behind that. -/
structure NoShebang (s : Scanner) : Prop where
  atBase : s.offset = s.base → ['#', '!'].isPrefixOf s.rest = false
  behindMark : s.offset < s.base → ['#', '!'].isPrefixOf (s.rest.drop 1) = false

theorem noShebang_of_lt (h : s.base < s.offset) : s.NoShebang :=
  ⟨fun heq => absurd heq (Nat.ne_of_gt h), fun hlt => absurd hlt (Nat.lt_asymm h)⟩

/-- Characters that are taken lead past the start, if it is reached. -/
theorem lt_emit (hbase : s.base ≤ s.offset) (kind : Token.Kind) {size : Nat}
    (htaken : s.rest.take size ≠ []) : s.base < (s.emit kind size).2.offset := by
  obtain ⟨c, more, hmore⟩ := List.exists_cons_of_ne_nil htaken
  have hsize := c.utf8Size_pos
  change s.base < s.offset + Text.byteSize (s.rest.take size)
  rw [hmore, Text.byteSize_cons]
  omega

theorem NoShebang.emit (h : s.NoShebang) (hbase : s.base ≤ s.offset) (kind : Token.Kind) (size : Nat) :
    (s.emit kind size).2.NoShebang := by
  by_cases htaken : s.rest.take size = []
  · -- Without characters the scanner stands where it stood.
    have hrest : s.rest.drop size = s.rest := by
      rcases List.take_eq_nil_iff.1 htaken with rfl | hnil
      · rfl
      · rw [hnil, List.drop_nil]
    have hoffset : (s.emit kind size).2.offset = s.offset := by
      change s.offset + Text.byteSize (s.rest.take size) = s.offset
      rw [htaken]
      rfl
    refine ⟨fun heq => ?_, fun hlt => ?_⟩
    · rw [hoffset] at heq
      exact (congrArg _ hrest).trans (h.atBase heq)
    · rw [hoffset] at hlt
      exact absurd hlt (Nat.not_lt.2 hbase)
  · exact noShebang_of_lt (lt_emit hbase kind htaken)

/-- What is passed stays behind. -/
theorem NoShebang.step (h : s.NoShebang) (wf : s.WellFormed) (step : s.Step mode out) :
    out.2.NoShebang := by
  cases step with
  | @piece kind size queued hqueued =>
    -- In front of a byte order mark nothing is queued.
    have hbase : s.base ≤ s.offset := by
      by_contra hlt
      have hnil := (wf.mark (Nat.lt_of_not_le hlt)).1
      rw [hqueued] at hnil
      cases hnil
    exact NoShebang.emit (s := { s with queued := queued }) ⟨h.atBase, h.behindMark⟩ hbase kind size
  | byteOrderMark _ hlt =>
    obtain ⟨-, c, rest, hrest, hle⟩ := wf.mark hlt
    refine ⟨fun _ => h.behindMark hlt, fun hbefore => ?_⟩
    have hoffset : (s.emit .whitespace 1).2.offset = s.offset + c.utf8Size := by
      change s.offset + Text.byteSize (s.rest.take 1) = _
      rw [hrest]
      rfl
    rw [hoffset] at hbefore
    exact absurd hbefore (Nat.not_lt.2 hle)
  | furtherDedent => exact ⟨h.atBase, h.behindMark⟩
  | mismatch _ hbase =>
    exact NoShebang.emit (s := { s with pendingFault := none }) ⟨h.atBase, h.behindMark⟩ hbase _ _
  | endOfInput => exact h
  | plain content first ready =>
    exact NoShebang.emit (s := { s with lineContent := content, firstBodyLine := first })
      ⟨h.atBase, h.behindMark⟩ ready.base_le _ _
  | shebang content first ready =>
    exact NoShebang.emit (s := { s with queued := _, lineContent := content, firstBodyLine := first })
      ⟨h.atBase, h.behindMark⟩ ready.base_le _ _
  | opens ready =>
    exact NoShebang.emit (s := { s with literalClosed := false }) ⟨h.atBase, h.behindMark⟩
      ready.base_le _ _
  | closes ready =>
    exact NoShebang.emit (s := { s with literalClosed := true }) ⟨h.atBase, h.behindMark⟩
      ready.base_le _ _
  | unterminated ready =>
    exact NoShebang.emit (s := { s with literalClosed := true }) ⟨h.atBase, h.behindMark⟩
      ready.base_le _ _
  | indent => exact ⟨h.atBase, h.behindMark⟩
  | lastDedent => exact ⟨h.atBase, h.behindMark⟩
  | dedentTo => exact ⟨h.atBase, h.behindMark⟩

/-! ## Queued pieces -/

/-- A `#!` comes from a shebang line, which stands at the start of the text proper or in a body. -/
theorem Step.shebangStart_inv (wf : s.WellFormed) (step : s.Step mode out)
    (hkind : out.1.kind = .shebangStart) :
    s.Ready ∧ s.rest ≠ [] ∧ (mode = .body ∨ (mode.fault? = none ∧ s.offset = s.base)) ∧
      ['#', '!'].isPrefixOf s.rest = true ∧
      ∃ content first, out = { s with lineContent := content, firstBodyLine := first }.shebang := by
  rcases step.layout_cases wf (by rw [hkind]; rfl) with ⟨-, -, -, rfl⟩ | ⟨-, -, -, rfl⟩ | hdedent |
    ⟨fault, -, rfl⟩ | ⟨content, first, ready, hne, hwhere, hsigns, hout⟩
  · cases hkind
  · cases hkind
  · cases hdedent.symm.trans hkind
  · cases hkind
  · exact ⟨ready, hne, hwhere, hsigns, content, first, hout⟩

theorem NoShebang.kind_next_ne (h : s.NoShebang) (wf : s.WellFormed) (hmode : mode ≠ .body) :
    (s.next mode).1.kind ≠ .shebangStart := by
  intro hkind
  obtain ⟨-, -, hwhere, hsigns, -⟩ := (step_next s mode).shebangStart_inv wf hkind
  rw [h.atBase (hwhere.resolve_left hmode).2] at hsigns
  cases hsigns

/-- Behind a `#!` the start of the text proper is passed. -/
theorem noShebang_of_shebangStart (wf : s.WellFormed) (hkind : (s.next mode).1.kind = .shebangStart) :
    (s.next mode).2.NoShebang := by
  obtain ⟨ready, hne, -, -, content, first, heq⟩ := (step_next s mode).shebangStart_inv wf hkind
  obtain ⟨c, rest, hrest⟩ := List.exists_cons_of_ne_nil hne
  rw [heq]
  refine noShebang_of_lt (lt_emit
    (s := { s with queued := _, lineContent := content, firstBodyLine := first }) ready.base_le _ ?_)
  rw [hrest]
  exact nofun

/-- Where signs of a shebang line stand at the start of the text proper, they are given. -/
theorem Ready.kind_next_shebang (ready : s.Ready) (hbase : s.offset = s.base)
    (hsigns : ['#', '!'].isPrefixOf s.rest = true) : (s.next .normal).1.kind = .shebangStart := by
  rw [ready.next_eq .normal]
  dsimp only
  unfold normal
  cases hrest : s.rest with
  | nil =>
    rw [hrest] at hsigns
    cases hsigns
  | cons c rest =>
    rw [hrest] at hsigns
    dsimp only
    rw [hbase, beq_self_eq_true, Bool.true_and, if_pos hsigns]
    rfl

/-- Pieces of a shebang line are queued inside of a body only. -/
structure Sheltered (s : Scanner) : Prop where
  noShebang : s.NoShebang
  levels : s.queued ≠ [] → s.levels ≠ []

/-- That stays so if a `#!` is only given where a body is open. -/
theorem Sheltered.next (h : s.Sheltered) (wf : s.WellFormed)
    (hstart : (s.next mode).1.kind = .shebangStart → s.levels ≠ []) : (s.next mode).2.Sheltered := by
  refine ⟨h.noShebang.step wf (step_next s mode), fun hqueued => ?_⟩
  have step := step_next s mode
  generalize s.next mode = out at step hstart hqueued ⊢
  rcases step.queued_cases with hnone | ⟨kind, size, queued, hsome, rfl⟩ |
    ⟨content, first, -, rfl⟩
  · exact absurd hnone hqueued
  · exact h.levels (by rw [hsome]; exact nofun)
  · exact hstart rfl

end Justfile.Scanner
