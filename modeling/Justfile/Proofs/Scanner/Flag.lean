import Justfile.Proofs.Scanner.Progress

/-!
# The flag of literals

The scanner keeps one flag for all literals: whether the literal at hand is closed, or reported as
unterminated. A token that opens a literal clears it, a token that closes or reports one sets it,
and all others leave it alone (`literalClosed_next`).

Inside a literal the scanner has nothing decided ahead (`Settled`), and it stays so for as long as it
reads contents or expressions (`Settled.next`). Then the kinds of tokens are those of the mode
(`Settled.kind_next`), and the end of the input is given only where the flag is set.
-/

set_option autoImplicit false

namespace Justfile

/-- What a token of the kind does to the flag, if anything. -/
def Token.Kind.flag? : Token.Kind → Option Bool
  | stringOpen _ | commandOpen _ => some false
  | stringClose _ | commandClose _ => some true
  | errorRecovery .unterminatedString | errorRecovery .unterminatedCommand => some true
  | _ => none

theorem Token.Kind.flag?_eq_false_iff (kind : Token.Kind) :
    kind.flag? = some false ↔ kind.opensLiteral = true := by
  unfold flag? opensLiteral
  split <;> simp_all

namespace Mode

theorem flag?_of_admits {mode : Mode} {kind : Token.Kind} (h : mode.admits kind = true) :
    kind.flag? = none := by
  unfold Token.Kind.flag?
  split <;> first | rfl | (cases mode <;> cases h)

theorem flag?_of_closing? {mode : Mode} {kind : Token.Kind} (h : mode.closing? = some kind) :
    kind.flag? = some true := by
  cases mode <;> cases h <;> rfl

theorem flag?_of_fault? {mode : Mode} {fault : Fault} (h : mode.fault? = some fault) :
    (Token.Kind.errorRecovery fault).flag? = some true := by
  cases mode <;> cases h <;> rfl

/-- The modes that read the contents of a literal. -/
theorem fault?_isSome_iff_closing? (mode : Mode) :
    mode.fault?.isSome = mode.closing?.isSome := by
  cases mode <;> rfl

/-- The modes that leave the levels alone. -/
def isFlat : Mode → Bool
  | body | bodyStart => false
  | _ => true

end Mode

theorem Interpreter.flag?_of_isPieceKind {kind : Token.Kind}
    (h : Interpreter.isPieceKind kind = true) : kind.flag? = none := by
  unfold Token.Kind.flag?
  split <;> first | rfl | cases h

namespace Scanner

/-! ## One flag for all literals -/

variable {s : Scanner} {mode : Mode} {out : Token × Scanner}

/-- A token leaves the flag alone, unless it opens, closes or reports a literal. -/
theorem Step.flag_cases (wf : s.WellFormed) (step : s.Step mode out) :
    (out.1.kind.flag? = none ∧ out.2.literalClosed = s.literalClosed) ∨
    (∃ kind size, s.Ready ∧ s.rest ≠ [] ∧ 0 < size ∧ kind.opensLiteral = true ∧
      (mode = .normal ∨ mode = .bodyStart) ∧ out = s.openLiteral kind size) ∨
    (∃ kind size, s.Ready ∧ mode.closing? = some kind ∧ out = s.closeLiteral kind size) ∨
    ∃ fault, s.Ready ∧ mode.fault? = some fault ∧ (s.rest = [] → s.literalClosed = false) ∧
      out = s.closeLiteral (.errorRecovery fault) s.rest.length := by
  cases step with
  | opens ready hne hpos hopens hmode =>
    exact .inr (.inl ⟨_, _, ready, hne, hpos, hopens, hmode, rfl⟩)
  | closes ready _ _ hcloses => exact .inr (.inr (.inl ⟨_, _, ready, hcloses, rfl⟩))
  | unterminated ready hfault hopen => exact .inr (.inr (.inr ⟨_, ready, hfault, hopen, rfl⟩))
  | piece hq => exact .inl ⟨Interpreter.flag?_of_isPieceKind (ne_nil_of_queued wf hq).2.2, rfl⟩
  | mismatch _ _ _ hfault =>
    -- The only fault that is decided ahead is that of a line, not of a literal.
    obtain ⟨-, -, -, body, enclosing, found, rfl⟩ := wf.fault _ hfault
    exact .inl ⟨rfl, rfl⟩
  | plain _ _ _ _ _ hadmits => exact .inl ⟨Mode.flag?_of_admits hadmits, rfl⟩
  | byteOrderMark => exact .inl ⟨rfl, rfl⟩
  | furtherDedent => exact .inl ⟨rfl, rfl⟩
  | endOfInput => exact .inl ⟨rfl, rfl⟩
  | shebang => exact .inl ⟨rfl, rfl⟩
  | indent => exact .inl ⟨rfl, rfl⟩
  | lastDedent => exact .inl ⟨rfl, rfl⟩
  | dedentTo => exact .inl ⟨rfl, rfl⟩

/-- Each token does to the flag what its kind says. -/
theorem Step.literalClosed_eq (wf : s.WellFormed) (step : s.Step mode out) :
    out.2.literalClosed = out.1.kind.flag?.getD s.literalClosed := by
  rcases step.flag_cases wf with ⟨hflag, hsame⟩ | ⟨kind, size, -, -, -, hopens, -, rfl⟩ |
    ⟨kind, size, -, hcloses, rfl⟩ | ⟨fault, -, hfault, -, rfl⟩
  · rw [hsame, hflag, Option.getD_none]
  · have hflag := (Token.Kind.flag?_eq_false_iff _).2 hopens
    simp only [openLiteral, emit, hflag, Option.getD_some]
  · simp only [closeLiteral, emit, Mode.flag?_of_closing? hcloses, Option.getD_some]
  · simp only [closeLiteral, emit, Mode.flag?_of_fault? hfault, Option.getD_some]

theorem literalClosed_next (wf : s.WellFormed) (mode : Mode) :
    (s.next mode).2.literalClosed = (s.next mode).1.kind.flag?.getD s.literalClosed :=
  (step_next s mode).literalClosed_eq wf

/-- Only the contents of a literal close or report it. -/
theorem Step.flag?_ne_true (wf : s.WellFormed) (step : s.Step mode out)
    (hmode : mode.fault? = none) : out.1.kind.flag? ≠ some true := by
  rcases step.flag_cases wf with ⟨hflag, -⟩ | ⟨kind, size, -, -, -, hopens, -, rfl⟩ |
    ⟨kind, size, -, hcloses, -⟩ | ⟨fault, -, hfault, -, -⟩
  · rw [hflag]
    exact nofun
  · have hflag := (Token.Kind.flag?_eq_false_iff _).2 hopens
    simp [openLiteral, emit, hflag]
  · have hiff := mode.fault?_isSome_iff_closing?
    rw [hmode, hcloses] at hiff
    cases hiff
  · rw [hmode] at hfault
    cases hfault

/-- Only item level opens literals. -/
theorem Step.opensLiteral_inv (wf : s.WellFormed) (step : s.Step mode out)
    (hopens : out.1.kind.opensLiteral = true) :
    ∃ kind size, s.Ready ∧ s.rest ≠ [] ∧ 0 < size ∧ (mode = .normal ∨ mode = .bodyStart) ∧
      out = s.openLiteral kind size := by
  have hflag := (Token.Kind.flag?_eq_false_iff _).2 hopens
  rcases step.flag_cases wf with ⟨hnone, -⟩ | ⟨kind, size, ready, hne, hpos, -, hmode, hout⟩ |
    ⟨kind, size, -, hcloses, rfl⟩ | ⟨fault, -, hfault, -, rfl⟩
  · rw [hnone] at hflag
    cases hflag
  · exact ⟨kind, size, ready, hne, hpos, hmode, hout⟩
  · cases (Mode.flag?_of_closing? hcloses).symm.trans hflag
  · cases (Mode.flag?_of_fault? hfault).symm.trans hflag

/-! ## Settled scanners -/

/-- Nothing is decided ahead, and a token has been taken: what follows is no shebang line of the
file. -/
structure Settled (s : Scanner) : Prop where
  ready : s.Ready
  base_lt : s.base < s.offset

/-- Characters that are taken from a scanner with nothing decided leave nothing decided. -/
theorem settled_emit {t : Scanner} {kind : Token.Kind} {size : Nat} (ready : t.Ready)
    (base : t.base < t.offset ∨ (t.rest ≠ [] ∧ 0 < size)) : (t.emit kind size).2.Settled := by
  have hlt : t.base < (t.emit kind size).2.offset := by
    rcases base with base | ⟨hne, hpos⟩
    · exact Nat.lt_of_lt_of_le base (Nat.le_add_right _ _)
    · -- A character has at least one byte.
      obtain ⟨c, rest, hrest⟩ := List.exists_cons_of_ne_nil hne
      obtain ⟨n, rfl⟩ := Nat.exists_eq_succ_of_ne_zero (Nat.pos_iff_ne_zero.1 hpos)
      have hsize := c.utf8Size_pos
      have hbase := ready.base_le
      simp only [emit, hrest, List.take_succ_cons, Text.byteSize_cons]
      omega
  exact ⟨⟨ready.queued, Nat.le_of_lt hlt, ready.pendingDedents, ready.pendingFault⟩, hlt⟩

/-- Opening a literal settles the scanner. -/
theorem Step.settled_of_opens (wf : s.WellFormed) (step : s.Step mode out)
    (hopens : out.1.kind.opensLiteral = true) : out.2.Settled := by
  obtain ⟨kind, size, ready, hne, hpos, -, rfl⟩ := step.opensLiteral_inv wf hopens
  exact settled_emit (t := { s with literalClosed := false })
    ⟨ready.queued, ready.base_le, ready.pendingDedents, ready.pendingFault⟩ (.inr ⟨hne, hpos⟩)

/-- What a settled scanner can do in the modes that leave the levels alone: nothing comes from what
was decided ahead, and no shebang line and no body starts. -/
theorem Settled.step_cases (settled : s.Settled) (hmode : mode.isFlat = true)
    (step : s.Step mode out) :
    out = (s.mark .endOfInput, s) ∨
    (∃ content first kind size, mode.admits kind = true ∧
      out = { s with lineContent := content, firstBodyLine := first }.emit kind size) ∨
    (∃ kind size, (mode = .normal ∨ mode = .bodyStart) ∧ out = s.openLiteral kind size) ∨
    (∃ kind size, mode.closing? = some kind ∧ out = s.closeLiteral kind size) ∨
    ∃ fault, mode.fault? = some fault ∧
      out = s.closeLiteral (.errorRecovery fault) s.rest.length := by
  have ready := settled.ready
  have hbase := settled.base_lt
  cases step with
  | endOfInput => exact .inl rfl
  | plain content first _ _ _ hadmits =>
    exact .inr (.inl ⟨content, first, _, _, hadmits, rfl⟩)
  | opens _ _ _ _ hnormal => exact .inr (.inr (.inl ⟨_, _, hnormal, rfl⟩))
  | closes _ _ _ hcloses => exact .inr (.inr (.inr (.inl ⟨_, _, hcloses, rfl⟩)))
  | unterminated _ hfault => exact .inr (.inr (.inr (.inr ⟨_, hfault, rfl⟩)))
  | piece hq =>
    rw [ready.queued] at hq
    cases hq
  | byteOrderMark _ hlt => omega
  | furtherDedent _ _ hcount =>
    rw [ready.pendingDedents] at hcount
    cases hcount
  | mismatch _ _ _ hfault =>
    rw [ready.pendingFault] at hfault
    cases hfault
  | shebang _ _ _ _ hwhere =>
    rcases hwhere with rfl | ⟨-, heq⟩
    · cases hmode
    · omega
  | indent _ heq =>
    subst heq
    cases hmode
  | lastDedent _ heq =>
    subst heq
    cases hmode
  | dedentTo _ heq =>
    subst heq
    cases hmode

/-- In the modes that leave the levels alone a settled scanner stays settled. -/
theorem Settled.step (settled : s.Settled) (hmode : mode.isFlat = true) (step : s.Step mode out) :
    out.2.Settled := by
  have hemit : ∀ {t : Scanner} {kind : Token.Kind} {size : Nat}, t.queued = s.queued →
      t.base = s.base → t.offset = s.offset → t.pendingDedents = s.pendingDedents →
      t.pendingFault = s.pendingFault → (t.emit kind size).2.Settled := by
    intro t kind size hqueued hbase hoffset hcount hfault
    have ready := settled.ready
    have hlt := settled.base_lt
    rw [← hbase, ← hoffset] at hlt
    exact settled_emit ⟨hqueued.trans ready.queued, Nat.le_of_lt hlt,
      hcount.trans ready.pendingDedents, hfault.trans ready.pendingFault⟩ (.inl hlt)
  rcases settled.step_cases hmode step with rfl | ⟨content, first, kind, size, -, rfl⟩ |
    ⟨kind, size, -, rfl⟩ | ⟨kind, size, -, rfl⟩ | ⟨fault, -, rfl⟩
  · exact settled
  · exact hemit (t := { s with lineContent := content, firstBodyLine := first }) rfl rfl rfl rfl rfl
  · exact hemit (t := { s with literalClosed := false }) rfl rfl rfl rfl rfl
  · exact hemit (t := { s with literalClosed := true }) rfl rfl rfl rfl rfl
  · exact hemit (t := { s with literalClosed := true }) rfl rfl rfl rfl rfl

theorem Settled.next (settled : s.Settled) (hmode : mode.isFlat = true) : (s.next mode).2.Settled :=
  settled.step hmode (step_next s mode)

/-- The tokens of a settled scanner inside a literal: contents, the end of the literal, its fault,
or the end of the input. -/
theorem Settled.kind_step (settled : s.Settled) (hmode : mode.fault?.isSome = true)
    (step : s.Step mode out) :
    mode.admits out.1.kind = true ∨ mode.closing? = some out.1.kind ∨
      (∃ fault, mode.fault? = some fault ∧ out.1.kind = .errorRecovery fault) ∨
      out.1.kind = .endOfInput := by
  have hflat : mode.isFlat = true := by
    cases mode <;> first | rfl | cases hmode
  rcases settled.step_cases hflat step with rfl | ⟨_, _, kind, _, hadmits, rfl⟩ |
    ⟨_, _, hnormal, -⟩ | ⟨kind, _, hcloses, rfl⟩ | ⟨fault, hfault, rfl⟩
  · exact .inr (.inr (.inr rfl))
  · exact .inl hadmits
  · rcases hnormal with rfl | rfl <;> cases hmode
  · exact .inr (.inl hcloses)
  · exact .inr (.inr (.inl ⟨fault, hfault, rfl⟩))

theorem Settled.kind_next (settled : s.Settled) (hmode : mode.fault?.isSome = true) :
    mode.admits (s.next mode).1.kind = true ∨ mode.closing? = some (s.next mode).1.kind ∨
      (∃ fault, mode.fault? = some fault ∧ (s.next mode).1.kind = .errorRecovery fault) ∨
      (s.next mode).1.kind = .endOfInput :=
  settled.kind_step hmode (step_next s mode)

/-- A report of an unterminated literal takes everything that is left. Where nothing is left it is
made only when the flag is not set. -/
theorem Step.unterminated_inv (wf : s.WellFormed) (step : s.Step mode out) {fault : Fault}
    (hkind : out.1.kind = .errorRecovery fault)
    (hfault : (Token.Kind.errorRecovery fault).flag? = some true) :
    out.2.rest = [] ∧ (s.rest = [] → s.literalClosed = false) := by
  have hflag : out.1.kind.flag? = some true := by rw [hkind, hfault]
  rcases step.flag_cases wf with ⟨hnone, -⟩ | ⟨kind, size, -, -, -, hopens, -, rfl⟩ |
    ⟨kind, size, -, hcloses, rfl⟩ | ⟨fault, -, -, hopen, rfl⟩
  · rw [hnone] at hflag
    cases hflag
  · cases ((Token.Kind.flag?_eq_false_iff _).2 hopens).symm.trans hflag
  · obtain rfl : kind = .errorRecovery fault := hkind
    cases mode <;> cases hcloses
  · exact ⟨List.drop_length, hopen⟩

end Scanner

end Justfile
