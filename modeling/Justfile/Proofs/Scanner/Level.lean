import Justfile.Proofs.Scanner.Scan

/-!
# Levels of the scanner

What a step does to the open bodies. It leaves them alone, or an `indent` opens one that is deeper
than all others, or a `dedent` closes some and keeps those of its further `dedent`s pending
(`Step.levels_cases`). So the widths grow from the bottom of the stack to its top, also when the
caller goes back to a scanner it kept (`Session.Sound.run`), and the `indent`s of a run outnumber
its `dedent`s by the bodies that are open or pending (`Balanced.step`).

A line that fits no level is at fault from the `dedent` on that closed too many bodies
(`Step.fault_cases`), and is reported right after it. The end of the input is given to a body only
when none is open.
-/

set_option autoImplicit false

namespace Justfile

/-- The two kinds of tokens that move between levels. -/
def Token.Kind.isLevel : Kind → Bool
  | indent | dedent => true
  | _ => false

theorem Interpreter.isLevel_of_isPieceKind {kind : Token.Kind}
    (h : isPieceKind kind = true) : kind.isLevel = false := by
  unfold Token.Kind.isLevel
  split
  · cases h
  · cases h
  · rfl

theorem Mode.isLevel_of_admits {mode : Mode} {kind : Token.Kind} (h : mode.admits kind = true) :
    kind.isLevel = false := by
  unfold Token.Kind.isLevel
  split
  · cases mode <;> cases h
  · cases mode <;> cases h
  · rfl

theorem Token.Kind.isLevel_of_opensLiteral {kind : Kind} (h : kind.opensLiteral = true) :
    kind.isLevel = false := by
  unfold isLevel
  split
  · cases h
  · cases h
  · rfl

theorem Mode.isLevel_of_closing? {mode : Mode} {kind : Token.Kind} (h : mode.closing? = some kind) :
    kind.isLevel = false := by
  cases mode <;> cases h <;> rfl

namespace Scanner

variable {s : Scanner} {mode : Mode} {out : Token × Scanner}

/-! ## Opening and closing -/

/-- What a step does to the levels. -/
theorem Step.levels_cases (wf : s.WellFormed) (step : s.Step mode out) :
    (out.1.kind.isLevel = false ∧ out.2.levels = s.levels ∧
      out.2.pendingDedents = s.pendingDedents) ∨
    (mode = .bodyStart ∧ ∃ width, out.1 = s.mark .indent (some width) ∧ s.top < width ∧
      out.2.levels = width :: s.levels ∧ out.2.pendingDedents = s.pendingDedents) ∨
    ((mode = .body ∨ 0 < s.pendingDedents) ∧ out.1.kind = .dedent ∧
      ∃ closed, s.levels = closed ++ out.2.levels ∧
        out.2.pendingDedents + 1 = s.pendingDedents + closed.length) := by
  cases step with
  | piece hqueued =>
    have hkind := (ne_nil_of_queued wf hqueued).2.2
    exact .inl ⟨Interpreter.isLevel_of_isPieceKind hkind, rfl, rfl⟩
  | byteOrderMark => exact .inl ⟨rfl, rfl, rfl⟩
  | furtherDedent _ _ hcount =>
    -- The body was taken off the levels together with a deeper one.
    refine .inr (.inr ⟨.inr (hcount ▸ Nat.succ_pos _), rfl, [], rfl, ?_⟩)
    rw [hcount]
    rfl
  | mismatch => exact .inl ⟨rfl, rfl, rfl⟩
  | endOfInput => exact .inl ⟨rfl, rfl, rfl⟩
  | plain _ _ _ _ _ hadmits => exact .inl ⟨Mode.isLevel_of_admits hadmits, rfl, rfl⟩
  | shebang => exact .inl ⟨rfl, rfl, rfl⟩
  | opens _ _ _ hopens => exact .inl ⟨Token.Kind.isLevel_of_opensLiteral hopens, rfl, rfl⟩
  | closes _ _ _ hcloses => exact .inl ⟨Mode.isLevel_of_closing? hcloses, rfl, rfl⟩
  | unterminated => exact .inl ⟨rfl, rfl, rfl⟩
  | indent _ hmode hdeeper => exact .inr (.inl ⟨hmode, _, rfl, hdeeper, rfl, rfl⟩)
  | @lastDedent width levels _ hmode _ hlevels =>
    exact .inr (.inr ⟨.inl hmode, rfl, [width], hlevels, rfl⟩)
  | dedentTo ready hmode hwidth =>
    have hlt := length_dropWhile_lt hwidth
    have hsplit := List.takeWhile_append_dropWhile
      (p := (Measure.indentation s.rest < ·)) (l := s.levels)
    have hlength := congrArg List.length hsplit
    rw [List.length_append] at hlength
    refine .inr (.inr ⟨.inl hmode, rfl, s.levels.takeWhile (Measure.indentation s.rest < ·),
      hsplit.symm, ?_⟩)
    have hpending : (s.dedentTo (Measure.indentation s.rest)).2.pendingDedents =
        s.levels.length - (s.levels.dropWhile (Measure.indentation s.rest < ·)).length - 1 := rfl
    rw [hpending, ready.pendingDedents]
    omega

/-! ## The stack -/

/-- The widths of the open bodies grow from the bottom to the top, and none of them is zero. -/
def Stacked (s : Scanner) : Prop := s.indentation.Pairwise (· < ·)

theorem stacked_iff (s : Scanner) :
    s.Stacked ↔ s.levels.Pairwise (· > ·) ∧ ∀ width ∈ s.levels, 0 < width := by
  unfold Stacked indentation
  rw [List.pairwise_cons, List.pairwise_reverse]
  constructor
  · rintro ⟨hpos, hpairs⟩
    exact ⟨hpairs, fun width hmem => hpos width (List.mem_reverse.2 hmem)⟩
  · rintro ⟨hpairs, hpos⟩
    exact ⟨fun width hmem => hpos width (List.mem_reverse.1 hmem), hpairs⟩

theorem stacked_ofText (source : Text) : (ofText source).Stacked := by
  rw [stacked_iff]
  exact ⟨.nil, by simp [ofText]⟩

/-- A step keeps the stack in order: it pushes a greater width, or pops some. -/
theorem Stacked.step (stacked : s.Stacked) (wf : s.WellFormed) (step : s.Step mode out) :
    out.2.Stacked := by
  rw [stacked_iff] at stacked ⊢
  obtain ⟨hpairs, hpos⟩ := stacked
  rcases step.levels_cases wf with ⟨-, hlevels, -⟩ | ⟨-, width, -, hwidth, hlevels, -⟩ |
    ⟨-, -, closed, hlevels, -⟩
  · rw [hlevels]
    exact ⟨hpairs, hpos⟩
  · rw [hlevels]
    have hbelow : ∀ other ∈ s.levels, other < width := by
      intro other hmem
      -- The innermost body is the widest one.
      cases hl : s.levels with
      | nil =>
        rw [hl] at hmem
        cases hmem
      | cons first more =>
        rw [hl] at hmem hpairs
        have hfirst : first < width := by simpa [top, hl] using hwidth
        rcases List.mem_cons.1 hmem with rfl | hmem
        · exact hfirst
        · exact Nat.lt_trans (List.rel_of_pairwise_cons hpairs hmem) hfirst
    refine ⟨List.pairwise_cons.2 ⟨hbelow, hpairs⟩, ?_⟩
    intro other hmem
    rcases List.mem_cons.1 hmem with rfl | hmem
    · exact Nat.zero_lt_of_lt hwidth
    · exact hpos other hmem
  · rw [hlevels] at hpairs hpos
    exact ⟨(List.pairwise_append.1 hpairs).2.1,
      fun width hmem => hpos width (List.mem_append_right _ hmem)⟩

/-! ## Lines that fit no level -/

/-- The width found lies between the level the line fell back to and the body that was left. -/
def IsBetween : Fault → Prop
  | .dedentMismatch body enclosing found => enclosing < found ∧ found < body
  | _ => False

/-- The level that a line falls back to is not deeper than the line. -/
theorem headD_dropWhile_le (levels : List Nat) (width : Nat) :
    (levels.dropWhile (width < ·)).headD 0 ≤ width := by
  cases hkept : levels.dropWhile (width < ·) with
  | nil => exact Nat.zero_le _
  | cons first more =>
    have hfirst := List.head?_dropWhile_not (width < ·) levels
    rw [hkept] at hfirst
    simpa using hfirst

/-- A line is at fault when a `dedent` has just closed too many bodies. -/
theorem Step.fault_cases (wf : s.WellFormed) (step : s.Step mode out) :
    out.2.pendingFault = none ∨
      (out.1.kind = .dedent ∧ ∃ fault, out.2.pendingFault = some fault ∧
        (s.pendingFault = some fault ∨ IsBetween fault)) := by
  cases step with
  | piece hqueued =>
    -- While pieces of a shebang line are queued, no line is at fault.
    left
    change s.pendingFault = none
    cases hfault : s.pendingFault with
    | none => rfl
    | some fault =>
      have hnil := (wf.fault fault hfault).1
      rw [hqueued] at hnil
      cases hnil
  | byteOrderMark _ hbase =>
    left
    change s.pendingFault = none
    cases hfault : s.pendingFault with
    | none => rfl
    | some fault =>
      have hle := (wf.fault fault hfault).2.1
      omega
  | furtherDedent =>
    -- The fault waits until all bodies are closed.
    cases hfault : s.pendingFault with
    | none => exact .inl rfl
    | some fault => exact .inr ⟨rfl, fault, rfl, .inl rfl⟩
  | mismatch => exact .inl rfl
  | endOfInput ready => exact .inl ready.pendingFault
  | plain _ _ ready => exact .inl ready.pendingFault
  | shebang _ _ ready => exact .inl ready.pendingFault
  | opens ready => exact .inl ready.pendingFault
  | closes ready => exact .inl ready.pendingFault
  | unterminated ready => exact .inl ready.pendingFault
  | indent ready => exact .inl ready.pendingFault
  | lastDedent ready => exact .inl ready.pendingFault
  | dedentTo ready _ hwidth =>
    have hle := headD_dropWhile_le s.levels (Measure.indentation s.rest)
    by_cases heq : Measure.indentation s.rest =
        (s.levels.dropWhile (Measure.indentation s.rest < ·)).headD 0
    · refine .inl ?_
      change (if _ = _ then s.pendingFault else _) = none
      rw [if_pos heq, ready.pendingFault]
    · refine .inr ⟨rfl, _, if_neg heq, .inr ⟨?_, hwidth⟩⟩
      omega

/-- A mismatch that is returned was pending. -/
theorem Step.pendingFault_of_mismatch (wf : s.WellFormed) (step : s.Step mode out)
    {body enclosing found : Nat}
    (hkind : out.1.kind = .errorRecovery (.dedentMismatch body enclosing found)) :
    s.pendingFault = some (.dedentMismatch body enclosing found) := by
  rcases step.layout_cases wf (by rw [hkind]; rfl) with ⟨-, -, -, rfl⟩ | ⟨-, -, -, rfl⟩ | hdedent |
    ⟨fault, hfault, rfl⟩ | ⟨content, first, -, -, -, -, rfl⟩
  · cases hkind
  · cases hkind
  · cases hdedent.symm.trans hkind
  · cases hkind
    exact hfault
  · cases hkind

/-! ## Sessions -/

/-- What a caller can ask of a scanner. -/
inductive Call where
  /-- The next token. -/
  | next (mode : Mode)
  /-- To be kept as it is. -/
  | snapshot
  /-- To go back to what was kept, counted from the latest. -/
  | restore (index : Nat)

/-- A scanner, and the scanners that were kept on the way. -/
structure Session where
  scanner : Scanner
  kept : List Scanner := []

namespace Session

/-- A session at the start of a source. -/
def start (source : Text) : Session where
  scanner := ofText source

/-- The session after a call. There is nothing to go back to before the first snapshot. -/
def call (session : Session) : Call → Session
  | .next mode => { session with scanner := (session.scanner.next mode).2 }
  | .snapshot => { session with kept := session.scanner :: session.kept }
  | .restore index => { session with scanner := session.kept[index]?.getD session.scanner }

/-- The session after several calls. -/
def run (session : Session) (calls : List Call) : Session := calls.foldl call session

/-- All scanners of the session have their stacks in order. -/
structure Sound (session : Session) : Prop where
  wellFormed : ∀ s ∈ session.scanner :: session.kept, s.WellFormed
  stacked : ∀ s ∈ session.scanner :: session.kept, s.Stacked

theorem sound_start (source : Text) : (start source).Sound := by
  constructor
  · intro s hs
    rw [List.mem_singleton.1 hs]
    exact wellFormed_ofText source
  · intro s hs
    rw [List.mem_singleton.1 hs]
    exact stacked_ofText source

/-- A call goes on with a scanner that is sound, or with the next of one. -/
theorem Sound.call {session : Session} (sound : session.Sound) (call : Call) :
    (session.call call).Sound := by
  obtain ⟨hwf, hstacked⟩ := sound
  cases call with
  | next mode =>
    constructor
    · exact List.forall_mem_cons.2 ⟨(hwf _ List.mem_cons_self).next mode,
        (List.forall_mem_cons.1 hwf).2⟩
    · exact List.forall_mem_cons.2
        ⟨(hstacked _ List.mem_cons_self).step (hwf _ List.mem_cons_self) (step_next _ mode),
          (List.forall_mem_cons.1 hstacked).2⟩
  | snapshot =>
    constructor
    · exact List.forall_mem_cons.2 ⟨hwf _ List.mem_cons_self, hwf⟩
    · exact List.forall_mem_cons.2 ⟨hstacked _ List.mem_cons_self, hstacked⟩
  | restore index =>
    have hmem : session.kept[index]?.getD session.scanner ∈ session.scanner :: session.kept := by
      cases hkept : session.kept[index]? with
      | none => exact List.mem_cons_self
      | some s => exact List.mem_cons_of_mem _ (List.mem_of_getElem? hkept)
    constructor
    · exact List.forall_mem_cons.2 ⟨hwf _ hmem, (List.forall_mem_cons.1 hwf).2⟩
    · exact List.forall_mem_cons.2 ⟨hstacked _ hmem, (List.forall_mem_cons.1 hstacked).2⟩

theorem Sound.run {session : Session} (sound : session.Sound) (calls : List Call) :
    (session.run calls).Sound := by
  induction calls generalizing session with
  | nil => exact sound
  | cons call calls ih => exact ih (sound.call call)

end Session

/-! ## Balance -/

/-- The number of tokens of a kind. -/
def countKind (kind : Token.Kind) (tokens : List Token) : Nat := tokens.countP (·.kind == kind)

theorem countKind_concat (kind : Token.Kind) (tokens : List Token) (token : Token) :
    countKind kind (tokens ++ [token]) =
      countKind kind tokens + if token.kind = kind then 1 else 0 := by
  simp [countKind, List.countP_append, List.countP_singleton]

/-- What a run leaves behind: every body that was opened is closed, open, or pending, and a line
that is at fault was found by the `dedent` given last. -/
structure Balanced (tokens : List Token) (s : Scanner) : Prop where
  count : countKind .indent tokens =
    countKind .dedent tokens + s.levels.length + s.pendingDedents
  fault : ∀ fault, s.pendingFault = some fault →
    IsBetween fault ∧ ∃ token, tokens.getLast? = some token ∧ token.kind = .dedent

theorem balanced_ofText (source : Text) : Balanced [] (ofText source) := by
  refine ⟨rfl, ?_⟩
  intro fault hfault
  cases hfault

theorem Balanced.step {tokens : List Token} (balanced : Balanced tokens s) (wf : s.WellFormed)
    (step : s.Step mode out) : Balanced (tokens ++ [out.1]) out.2 := by
  obtain ⟨hcount, hfault⟩ := balanced
  constructor
  · rw [countKind_concat, countKind_concat, hcount]
    rcases step.levels_cases wf with ⟨hkind, hlevels, hpending⟩ |
      ⟨-, width, htoken, -, hlevels, hpending⟩ | ⟨-, hkind, closed, hlevels, hpending⟩
    · -- Neither an `indent` nor a `dedent`, and the levels stay.
      have hindent : out.1.kind ≠ .indent := by
        intro h
        rw [h] at hkind
        cases hkind
      have hdedent : out.1.kind ≠ .dedent := by
        intro h
        rw [h] at hkind
        cases hkind
      rw [if_neg hindent, if_neg hdedent, hlevels, hpending]
      rfl
    · rw [if_pos (by rw [htoken]; rfl), if_neg (by rw [htoken]; exact nofun), hlevels, hpending,
        List.length_cons]
      omega
    · have hlength := congrArg List.length hlevels
      rw [List.length_append] at hlength
      rw [if_neg (by rw [hkind]; decide), if_pos hkind]
      omega
  · intro fault hafter
    rcases step.fault_cases wf with hnone | ⟨hkind, found, hfound, hbefore⟩
    · rw [hnone] at hafter
      cases hafter
    · rw [hfound] at hafter
      cases hafter
      refine ⟨?_, out.1, List.getLast?_concat, hkind⟩
      rcases hbefore with hbefore | hbetween
      · exact (hfault fault hbefore).1
      · exact hbetween

theorem balanced_scan (source : Text) (modes : List Mode) :
    Balanced ((ofText source).scan modes).1 ((ofText source).scan modes).2 :=
  (scan_induction (wellFormed_ofText source) (balanced_ofText source)
    (fun _ t mode hwf balanced => balanced.step hwf (step_next t mode)) modes).2

/-- An `indent` carries the width that it pushes. -/
theorem Step.indentation_of_indent (wf : s.WellFormed) (step : s.Step mode out)
    (hkind : out.1.kind = .indent) :
    ∃ width, out.1.indent = some width ∧ out.2.indentation = s.indentation ++ [width] := by
  rcases step.levels_cases wf with ⟨hlevel, -, -⟩ | ⟨-, width, htoken, -, hlevels, -⟩ |
    ⟨-, hdedent, -⟩
  · rw [hkind] at hlevel
    cases hlevel
  · refine ⟨width, ?_, ?_⟩
    · rw [htoken]
      rfl
    · unfold indentation
      rw [hlevels, List.reverse_cons, List.cons_append]
  · rw [hkind] at hdedent
    cases hdedent

/-- The indentation stack is in order whatever the caller asks, going back included. On a run that
never goes back, the `indent`s and the `dedent`s account for the stack; an `indent` carries the
width it pushes; a line that fits no level is reported right after a `dedent`, and lies strictly
between the level it falls back to and the body it leaves; and a body gives the end of the input
only when the stack is down to its bottom and the counts are equal. -/
theorem indentation_stack (source : Text) :
    (∀ calls : List Call, ∃ above : List Nat,
      ((Session.start source).run calls).scanner.indentation = 0 :: above ∧
      ((Session.start source).run calls).scanner.indentation.Pairwise (· < ·)) ∧
    ∀ (modes : List Mode) (tokens : List Token) (s : Scanner),
      (ofText source).scan modes = (tokens, s) →
      (countKind .indent tokens : Int) - countKind .dedent tokens =
        (s.indentation.length : Int) - 1 + s.pendingDedents ∧
      ∀ mode : Mode,
        ((s.next mode).1.kind = .indent → ∃ width, (s.next mode).1.indent = some width ∧
          (s.next mode).2.indentation = s.indentation ++ [width]) ∧
        (∀ body enclosing found,
          (s.next mode).1.kind = .errorRecovery (.dedentMismatch body enclosing found) →
          (∃ token, tokens.getLast? = some token ∧ token.kind = .dedent) ∧
            enclosing < found ∧ found < body) ∧
        (mode = .body → (s.next mode).1.kind = .endOfInput →
          (s.next mode).2.indentation = [0] ∧
            countKind .indent tokens = countKind .dedent tokens) := by
  constructor
  · -- Snapshots are stacked as well, so that going back leads to a stack in order.
    intro calls
    have hstacked := ((Session.sound_start source).run calls).stacked _ List.mem_cons_self
    exact ⟨_, rfl, hstacked⟩
  · intro modes tokens s hscan
    have hwf := (wellFormed_ofText source).scan modes
    have hbalanced := balanced_scan source modes
    rw [hscan] at hwf hbalanced
    dsimp only at hwf hbalanced
    have hlength : s.indentation.length = s.levels.length + 1 := by simp [indentation]
    refine ⟨?_, fun mode => ⟨?_, ?_, ?_⟩⟩
    · have hcount := hbalanced.count
      omega
    · exact (step_next s mode).indentation_of_indent hwf
    · intro body enclosing found hkind
      have hpending := (step_next s mode).pendingFault_of_mismatch hwf hkind
      obtain ⟨hbetween, hlast⟩ := hbalanced.fault _ hpending
      exact ⟨hlast, hbetween⟩
    · rintro rfl hkind
      have hend := atEnd_of_endOfInput hwf hkind
      have hstays := ((step_next s .body).endOfInput_inv hwf hkind).2.1
      have hlevels := hend.levels rfl
      have hcount := hbalanced.count
      rw [hlevels, hend.ready.pendingDedents] at hcount
      refine ⟨?_, hcount⟩
      rw [hstays]
      simp [indentation, hlevels]

end Scanner

end Justfile
