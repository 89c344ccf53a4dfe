import Justfile.Proofs.Tree.Unclosed

/-!
# Unterminated literals are reported once

When the input ends inside nested literals, each of them is asked for its next token at the end, and
only one may complain. The report takes all that is left and sets the flag of literals; from then on
the scanner is spent (`Scanner.Spent`). A spent scanner stays spent whatever mode it is asked in, and
so it never reports another unterminated literal (`Scanner.Spent.next`). In particular no literal can
open, which is the only way to clear the flag.

Along a derivation there is therefore no such report, or there is a single one and the scanner is
spent (`Derives.accounted`). A whole source comes out as `unterminated_at_most_once`.
-/

set_option autoImplicit false

namespace Justfile

/-! ## Spent scanners -/

namespace Scanner

/-- Nothing is left, and the literal at hand is closed or reported. -/
structure Spent (s : Scanner) : Prop where
  rest : s.rest = []
  literalClosed : s.literalClosed = true

/-- What a step from one scanner to another may do, given its token: a spent scanner stays where it
is and reports no unterminated literal; a scanner that reports one is spent behind it. -/
structure Accounts (s : Scanner) (token : Token) (t : Scanner) : Prop where
  spent : s.Spent → t.Spent ∧ t.offset = s.offset ∧ Grammar.isUnterminated token.kind = false
  reported : Grammar.isUnterminated token.kind = true → t.Spent ∧ token.span.stop = t.offset

variable {s t u : Scanner} {mode : Mode}

/-- A report of an unterminated literal sets the flag. -/
theorem flag?_of_isUnterminated {kind : Token.Kind} (h : Grammar.isUnterminated kind = true) :
    kind.flag? = some true := by
  cases kind with
  | errorRecovery fault => cases fault <;> first | rfl | cases h
  | _ => cases h

/-- A step that reports an unterminated literal takes everything, and the flag was clear if there
was nothing to take. -/
theorem isUnterminated_next_inv (wf : s.WellFormed)
    (h : Grammar.isUnterminated (s.next mode).1.kind = true) :
    (s.next mode).2.rest = [] ∧ (s.rest = [] → s.literalClosed = false) := by
  have hset := flag?_of_isUnterminated h
  cases hkind : (s.next mode).1.kind with
  | errorRecovery fault =>
    rw [hkind] at hset
    exact (step_next s mode).unterminated_inv wf hkind hset
  | _ => rw [hkind] at h; cases h

/-- At the end of the input no literal opens. -/
theorem flag?_next_of_rest_eq_nil (wf : s.WellFormed) (hrest : s.rest = []) (mode : Mode) :
    (s.next mode).1.kind.flag? ≠ some false := by
  intro hclear
  have hopens := (Token.Kind.flag?_eq_false_iff _).1 hclear
  have hchars : canBeEmpty (s.next mode).1.kind = false := by
    cases hkind : (s.next mode).1.kind <;> rw [hkind] at hopens <;> first | rfl | cases hopens
  have hlt := (step_next s mode).rest_lt wf hchars
  rw [hrest] at hlt
  exact absurd hlt (Nat.not_lt_zero _)

/-- At the end of the input there is nothing to take. -/
theorem text_next_of_rest_eq_nil (hrest : s.rest = []) (mode : Mode) :
    (s.next mode).1.text = [] ∧ (s.next mode).2.rest = [] := by
  have htakes := (takes_next s mode).text_append_rest
  rw [hrest] at htakes
  exact List.append_eq_nil_iff.1 htakes

theorem Spent.next (h : s.Spent) (wf : s.WellFormed) (mode : Mode) :
    (s.next mode).2.Spent ∧ (s.next mode).2.offset = s.offset ∧
      Grammar.isUnterminated (s.next mode).1.kind = false := by
  obtain ⟨htext, hrest⟩ := text_next_of_rest_eq_nil h.rest mode
  refine ⟨⟨hrest, ?_⟩, ?_, ?_⟩
  · -- The flag can only be cleared by a literal that opens.
    rw [literalClosed_next wf, h.literalClosed]
    have hnot := flag?_next_of_rest_eq_nil wf h.rest mode
    cases hflag : (s.next mode).1.kind.flag? with
    | none => rfl
    | some flag =>
      cases flag with
      | true => rfl
      | false => exact absurd hflag hnot
  · rw [(takes_next s mode).offset_eq, htext]
    rfl
  · cases hkind : Grammar.isUnterminated (s.next mode).1.kind with
    | false => rfl
    | true =>
      have hclear := (isUnterminated_next_inv wf hkind).2 h.rest
      rw [h.literalClosed] at hclear
      cases hclear

theorem accounts_next (wf : s.WellFormed) (mode : Mode) :
    s.Accounts (s.next mode).1 (s.next mode).2 := by
  refine ⟨fun h => h.next wf mode, fun h => ⟨⟨(isUnterminated_next_inv wf h).1, ?_⟩, ?_⟩⟩
  · rw [literalClosed_next wf, flag?_of_isUnterminated h]
    rfl
  · rw [(takes_next s mode).span_eq]

/-- The token may be given a kind that reports no unterminated literal. -/
theorem Accounts.quiet {token other : Token} (h : s.Accounts token t)
    (hquiet : Grammar.isUnterminated other.kind = false) : s.Accounts other t := by
  refine ⟨fun hspent => ?_, fun hloud => ?_⟩
  · obtain ⟨ht, hoffset, -⟩ := h.spent hspent
    exact ⟨ht, hoffset, hquiet⟩
  · rw [hquiet] at hloud
    cases hloud

/-- Two steps whose tokens become one that reports no unterminated literal. -/
theorem Accounts.trans {first second other : Token} (h : s.Accounts first t)
    (h' : t.Accounts second u) (hquiet : Grammar.isUnterminated other.kind = false) :
    s.Accounts other u := by
  refine ⟨fun hspent => ?_, fun hloud => ?_⟩
  · obtain ⟨ht, hoffset, -⟩ := h.spent hspent
    obtain ⟨hu, hoffset', -⟩ := h'.spent ht
    exact ⟨hu, hoffset'.trans hoffset, hquiet⟩
  · rw [hquiet] at hloud
    cases hloud

end Scanner

namespace Grammar

/-! ## Along a derivation -/

/-- The reports of unterminated literals. -/
def unterminatedReports (reports : List Report) : List Report :=
  reports.filter (·.cause.isUnterminated)

/-- No unterminated literal is reported, or a single one is, and its report ends where the scanner
is spent. -/
def Accounted (s : State) : Prop :=
  unterminatedReports s.reports = [] ∨
    s.scanner.Spent ∧
      ∃ report, unterminatedReports s.reports = [report] ∧ report.span.stop = s.scanner.offset

theorem Accounted.at_most_one {s : State} (h : Accounted s) :
    (unterminatedReports s.reports).length ≤ 1 ∧
      ∀ report ∈ unterminatedReports s.reports, report.span.stop = s.scanner.offset := by
  rcases h with hnone | ⟨-, report, hone, hstop⟩
  · rw [hnone]
    exact ⟨Nat.zero_le 1, fun _ hmem => absurd hmem List.not_mem_nil⟩
  · rw [hone]
    refine ⟨Nat.le_refl 1, fun other hmem => ?_⟩
    rw [List.mem_singleton.1 hmem, hstop]

theorem unterminatedReports_take_of_quiet (s : State) {token : Token} (scanner : Scanner)
    (h : isUnterminated token.kind = false) :
    unterminatedReports (s.take token scanner).reports = unterminatedReports s.reports := by
  unfold State.take
  cases hkind : token.kind with
  | errorRecovery fault =>
    rw [hkind] at h
    exact List.filter_cons_of_neg (Bool.not_eq_true _ ▸ h)
  | _ => rfl

theorem unterminatedReports_take_of_loud (s : State) {token : Token} (scanner : Scanner)
    (h : isUnterminated token.kind = true) :
    ∃ cause, unterminatedReports (s.take token scanner).reports =
      ⟨cause, token.span⟩ :: unterminatedReports s.reports := by
  unfold State.take
  cases hkind : token.kind with
  | errorRecovery fault =>
    rw [hkind] at h
    exact ⟨.lexical fault, List.filter_cons_of_pos h⟩
  | _ => rw [hkind] at h; cases h

theorem Accounted.take {s : State} (h : Accounted s) {token : Token} {scanner : Scanner}
    (haccounts : s.scanner.Accounts token scanner) : Accounted (s.take token scanner) := by
  rcases h with hnone | ⟨hspent, report, hone, hstop⟩
  · cases hloud : isUnterminated token.kind with
    | false => exact .inl ((unterminatedReports_take_of_quiet s scanner hloud).trans hnone)
    | true =>
      obtain ⟨hspent, hstop⟩ := haccounts.reported hloud
      obtain ⟨cause, hreports⟩ := unterminatedReports_take_of_loud s scanner hloud
      exact .inr ⟨hspent, ⟨cause, token.span⟩, hnone ▸ hreports, hstop⟩
  · obtain ⟨hafter, hoffset, hquiet⟩ := haccounts.spent hspent
    refine .inr ⟨hafter, report, ?_, hstop.trans hoffset.symm⟩
    exact (unterminatedReports_take_of_quiet s scanner hquiet).trans hone

theorem Accounted.taken {s : State} (h : Accounted s) (wf : s.scanner.WellFormed) :
    Accounted s.taken :=
  h.take (Scanner.accounts_next wf s.stream.mode)

/-- A report about anything but an unterminated literal. -/
theorem Accounted.withReport {s : State} (h : Accounted s) {cause : Cause}
    (hcause : cause.isUnterminated = false) (span : Span) : Accounted (s.withReport cause span) := by
  have hreports : unterminatedReports (s.withReport cause span).reports =
      unterminatedReports s.reports :=
    List.filter_cons_of_neg (Bool.not_eq_true _ ▸ hcause)
  unfold Accounted
  rw [hreports]
  exact h

theorem Ending.accounted {l : Literal} {s t : State} {nodes : Forest} (ending : Ending l s nodes t)
    (wf : s.scanner.WellFormed) (h : Accounted s) : Accounted t := by
  cases ending with
  | closed => exact h.taken wf
  | reported => exact h.taken wf
  | silent => exact h

/-- Along a derivation no second unterminated literal is reported, and none but at the end. -/
theorem Derives.accounted {place : Place} {height : Nat} {s t : State} {nodes : Forest}
    (derives : Derives place height s nodes t) (wf : s.scanner.WellFormed) (h : Accounted s) :
    Accounted t := by
  induction derives with
  | nil => exact h
  | append hfirst _ ih1 ih2 => exact ih2 (hfirst.advances.wellFormed wf) (ih1 wf h)
  | within => exact h
  | token => exact h.taken wf
  | @keyword _ _ s => exact h.take ((Scanner.accounts_next wf s.stream.mode).quiet rfl)
  | @closingBraces _ _ s first second middle after hfirst hsecond =>
    have hmiddle : middle = s.step.2 := (congrArg Prod.snd hfirst).symm
    have hwf : middle.WellFormed := hmiddle ▸ wf.next s.stream.mode
    -- Two steps are made before anything is recorded, and neither brace reports anything.
    have haccounts : s.scanner.Accounts s.step.1 s.step.2 :=
      Scanner.accounts_next wf s.stream.mode
    have haccounts' := Scanner.accounts_next hwf s.stream.mode
    rw [hfirst] at haccounts
    rw [hsecond] at haccounts'
    exact h.take (haccounts.trans haccounts' rfl)
  | missing => exact h.withReport rfl _
  | group _ _ _ _ _ ih => exact ih wf h
  | body _ _ _ _ ih => exact ih wf h
  | number => exact (h.taken wf).withReport rfl _
  | error _ cause _ _ hcause ih =>
    refine (ih wf h).withReport ?_ _
    cases cause <;> first | rfl | cases hcause
  | interpolation _ _ _ ih => exact ih wf h
  | @literal _ _ _ s t u _ _ l _ _ hbody _ _ hending _ _ ih =>
    have hwf := wf.next s.stream.mode
    exact hending.accounted (hbody.advances.wellFormed hwf) (ih hwf (h.taken wf))

/-- Over a whole source at most one unterminated literal is reported, and it ends with the source. -/
theorem unterminatedReports_run (limit : Nat) (source : Text) :
    (unterminatedReports (run limit source).2.reports).length ≤ 1 ∧
      ∀ report ∈ unterminatedReports (run limit source).2.reports,
        report.span.stop = source.byteSize := by
  have haccounted : Accounted (run limit source).2 :=
    (derives_file limit source).1.accounted (Scanner.wellFormed_ofText source) (.inl rfl)
  rw [← offset_run limit source]
  exact haccounted.at_most_one

end Grammar

/-! ## Diagnostics -/

/-- The diagnostics of unterminated literals are those of the reports. -/
theorem perm_unterminated_diagnostics (limit : Nat) (source : Text) :
    ((parse limit source).diagnostics.filter (·.cause.isUnterminated)).Perm
      ((Grammar.unterminatedReports (Grammar.run limit source).2.reports).map
        (Report.located source)) := by
  rw [diagnostics_parse]
  generalize (Grammar.run limit source).2.reports = reports
  have hperm := (Report.perm_sort reports.reverse).trans reports.reverse_perm
  rw [List.filter_map]
  exact (hperm.filter _).map _

/-- However many literals are open at the end of the input, and however deep they are nested, at
most one diagnostic says so, and it reaches to the end of the input. -/
theorem unterminated_at_most_once (limit : Nat) (source : Text) :
    ((parse limit source).diagnostics.filter fun d =>
        d.cause.code = "unterminated_string" ∨ d.cause.code = "unterminated_command").length ≤ 1 ∧
      ∀ d ∈ (parse limit source).diagnostics,
        d.cause.code = "unterminated_string" ∨ d.cause.code = "unterminated_command" →
          d.span.stop = source.byteSize := by
  obtain ⟨hlength, hstop⟩ := Grammar.unterminatedReports_run limit source
  have hperm := perm_unterminated_diagnostics limit source
  simp only [← Cause.isUnterminated_iff, Bool.decide_eq_true]
  constructor
  · rw [hperm.length_eq, List.length_map]
    exact hlength
  · intro d hmem hcode
    obtain ⟨report, hreport, rfl⟩ :=
      List.mem_map.1 (hperm.mem_iff.1 (List.mem_filter.2 ⟨hmem, hcode⟩))
    exact hstop report hreport

end Justfile
