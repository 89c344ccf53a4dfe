import Justfile.Proofs.Append.Front
import Justfile.Proofs.Tree.Flaw
import Justfile.Proofs.Tree.Tokens

/-!
# The last line of a tree

What the tree of a text says of the run that made it. If it has no diagnostics, and the last leaf with
characters is the end of a line, then the text ends with a line feed, and so does the run
(`plain_of_tree`). Along a run, no token but the two moves between levels is without characters, unless it
is at fault, and the end of a line has a line feed (`Derives.transcribed`).
-/

set_option autoImplicit false

namespace Justfile

open Text (IsLines)

namespace Scanner

open Justfile.Measure

variable {s : Scanner} {mode : Mode}

/-! ## Ends of lines -/

/-- A token that ends a line has the characters of that end. -/
def BreaksLine (token : Token) : Prop := token.kind = .newline → IsLines token.text

theorem isLines_newline? {text : Text} {size : Nat} (h : newline? text = some size) :
    IsLines (text.take size) := by
  unfold newline? at h
  split at h
  · cases h
    rfl
  · cases h
    rfl
  · cases h

theorem breaksLine_normalToken (s : Scanner) (c : Char) : BreaksLine (s.normalToken c).1 := by
  unfold normalToken unexpected BreaksLine
  dsimp only
  repeat' split
  all_goals exact nofun

theorem breaksLine_normal (s : Scanner) : BreaksLine s.normal.1 := by
  unfold normal
  split
  · exact nofun
  · next hrest =>
    split
    · exact nofun
    · split
      · next hnew => exact fun _ => isLines_newline? (hrest ▸ hnew)
      · exact s.breaksLine_normalToken _

theorem breaksLine_bodyStart (s : Scanner) : BreaksLine s.bodyStart.1 := by
  unfold bodyStart
  split
  · exact nofun
  · dsimp only
    split
    · exact nofun
    · exact s.breaksLine_normal

theorem breaksLine_bodyContent (s : Scanner) : BreaksLine s.bodyContent.1 := by
  unfold bodyContent
  split
  · next hnew => exact fun _ => isLines_newline? hnew
  · split
    · exact nofun
    · exact nofun

theorem breaksLine_bodyLine (s : Scanner) : BreaksLine s.bodyLine.1 := by
  unfold bodyLine
  dsimp only
  split
  · split
    · exact nofun
    · split
      · exact nofun
      · exact breaksLine_bodyContent _
  · exact s.breaksLine_bodyContent

theorem breaksLine_body (s : Scanner) : BreaksLine s.body.1 := by
  unfold body
  dsimp only
  split
  · split
    · exact nofun
    · exact nofun
  · split
    · split
      · split
        · exact nofun
        · exact s.breaksLine_bodyLine
      · split
        · exact nofun
        · split
          · exact nofun
          · exact breaksLine_bodyLine _
    · exact s.breaksLine_bodyLine

theorem breaksLine_next (wf : s.WellFormed) (mode : Mode) : BreaksLine (s.next mode).1 := by
  intro hkind
  obtain ⟨ready, hadmits⟩ := (step_next s mode).admits_inv wf (.inr hkind)
  rw [hkind] at hadmits
  rw [ready.next_eq] at hkind ⊢
  cases mode with
  | normal => exact s.breaksLine_normal hkind
  | bodyStart => exact s.breaksLine_bodyStart hkind
  | body => exact s.breaksLine_body hkind
  | stringContent => cases hadmits
  | commandContent => cases hadmits

end Scanner

namespace Grammar

open Scanner (BreaksLine)

variable {s t : State} {nodes : Forest}

/-! ## Tokens that were consumed -/

/-- What is known of a token that was consumed. -/
structure Written (token : Token) : Prop where
  span : token.span.stop = token.span.start + Text.byteSize token.text
  text : token.kind.isLevel = false → token.kind.isErrorRecovery = false → token.text ≠ []
  line : BreaksLine token

theorem written_next {s : Scanner} (wf : s.WellFormed) {mode : Mode}
    (hkind : (s.next mode).1.kind ≠ .endOfInput) : Written (s.next mode).1 := by
  have htakes := Scanner.takes_next s mode
  refine ⟨?_, fun hlevel herror => Scanner.text_next_ne_nil wf ?_, Scanner.breaksLine_next wf mode⟩
  · rw [htakes.span_eq]
    exact htakes.offset_eq
  · generalize (s.next mode).1.kind = kind at hkind hlevel herror
    cases kind with
    | endOfInput => exact absurd rfl hkind
    | indent => cases hlevel
    | dedent => cases hlevel
    | errorRecovery => cases herror
    | _ => rfl

theorem written_step (wf : s.scanner.WellFormed) {kind : Token.Kind} (hkind : s.step.1.kind = kind)
    (hne : kind ≠ .endOfInput) : Written s.step.1 :=
  written_next wf (show s.step.1.kind ≠ .endOfInput by rwa [hkind])

/-- Two tokens, one behind the other. -/
theorem written_glued {first second : Token} (hfirst : Written first) (hsecond : Written second)
    (hspan : first.span.stop = second.span.start) (hne : first.text ≠ []) :
    Written ⟨.interpolationClose, ⟨first.span.start, second.span.stop⟩, first.text ++ second.text,
      none⟩ := by
  refine ⟨?_, fun _ _ hnil => hne (List.append_eq_nil_iff.1 hnil).1, nofun⟩
  dsimp only
  rw [hsecond.span, ← hspan, hfirst.span, Text.byteSize_append, Nat.add_assoc]

/-- All tokens that were consumed so far are known. -/
def State.Transcribed (s : State) : Prop := ∀ token ∈ s.consumed, Written token

theorem State.Transcribed.take (h : s.Transcribed) {token : Token} (hnew : Written token)
    (scanner : Scanner) : (s.take token scanner).Transcribed := by
  intro other hmem
  rcases List.mem_cons.1 hmem with rfl | hmem
  · exact hnew
  · exact h other hmem

theorem Ending.transcribed {l : Literal} (ending : Ending l s nodes t) (wf : s.scanner.WellFormed)
    (h : s.Transcribed) : t.Transcribed := by
  cases ending with
  | closed hkind => exact h.take (written_step wf hkind (by cases l <;> exact nofun)) _
  | reported hkind => exact h.take (written_step wf hkind nofun) _
  | silent => exact h

theorem Derives.transcribed {place : Place} {height : Nat} (derives : Derives place height s nodes t)
    (wf : s.scanner.WellFormed) (h : s.Transcribed) : t.Transcribed := by
  induction derives with
  | nil => exact h
  | append hfront _ ih1 ih2 => exact ih2 (hfront.advances.wellFormed wf) (ih1 wf h)
  | within => exact h
  | token _ hend => exact h.take (written_step wf rfl hend) _
  | @keyword _ _ s _ word hkind =>
    have hword := written_step wf hkind nofun
    have hwritten : Written { s.step.1 with kind := .keyword word } :=
      ⟨hword.span, fun _ _ => hword.text (by rw [hkind]; rfl) (by rw [hkind]; rfl), nofun⟩
    exact h.take hwritten s.step.2
  | @closingBraces _ _ s first second middle after hfirst hsecond hkind hkind' =>
    have htakes := Scanner.takes_next s.scanner s.stream.mode
    have hmore := Scanner.takes_next middle s.stream.mode
    have hwf := wf.next s.stream.mode
    have hbrace := written_step wf (show s.step.1.kind = .mark .braceR by rw [hfirst, hkind]) nofun
    rw [show s.scanner.next s.stream.mode = (first, middle) from hfirst] at htakes hwf
    have hbrace' : Written (middle.next s.stream.mode).1 :=
      written_next hwf (by rw [hsecond, hkind']; exact nofun)
    rw [hsecond] at hmore hbrace'
    rw [hfirst] at hbrace
    have hspan : first.span.stop = second.span.start := by
      rw [show first.span = _ from htakes.span_eq, show second.span = _ from hmore.span_eq]
    have hne : first.text ≠ [] := hbrace.text (by rw [hkind]; rfl) (by rw [hkind]; rfl)
    exact h.take (written_glued hbrace hbrace' hspan hne) after
  | missing => exact h
  | group _ _ _ _ _ ih => exact ih wf h
  | body _ _ _ _ ih => exact ih wf h
  | @number _ _ s _ _ hkind => exact h.take (written_step wf hkind nofun) s.step.2
  | error _ _ _ _ _ ih => exact ih wf h
  | interpolation _ _ _ ih => exact ih wf h
  | @literal _ _ _ s _ _ _ _ l _ hopens hbody _ _ hending _ _ ih =>
    have hopened : s.taken.Transcribed :=
      h.take (written_step wf hopens (by cases l <;> exact nofun)) s.step.2
    have hwf := wf.next s.stream.mode
    exact hending.transcribed (hbody.advances.wellFormed hwf) (ih hwf hopened)

/-! ## Trees without diagnostics -/

/-- Without reports no token is at fault. -/
theorem isErrorRecovery_of_reports {limit : Nat} {source : Text}
    (hreports : (run limit source).2.reports = []) {token : Token}
    (hmem : token ∈ (run limit source).2.consumed) : token.kind.isErrorRecovery = false := by
  obtain ⟨marks, hmarks⟩ := (derives_file limit source).1.marked
  obtain ⟨reports, heq, hperm⟩ := hmarks.reports
  obtain ⟨tokens, hconsumed, hfaults⟩ := hmarks.faults
  rw [hreports] at heq
  have hnone : marks = [] := by
    have hnil := (List.append_eq_nil_iff.1 heq.symm).1
    rw [hnil] at hperm
    exact List.map_eq_nil_iff.1 hperm.nil_eq.symm
  rw [hnone, List.filterMap_nil, eq_comm, List.filterMap_eq_nil_iff] at hfaults
  rw [hconsumed, show (State.ofText source).consumed = [] from rfl, List.append_nil] at hmem
  have hfault := hfaults token (List.mem_reverse.2 hmem)
  unfold Token.fault? at hfault
  cases hkind : token.kind with
  | errorRecovery =>
    rw [hkind] at hfault
    cases hfault
  | _ => rfl

/-- Without characters there are moves between levels and faults only. -/
theorem Written.isLevel_of_isEmpty {token : Token} (h : Written token)
    (herror : token.kind.isErrorRecovery = false) (hspan : token.span.isEmpty = true) :
    token.kind.isLevel = true ∧ token.text = [] := by
  have htext : token.text = [] := by
    have hstop := h.span
    rw [← eq_of_beq hspan] at hstop
    have hlength := Text.length_le_byteSize token.text
    exact List.length_eq_zero_iff.1 (by omega)
  refine ⟨?_, htext⟩
  by_contra hlevel
  exact h.text (Bool.eq_false_iff.2 hlevel) herror htext

theorem kind_of_ofToken_newline {kind : Token.Kind}
    (h : Node.Kind.ofToken kind = .token .newline) : kind = .newline := by
  cases kind <;> first | rfl | cases h

/-- Where a filter keeps a last entry, it keeps nothing behind it. -/
theorem exists_of_getLast?_filter {α : Type} {p : α → Bool} {entries : List α} {last : α}
    (h : (entries.filter p).getLast? = some last) :
    ∃ front back, entries = front ++ last :: back ∧ p last = true ∧ ∀ entry ∈ back, p entry = false := by
  obtain ⟨kept, hkept⟩ := List.getLast?_eq_some_iff.1 h
  obtain ⟨front, rest, rfl, -, hrest⟩ := List.filter_eq_append_iff.1 hkept
  obtain ⟨skipped, back, rfl, -, hlast, hback⟩ := List.filter_eq_cons_iff.1 hrest
  refine ⟨front ++ skipped, back, (List.append_assoc front skipped _).symm, hlast, fun entry hmem => ?_⟩
  exact Bool.eq_false_iff.2 (List.filter_eq_nil_iff.1 hback entry hmem)

theorem reports_of_diagnostics {limit : Nat} {source : Text}
    (h : (parse limit source).diagnostics = []) : (run limit source).2.reports = [] := by
  rw [diagnostics_parse, List.map_eq_nil_iff] at h
  have hperm := Report.perm_sort (run limit source).2.reports.reverse
  rw [h] at hperm
  exact List.reverse_eq_nil_iff.1 hperm.nil_eq.symm

/-- The token of the last leaf with characters, and those behind it: moves between levels only. -/
theorem exists_lastLine {limit : Nat} {source : Text} (hreports : (run limit source).2.reports = [])
    (hlast : ((parse limit source).root.leaves.filter (!·.span.isEmpty)).getLast?.map Node.kind =
      some (.token .newline)) :
    ∃ behind token before, (run limit source).2.consumed = behind ++ token :: before ∧
      token.kind = .newline ∧ Text.IsLines token.text ∧
      ∀ token ∈ behind, token.kind.isLevel = true ∧ token.text = [] := by
  have hderives := (derives_file limit source).1
  have hwritten := hderives.transcribed (Scanner.wellFormed_ofText source) (s := .ofText source) nofun
  obtain ⟨tokens, hconsumed, hmarks⟩ := hderives.emits
  obtain ⟨leaf, hleaf, hkind⟩ := Option.map_eq_some_iff.1 hlast
  obtain ⟨front, back, hleaves, -, hback⟩ := exists_of_getLast?_filter hleaf
  have hholds : leaf.isMark = false := by
    unfold Node.isMark
    rw [hkind]
    rfl
  rw [Node.tokenMarks_eq (run_conforms limit source).1 (run limit source).2.stream.offset,
    ← root_parse, hleaves, List.filter_append, List.filter_cons_of_pos (by rw [hholds]; rfl),
    List.map_append, List.map_cons] at hmarks
  obtain ⟨first, rest, rfl, -, hrest⟩ := List.map_eq_append_iff.1 hmarks
  obtain ⟨token, last, rfl, htoken, hmore⟩ := List.map_eq_cons_iff.1 hrest
  rw [show (State.ofText source).consumed = [] from rfl, List.append_nil, List.reverse_append,
    List.reverse_cons, List.append_assoc] at hconsumed
  have hline : token.kind = .newline :=
    kind_of_ofToken_newline ((congrArg Prod.fst htoken).trans hkind)
  refine ⟨last.reverse, token, first.reverse, hconsumed, hline, ?_, fun other hmem => ?_⟩
  · exact (hwritten token (by rw [hconsumed]; simp)).line hline
  · have hother : other ∈ (run limit source).2.consumed := by
      rw [hconsumed]
      exact List.mem_append_left _ hmem
    have hspan : other.span.isEmpty = true := by
      have hmark : tokenMark other ∈ (back.filter (!·.isMark)).map Node.mark := by
        rw [← hmore]
        exact List.mem_map_of_mem (List.mem_reverse.1 hmem)
      obtain ⟨leaf, hleaf, hsame⟩ := List.mem_map.1 hmark
      have hempty := hback leaf (List.mem_filter.1 hleaf).1
      rw [show leaf.span = other.span from congrArg Prod.snd hsame] at hempty
      simpa using hempty
    exact (hwritten other hother).isLevel_of_isEmpty (isErrorRecovery_of_reports hreports hother) hspan

/-- A run on a text that reports nothing and ends with the end of a line. -/
structure Plain (limit : Nat) (source : Text) : Prop where
  lines : IsLines source
  reports : (run limit source).2.reports = []
  ends : EndsLine (run limit source).2.consumed

theorem Plain.sound {limit : Nat} {source : Text} (plain : Plain limit source) :
    (run limit source).2.Sound :=
  ⟨plain.reports, exhausted_run limit source,
    fun doomed => doomed.last (derives_file limit source).2 plain.ends⟩

/-- A text whose tree has no diagnostics, and an end of a line as the last leaf with characters. -/
theorem plain_of_tree {limit : Nat} {source : Text} (hclean : (parse limit source).diagnostics = [])
    (hlast : ((parse limit source).root.leaves.filter (!·.span.isEmpty)).getLast?.map Node.kind =
      some (.token .newline)) : Plain limit source := by
  have hreports := reports_of_diagnostics hclean
  obtain ⟨hderives, hrest⟩ := derives_file limit source
  obtain ⟨behind, token, before, hconsumed, hkind, hline, hbehind⟩ := exists_lastLine hreports hlast
  refine ⟨?_, hreports, token, ?_, hkind⟩
  · have hsource := (hderives.reaches (reaches_ofText source)).source_eq
    have hempty : behind.reverse.flatMap Token.text = [] :=
      List.flatMap_eq_nil_iff.2 fun other hmem => (hbehind other (List.mem_reverse.1 hmem)).2
    rw [hrest, List.append_nil, hconsumed, List.reverse_append, List.reverse_cons, List.append_assoc,
      List.flatMap_append, List.flatMap_append, hempty, List.append_nil] at hsource
    rw [← hsource]
    unfold Text.IsLines at hline ⊢
    rw [List.getLast?_append, List.flatMap_singleton, hline, Option.some_or]
  · have hlevels : behind.find? (fun token => !token.kind.isLevel) = none :=
      List.find?_eq_none.2 fun other hmem => by rw [(hbehind other hmem).1]; decide
    rw [hconsumed, List.find?_append, hlevels, Option.none_or, List.find?_cons_of_pos]
    rw [hkind]
    rfl

end Grammar

end Justfile
