import Justfile.Proofs.Printed.Cut
import Justfile.Proofs.Printed.Declaration

/-!
# Cutting printed bodies

Which tokens the scanner cuts off the lines of a printed body. How a line starts decides almost
everything: a solid character behind blanks (`StartsSolid`) is what opens a body, keeps it open or
closes it, by the number of the blanks. One lemma for each token of a body: its opening, the
indentation of a line, its text, a line break, and its end. After the last line a body can only be
followed by the end of the file or by a name (`Resumes`).
-/

set_option autoImplicit false

namespace Justfile

namespace Measure

variable {text blanks : Text}

/-! ## Blanks in front of a line -/

/-- The text starts with the blanks and goes on with a character of a line. -/
def StartsSolid (blanks text : Text) : Prop :=
  ∃ c rest, text = blanks ++ c :: rest ∧ (∀ b ∈ blanks, isBlank b = true) ∧ isBlank c = false ∧
    c ≠ '\n' ∧ c ≠ '\r'

theorem StartsSolid.indentation (h : StartsSolid blanks text) : indentation text = blanks.length := by
  obtain ⟨c, rest, rfl, hblanks, hc, -⟩ := h
  rw [Measure.indentation, List.takeWhile_append_of_pos hblanks,
    List.takeWhile_cons_of_neg (by simp [hc]), List.append_nil]

theorem StartsSolid.not_atLineEnd (h : StartsSolid blanks text) :
    atLineEnd (text.drop blanks.length) = false := by
  obtain ⟨c, rest, rfl, -, -, hfeed, hreturn⟩ := h
  rw [List.drop_left' rfl]
  simp [atLineEnd, newline?, hfeed, hreturn]

theorem StartsSolid.blankLinesFrom (h : StartsSolid blanks text) (counted pending : Nat) :
    blankLinesFrom counted pending text = counted := by
  obtain ⟨c, rest, rfl, hblanks, hc, hfeed, hreturn⟩ := h
  -- Each blank is only pending, so that none is counted when the solid character comes.
  induction blanks generalizing pending with
  | nil =>
    have hspaces : ¬(c = ' ' ∨ c = '\t') := by
      rw [← isBlank_iff, hc]
      decide
    obtain ⟨hspace, htab⟩ := not_or.1 hspaces
    rw [List.nil_append]
    unfold Measure.blankLinesFrom
    split
    · next heq => cases heq
    · next heq => exact absurd (List.cons.inj heq).1 hspace
    · next heq => exact absurd (List.cons.inj heq).1 htab
    · next heq => exact absurd (List.cons.inj heq).1 hfeed
    · next heq => exact absurd (List.cons.inj heq).1 hreturn
    · rfl
  | cons b blanks ih =>
    have hmore := ih (pending + 1) fun d hd => hblanks d (List.mem_cons_of_mem _ hd)
    rcases isBlank_iff.1 (hblanks b List.mem_cons_self) with rfl | rfl
    · exact hmore
    · exact hmore

theorem blankLinesFrom_replicate (text : Text) (count counted : Nat) :
    blankLinesFrom counted 0 (List.replicate count '\n' ++ text) =
      blankLinesFrom (counted + count) 0 text := by
  induction count generalizing counted with
  | zero => rfl
  | succ count ih =>
    have hstep : blankLinesFrom counted 0 (List.replicate (count + 1) '\n' ++ text) =
        blankLinesFrom (counted + 1) 0 (List.replicate count '\n' ++ text) := rfl
    rw [hstep, ih, Nat.add_assoc, Nat.add_comm 1 count]

theorem byteSize_of_isBlank (h : ∀ c ∈ blanks, isBlank c = true) :
    Text.byteSize blanks = blanks.length := by
  induction blanks with
  | nil => rfl
  | cons c blanks ih =>
    have hone : c.utf8Size = 1 := by
      rcases isBlank_iff.1 (h c List.mem_cons_self) with rfl | rfl <;> rfl
    have hmore := ih fun d hd => h d (List.mem_cons_of_mem _ hd)
    rw [Text.byteSize_cons, hone, hmore, List.length_cons, Nat.add_comm]

/-! ## Body text -/

/-- No two braces stand at the front of a text without any, nor across its end. -/
theorem doubleBrace_append (h : ¬['{', '{'] <:+: text) (after : Text) :
    doubleBrace (text ++ '\n' :: after) = false := by
  unfold doubleBrace
  split
  · next rest heq =>
    cases text with
    | nil => cases heq
    | cons c text =>
      obtain ⟨rfl, htail⟩ := List.cons.inj heq
      cases text with
      | nil => cases htail
      | cons d text =>
        obtain rfl := (List.cons.inj htail).1
        exact absurd (List.prefix_append ['\x7b', '\x7b'] text).isInfix h
  · rfl

theorem escapedBraces_eq_false (h : doubleBrace text = false) : escapedBraces text = false := by
  unfold escapedBraces
  split
  · cases h
  · rfl

/-- Text without line breaks, backslashes and braces is a single run. -/
theorem runFrom_plain (hplain : ∀ c ∈ text, c ≠ '\n' ∧ c ≠ '\r' ∧ c ≠ '\\')
    (hbraces : ¬['{', '{'] <:+: text) (after : Text) :
    runFrom bodyUnit? 0 (text ++ '\n' :: after) = text.length := by
  induction text with
  | nil => rfl
  | cons c text ih =>
    obtain ⟨hfeed, hreturn, hback⟩ := hplain c List.mem_cons_self
    have hmore := ih (fun d hd => hplain d (List.mem_cons_of_mem _ hd))
      fun hinner => hbraces (hinner.trans (List.suffix_cons c text).isInfix)
    have hdouble : doubleBrace (c :: (text ++ '\n' :: after)) = false :=
      doubleBrace_append hbraces after
    have hescaped := escapedBraces_eq_false hdouble
    have hunit : bodyUnit? (c :: (text ++ '\n' :: after)) = some 1 := by
      simp [bodyUnit?, newline?, hfeed, hreturn, hdouble, hescaped, hback]
    simp only [List.cons_append, runFrom, hunit, hmore, List.length_cons, Nat.sub_self]

end Measure

/-! ## Printed lines -/

namespace Printed

open Justfile.Measure

theorem Indent.pos (indent : Indent) : 0 < indent.text.length :=
  List.length_pos_iff.2 indent.nonempty

/-- A blank takes one byte. -/
theorem Indent.byteSize (indent : Indent) : indent.text.byteSize = indent.text.length :=
  byteSize_of_isBlank indent.blank

namespace Line

variable (line : Line) (after : Text)

/-- The blanks that belong to the text of a line. -/
def lead : Text := line.text.takeWhile isBlank

theorem startsSolid : StartsSolid line.lead (line.text ++ '\n' :: after) := by
  obtain ⟨text, ⟨c, hc, hsolid⟩, hplain, hbraces, hsign⟩ := line
  have hsplit := List.takeWhile_append_dropWhile (p := isBlank) (l := text)
  have hmem : ∀ d ∈ text.takeWhile isBlank, isBlank d = true :=
    fun d hd => List.all_eq_true.1 List.all_takeWhile d hd
  cases hdrop : text.dropWhile isBlank with
  | nil =>
    -- Then all of the line is blank.
    rw [hdrop, List.append_nil] at hsplit
    have hblank : isBlank c = true := hmem c (by rw [hsplit]; exact hc)
    rw [hsolid] at hblank
    cases hblank
  | cons d rest =>
    have hd : isBlank d = false := by
      have hhead := List.head_dropWhile_not isBlank (by rw [hdrop]; nofun : text.dropWhile isBlank ≠ [])
      simpa only [hdrop, List.head_cons] using hhead
    have htext : text = text.takeWhile isBlank ++ d :: rest := by rw [← hdrop, hsplit]
    have hin : d ∈ text := by
      rw [htext]
      exact List.mem_append_right _ List.mem_cons_self
    refine ⟨d, rest ++ '\n' :: after, ?_, hmem, hd, (hplain d hin).1, (hplain d hin).2.1⟩
    change text ++ _ = _
    conv => lhs; rw [htext]
    rw [List.append_assoc]
    rfl

theorem ne_nil : line.text ≠ [] := by
  obtain ⟨c, hc, -⟩ := line.nonblank
  exact List.ne_nil_of_mem hc

/-- The blanks in front of the text are those of the body and those of the line. -/
theorem startsSolid_indent (indent : Indent) :
    StartsSolid (indent.text ++ line.lead) (indent.text ++ (line.text ++ '\n' :: after)) := by
  obtain ⟨c, rest, htext, hblanks, hsolid⟩ := line.startsSolid after
  refine ⟨c, rest, by rw [htext, List.append_assoc], ?_, hsolid⟩
  intro b hb
  rcases List.mem_append.1 hb with hb | hb
  · exact indent.blank b hb
  · exact hblanks b hb

theorem Opens.lead {line : Line} (h : line.Opens) : line.lead = [] := by
  unfold Line.lead
  cases htext : line.text with
  | nil => rfl
  | cons c rest =>
    have hc : isBlank c = false := h.1 c (by rw [htext]; rfl)
    exact List.takeWhile_cons_of_neg (by simp [hc])

theorem not_doubleBrace : doubleBrace (line.text ++ '\n' :: after) = false :=
  doubleBrace_append line.no_braces after

/-- A line is body text up to its end. -/
theorem run_text : run bodyUnit? (line.text ++ '\n' :: after) = line.text.length :=
  runFrom_plain line.plain line.no_braces after

theorem not_opensInterpolation : opensInterpolation (line.text ++ '\n' :: after) = false := by
  rw [opensInterpolation, line.not_doubleBrace, Bool.false_and]

theorem linePrefix?_eq : linePrefix? (line.text ++ '\n' :: after) = none := by
  obtain ⟨hat, hdash⟩ := line.no_sign
  cases htext : line.text with
  | nil => exact absurd htext line.ne_nil
  | cons c rest =>
    have hc : c ≠ '@' ∧ c ≠ '-' := by simpa [htext] using And.intro hat hdash
    simp [linePrefix?, hc.1, hc.2]

theorem newline?_eq : newline? (line.text ++ '\n' :: after) = none := by
  cases htext : line.text with
  | nil => exact absurd htext line.ne_nil
  | cons c rest =>
    obtain ⟨hfeed, hreturn, -⟩ := line.plain c (by rw [htext]; exact List.mem_cons_self)
    simp [newline?, hfeed, hreturn]

theorem Opens.not_shebang {line : Line} (h : line.Opens) (after : Text) :
    ['#', '!'].isPrefixOf (line.text ++ '\n' :: after) = false := by
  rw [Bool.eq_false_iff]
  intro hprefix
  apply h.2
  cases htext : line.text with
  | nil => exact absurd htext line.ne_nil
  | cons c rest =>
    rw [htext] at hprefix
    cases rest with
    | nil => simp [List.isPrefixOf] at hprefix
    | cons d rest =>
      obtain ⟨rfl, rfl⟩ : '#' = c ∧ '!' = d := by simpa [List.isPrefixOf] using hprefix
      exact List.prefix_append ['#', '!'] rest

end Line

/-- What can follow a declaration: the end of the file, or a name. -/
def Resumes (text : Text) : Prop :=
  text = [] ∨ ∃ (name : Label) (after : Text), text = name.text ++ after ∧ endsWord after = true

/-- What follows is on no level of a body. -/
theorem Resumes.startsSolid {text : Text} (h : Resumes text) (hne : text ≠ []) :
    StartsSolid [] text := by
  rcases h with rfl | ⟨name, after, rfl, -⟩
  · exact absurd rfl hne
  · obtain ⟨c, rest, htext, hstart, -⟩ := name.cons
    have hc : isBlank c = false ∧ c ≠ '\n' ∧ c ≠ '\r' := by
      refine ⟨?_, ?_, ?_⟩
      · rw [Bool.eq_false_iff]
        intro hblank
        rcases isBlank_iff.1 hblank with rfl | rfl <;> cases hstart
      · rintro rfl
        cases hstart
      · rintro rfl
        cases hstart
    exact ⟨c, rest ++ after, by rw [htext]; rfl, List.forall_mem_nil _, hc⟩

theorem Resumes.indentation {text : Text} (h : Resumes text) : Measure.indentation text = 0 := by
  by_cases hne : text = []
  · rw [hne]
    rfl
  · exact (h.startsSolid hne).indentation

theorem Resumes.blankLines {text : Text} (h : Resumes text) (count : Nat) :
    Measure.blankLines (List.replicate count '\n' ++ text) = count := by
  unfold Measure.blankLines
  rw [blankLinesFrom_replicate, Nat.zero_add]
  by_cases hne : text = []
  · rw [hne]
    rfl
  · exact (h.startsSolid hne).blankLinesFrom count 0

end Printed

namespace Scanner

open Printed

variable {s : Scanner} {indent : Indent} {line : Line} {after text : Text}

/-! ## Where a body starts -/

/-- A deeper line below a header opens a body. -/
theorem Ready.bodyStart_indent (ready : s.Ready) (hlevels : s.levels = [])
    (hrest : s.rest = indent.text ++ (line.text ++ '\n' :: after)) (hopens : line.Opens) :
    s.next .bodyStart =
      (s.mark .indent (some indent.text.length),
        { s with levels := [indent.text.length], firstBodyLine := true }) := by
  have hsolid := line.startsSolid_indent after indent
  rw [hopens.lead, List.append_nil, ← hrest] at hsolid
  have hblank : Measure.blankLines s.rest = 0 := hsolid.blankLinesFrom 0 0
  rw [ready.next_eq]
  simp [bodyStart, hblank, hsolid.indentation, hsolid.not_atLineEnd, top, hlevels, indent.pos]

/-- Empty lines below a header are passed over. -/
theorem Ready.bodyStart_blank (ready : s.Ready) {count : Nat}
    (hrest : s.rest = List.replicate (count + 1) '\n' ++ text) (hresumes : Resumes text) :
    s.next .bodyStart = s.emit .whitespace (count + 1) := by
  have hblank := hresumes.blankLines (count + 1)
  rw [← hrest] at hblank
  rw [ready.next_eq]
  simp only [bodyStart, hblank]

/-- What follows a declaration is a name, or nothing. -/
theorem Ready.next_resumes (ready : s.Ready) (hresumes : Resumes s.rest) :
    (s.next .normal).1.kind = .endOfInput ∨ (s.next .normal).1.kind = .identifier := by
  rcases hresumes with hrest | ⟨name, after, hrest, hafter⟩
  · left
    rw [ready.normal_eq, normal, hrest]
    rfl
  · right
    obtain ⟨flag, hnext⟩ := (cut_word name.toWord hafter).next s ready hrest
    rw [hnext]
    rfl

/-- A name below a header is read as at item level. -/
theorem Ready.bodyStart_resumes (ready : s.Ready) (hresumes : Resumes s.rest) :
    s.next .bodyStart = s.next .normal := by
  have hblank : Measure.blankLines s.rest = 0 := hresumes.blankLines 0
  rw [ready.next_eq, ready.next_eq]
  simp [bodyStart, hblank, hresumes.indentation]

/-! ## Lines of a body -/

theorem rest_isEmpty_eq_false (line : Line) (front after : Text) :
    (front ++ (line.text ++ '\n' :: after)).isEmpty = false := by
  cases front <;> cases line.text <;> rfl

/-- The indentation of a line, as deep as the body. -/
theorem Ready.body_indentation (ready : s.Ready) (hlevels : s.levels = [indent.text.length])
    (hstart : s.atLineStart = true)
    (hrest : s.rest = indent.text ++ (line.text ++ '\n' :: after)) :
    s.next .body =
      { s with lineContent := some (s.offset + indent.text.length) }.emit .whitespace
        indent.text.length := by
  have hsolid := line.startsSolid_indent after indent
  rw [← hrest] at hsolid
  have hsome : s.rest.isEmpty = false := by
    rw [hrest]
    exact rest_isEmpty_eq_false line indent.text after
  have hdeep : ¬(indent.text ++ line.lead).length < indent.text.length := by simp
  have htop : s.top = indent.text.length := by simp [top, hlevels]
  rw [ready.next_eq]
  simp only [body, hsome, hstart, hsolid.indentation, hsolid.not_atLineEnd, htop, hdeep, indent.pos,
    if_true, if_false, Bool.false_eq_true]

/-- The text of a line, up to its end. -/
theorem Ready.body_text (ready : s.Ready) (hstart : s.atLineStart = false)
    (hcontent : s.lineContent = some s.offset) (hrest : s.rest = line.text ++ '\n' :: after)
    (hfirst : s.firstBodyLine = true → ['#', '!'].isPrefixOf s.rest = false) :
    s.next .body =
      { s with lineContent := none, firstBodyLine := false }.emit .text line.text.length := by
  have hsome : s.rest.isEmpty = false := by
    rw [hrest]
    exact rest_isEmpty_eq_false line [] after
  have hshebang : (s.firstBodyLine && ['#', '!'].isPrefixOf s.rest) = false := by
    cases hflag : s.firstBodyLine with
    | false => rfl
    | true => rw [hfirst hflag, Bool.and_false]
  have hsign := line.linePrefix?_eq after
  have hline := line.newline?_eq after
  have hopens := line.not_opensInterpolation after
  have hrun := line.run_text after
  rw [← hrest] at hsign hline hopens hrun
  rw [ready.next_eq]
  simp only [body, bodyLine, bodyContent, hsome, hstart, hcontent, hshebang, hsign, hline, hopens,
    hrun, beq_self_eq_true, if_true, if_false, Bool.false_eq_true]

/-- A line break, after a line or on an empty one. -/
theorem Ready.body_newline (ready : s.Ready) (hrest : s.rest = '\n' :: after) :
    ∃ content first, (first = true → s.firstBodyLine = true) ∧
      s.next .body = { s with lineContent := content, firstBodyLine := first }.emit .newline 1 := by
  have hline : s.bodyLine = s.emit .newline 1 ∨
      s.bodyLine = { s with lineContent := none, firstBodyLine := false }.emit .newline 1 := by
    by_cases hcontent : (s.lineContent == some s.offset) = true
    · right
      simp [bodyLine, bodyContent, hcontent, hrest, Measure.linePrefix?, Measure.newline?,
        List.isPrefixOf]
    · left
      simp [bodyLine, bodyContent, hcontent, hrest, Measure.newline?]
  have hbody : s.next .body = s.bodyLine := by
    rw [ready.next_eq]
    simp [body, hrest, Measure.indentation, Measure.isBlank, Measure.atLineEnd, Measure.newline?]
  rw [hbody]
  rcases hline with hline | hline
  · exact ⟨s.lineContent, s.firstBodyLine, id, hline⟩
  · refine ⟨none, false, fun h => ?_, hline⟩
    cases h

/-- A body is closed where a name starts a line, and at the end of the file. -/
theorem Ready.body_dedent (ready : s.Ready) {width : Nat} (hpos : 0 < width)
    (hlevels : s.levels = [width]) (hstart : s.atLineStart = true) (hresumes : Resumes s.rest) :
    ∃ indent, s.next .body = (s.mark .dedent indent, { s with levels := [] }) := by
  rw [ready.next_eq]
  by_cases hne : s.rest = []
  · refine ⟨some 0, ?_⟩
    simp [body, hne, hlevels, dedent, mark, top]
  · have hsolid := hresumes.startsSolid hne
    have hsome : s.rest.isEmpty = false := List.isEmpty_eq_false_iff.2 hne
    refine ⟨some 0, ?_⟩
    have hend : Measure.atLineEnd s.rest = false := hsolid.not_atLineEnd
    simp [body, hsome, hstart, hsolid.indentation, hend, top, hlevels, hpos, dedentTo, dedent, mark,
      ready.pendingDedents]

end Scanner

end Justfile
