import Justfile.Proofs.Append.Scanner
import Justfile.Proofs.Stream

/-!
# Lines without an end

A line break can be stepped over like white space, if the line is continued behind a backslash. A text
dangles if all its line breaks are of this kind (`Measure.Dangles`): then a line that goes on there has no
end. A scanner in front of a dangling text never gives a line break, whatever the modes are: what it gives
is in front of a dangling text again, or is at fault (`Scanner.Dangling.next`).
-/

set_option autoImplicit false

namespace Justfile

namespace Measure

open Text (IsLines)

variable {text : Text}

/-- Whether the character has no part in what stands around it. -/
def isVoid (c : Char) : Bool :=
  c == ' ' || c == '\t' || c == '\r' || c == Scanner.byteOrderMark

/-- Nothing stands in the text but blanks and line breaks behind backslashes. -/
inductive Dangles : Text → Prop
  | nil : Dangles []
  | void {c : Char} {rest : Text} :
      isVoid c = true → newline? (c :: rest) = none → Dangles rest → Dangles (c :: rest)
  | continued {gap rest : Text} {size : Nat} :
      (∀ c ∈ gap, isBlank c = true) → newline? rest = some size → Dangles (rest.drop size) →
      Dangles ('\\' :: (gap ++ rest))

theorem isVoid_iff {c : Char} :
    isVoid c = true ↔ c = ' ' ∨ c = '\t' ∨ c = '\r' ∨ c = Scanner.byteOrderMark := by
  simp [isVoid, or_assoc]

theorem Dangles.newline?_eq (h : Dangles text) : newline? text = none := by
  cases h with
  | nil => rfl
  | void _ hline => exact hline
  | continued => rfl

theorem Dangles.head_cases (h : Dangles text) {c : Char} (hhead : text.head? = some c) :
    isVoid c = true ∨ c = '\\' := by
  cases h with
  | nil => cases hhead
  | void hvoid =>
    cases hhead
    exact .inl hvoid
  | continued =>
    cases hhead
    exact .inr rfl

/-- No word stands there that starts with another character. -/
theorem Dangles.isPrefixOf_eq (h : Dangles text) {c : Char} (hvoid : isVoid c = false) (hback : c ≠ '\\')
    (word : Text) : (c :: word).isPrefixOf text = false := by
  rw [Bool.eq_false_iff]
  intro hprefix
  obtain ⟨rest, rfl⟩ := List.isPrefixOf_iff_prefix.1 hprefix
  rcases h.head_cases rfl with hv | heq
  · rw [hvoid] at hv
    cases hv
  · exact hback heq

theorem Dangles.tail {c : Char} {rest : Text} (h : Dangles (c :: rest)) (hc : c ≠ '\\') :
    Dangles rest := by
  cases h with
  | void _ _ hrest => exact hrest
  | continued => exact absurd rfl hc

theorem Dangles.drop_blanks (h : Dangles text) : Dangles (text.drop (blanks text)) := by
  induction text using blanks.induct with
  | case1 rest ih => exact ih (h.tail (by decide))
  | case2 rest ih => exact ih (h.tail (by decide))
  | case3 rest => exact h
  | case4 rest hnot ih =>
    rw [blanks]
    · exact ih (h.tail (by decide))
    · exact hnot
  | case5 text hspace htab hfeed hreturn =>
    rw [blanks]
    · exact h
    all_goals assumption

theorem dangles_of_blanks (h : Dangles (text.drop (blanks text))) : Dangles text := by
  induction text using Measure.blanks.induct with
  | case1 rest ih => exact .void rfl rfl (ih h)
  | case2 rest ih => exact .void rfl rfl (ih h)
  | case3 rest => exact h
  | case4 rest hnot ih =>
    rw [blanks] at h
    · refine .void rfl ?_ (ih h)
      unfold newline?
      split
      · next heq => cases heq
      · next heq =>
        cases heq
        exact absurd rfl (hnot _)
      · rfl
    · exact hnot
  | case5 text hspace htab hfeed hreturn =>
    rw [blanks] at h
    · exact h
    all_goals assumption

theorem Dangles.line_pos (h : Dangles text) (hne : text ≠ []) : 0 < line text := by
  obtain ⟨c, rest, rfl⟩ := List.exists_cons_of_ne_nil hne
  exact Measure.line_pos h.newline?_eq

theorem Dangles.drop_indentation (h : Dangles text) {size : Nat} (hle : size ≤ indentation text) :
    Dangles (text.drop size) := by
  induction text generalizing size with
  | nil =>
    rw [List.drop_nil]
    exact h
  | cons c rest ih =>
    cases size with
    | zero => exact h
    | succ size =>
      unfold indentation at hle
      rw [List.takeWhile_cons] at hle
      split at hle
      · next hblank =>
        have hc : c ≠ '\\' := by
          rintro rfl
          cases hblank
        exact ih (h.tail hc) (Nat.le_of_succ_le_succ hle)
      · cases hle

/-! ## Continued lines -/

section Continued

variable {gap rest : Text} {size : Nat} (hgap : ∀ c ∈ gap, isBlank c = true)
  (hline : newline? rest = some size)
include hgap hline

theorem indentation_gap : indentation (gap ++ rest) = gap.length := by
  have hrest : rest.takeWhile isBlank = [] := by
    rcases rest with _ | ⟨c, rest⟩
    · rfl
    · rw [List.takeWhile_cons_of_neg]
      rw [Bool.not_eq_true, Bool.eq_false_iff]
      intro hblank
      rcases isBlank_iff.1 hblank with rfl | rfl <;> cases hline
  unfold indentation
  rw [List.takeWhile_append_of_pos hgap, hrest, List.append_nil]

theorem continuation?_gap :
    continuation? ('\\' :: (gap ++ rest)) = some (1 + gap.length + size) := by
  change (newline? ((gap ++ rest).drop (indentation (gap ++ rest)))).map
    (1 + indentation (gap ++ rest) + ·) = _
  rw [indentation_gap hgap hline, List.drop_left, hline]
  rfl

omit hgap hline in
theorem drop_gap : ('\\' :: (gap ++ rest)).drop (1 + gap.length + size) = rest.drop size := by
  rw [Nat.add_assoc, Nat.add_comm 1, List.drop_succ_cons, List.drop_append]
  simp

end Continued

/-- What a continued line is made of. -/
theorem exists_gap {size : Nat} (h : continuation? text = some size) :
    ∃ gap rest width, text = '\\' :: (gap ++ rest) ∧ (∀ c ∈ gap, isBlank c = true) ∧
      newline? rest = some width ∧ size = 1 + gap.length + width := by
  unfold continuation? at h
  split at h
  · next rest =>
    obtain ⟨width, hwidth, rfl⟩ := Option.map_eq_some_iff.1 h
    have hsplit := List.takeWhile_append_dropWhile (p := isBlank) (l := rest)
    have hdrop : rest.drop (indentation rest) = rest.dropWhile isBlank := by
      have hleft := @List.drop_left _ (rest.takeWhile isBlank) (rest.dropWhile isBlank)
      rw [hsplit] at hleft
      exact hleft
    rw [hdrop] at hwidth
    refine ⟨rest.takeWhile isBlank, rest.dropWhile isBlank, width, by rw [hsplit], ?_, hwidth, rfl⟩
    exact List.all_eq_true.1 List.all_takeWhile
  · cases h

theorem dangles_of_continuation? {size : Nat} (hsize : continuation? text = some size)
    (h : Dangles (text.drop size)) : Dangles text := by
  obtain ⟨gap, rest, width, rfl, hgap, hwidth, rfl⟩ := exists_gap hsize
  rw [drop_gap] at h
  exact .continued hgap hwidth h

/-! ## What is found in front of a dangling text -/

theorem Dangles.blankLinesFrom_eq (h : Dangles text) (hlines : IsLines text) (counted pending : Nat) :
    blankLinesFrom counted pending text = counted := by
  induction h generalizing pending with
  | nil => exact absurd rfl hlines.ne_nil
  | @void c rest hvoid hline _ ih =>
    rcases isVoid_iff.1 hvoid with rfl | rfl | rfl | rfl
    · exact ih (hlines.tail (by decide)) _
    · exact ih (hlines.tail (by decide)) _
    · -- A carriage return in front of a line feed would end the line.
      rw [blankLinesFrom]
      · exact List.cons_ne_nil _ _
      · intro more hmore
        cases hmore
      · intro more hmore
        cases hmore
      · intro more hmore
        cases hmore
      · intro more hmore
        cases hmore
        cases hline
    · rfl
  | continued => rfl

theorem Dangles.exists_continuation (h : Dangles ('\\' :: text)) :
    ∃ size, continuation? ('\\' :: text) = some size ∧ Dangles (('\\' :: text).drop size) := by
  cases h with
  | void hvoid => cases hvoid
  | continued hgap hline hrest =>
    refine ⟨_, continuation?_gap hgap hline, ?_⟩
    rw [drop_gap]
    exact hrest

/-- An escape sequence in front of a line break takes all of it. -/
theorem Dangles.drop_escape (h : Dangles text) {size : Nat} (hescape : escape? text = some size) :
    Dangles (text.drop size) := by
  cases h with
  | nil => cases hescape
  | @void c rest hvoid =>
    rcases isVoid_iff.1 hvoid with rfl | rfl | rfl | rfl <;> cases hescape
  | @continued gap rest width hgap hline hrest =>
    cases gap with
    | cons c gap =>
      rcases isBlank_iff.1 (hgap c List.mem_cons_self) with rfl | rfl <;> cases hescape
    | nil =>
      have hsize : size = 1 + width := by
        unfold newline? at hline
        split at hline <;> cases hline <;> cases hescape <;> rfl
      rw [hsize, Nat.add_comm, List.drop_succ_cons]
      exact hrest

theorem run_cons {unit? : Text → Option Nat} {c : Char} {rest : Text}
    (h : unit? (c :: rest) = some 1) : run unit? (c :: rest) = run unit? rest + 1 := by
  rw [run, runFrom, h]
  rfl

theorem run_units {unit? : Text → Option Nat} {front : Text} (back : Text)
    (h : ∀ c ∈ front, ∀ rest, unit? (c :: rest) = some 1) :
    run unit? (front ++ back) = front.length + run unit? back := by
  induction front with
  | nil => simp
  | cons c front ih =>
    have hone := h c List.mem_cons_self (front ++ back)
    have hrest := ih fun d hd => h d (List.mem_cons_of_mem _ hd)
    rw [List.cons_append, run_cons hone, hrest, List.length_cons]
    omega

/-- The contents of a literal stop in front of a backslash, if they stop at all. -/
theorem Dangles.drop_run (h : Dangles text) {unit? : Text → Option Nat}
    (hunit : ∀ c, isVoid c = true ∨ c = '\n' → ∀ rest, unit? (c :: rest) = some 1)
    (hback : ∀ rest, unit? ('\\' :: rest) = none ∨ unit? ('\\' :: rest) = some 1) :
    Dangles (text.drop (run unit? text)) := by
  induction h with
  | nil => exact .nil
  | @void c rest hvoid _ _ ih =>
    rw [run_cons (hunit c (.inl hvoid) rest), List.drop_succ_cons]
    exact ih
  | @continued gap rest size hgap hline hrest ih =>
    rcases hback (gap ++ rest) with hnone | hone
    · rw [run_of_none hnone]
      exact .continued hgap hline hrest
    · have hbreak : ∀ c ∈ gap ++ rest.take size, isVoid c = true ∨ c = '\n' := by
        intro c hc
        rcases List.mem_append.1 hc with hc | hc
        · rcases isBlank_iff.1 (hgap c hc) with rfl | rfl <;> exact .inl rfl
        · unfold newline? at hline
          split at hline <;> cases hline
          all_goals simp at hc
          · exact .inr hc
          · rcases hc with rfl | rfl
            · exact .inl rfl
            · exact .inr rfl
      have hsplit : gap ++ rest = (gap ++ rest.take size) ++ rest.drop size := by
        rw [List.append_assoc, List.take_append_drop]
      have hrun := run_units (rest.drop size) fun c hc => hunit c (hbreak c hc)
      rw [run_cons hone, List.drop_succ_cons, hsplit, hrun, List.drop_append]
      rw [List.drop_of_length_le (Nat.le_add_right _ _), List.nil_append, Nat.add_sub_cancel_left]
      exact ih

theorem bodyUnit?_of_isVoid {c : Char} (hc : isVoid c = true) {rest : Text}
    (hline : newline? (c :: rest) = none) : bodyUnit? (c :: rest) = some 1 := by
  rcases isVoid_iff.1 hc with rfl | rfl | rfl | rfl <;> simp [bodyUnit?, hline] <;> rfl

theorem bodyUnit?_gap {gap rest : Text} {size : Nat} (hgap : ∀ c ∈ gap, isBlank c = true)
    (hline : newline? rest = some size) :
    bodyUnit? ('\\' :: (gap ++ rest)) = some (1 + gap.length + size) := by
  have hhead : ∀ c ∈ (gap ++ rest).head?, c ≠ '\\' := by
    rintro c hc rfl
    cases gap with
    | cons d gap =>
      cases hc
      cases hgap _ List.mem_cons_self
    | nil =>
      obtain ⟨more, rfl⟩ := List.head?_eq_some_iff.1 hc
      cases hline
  have hcount : (('\\' :: (gap ++ rest)).takeWhile (· == '\\')).length = 1 := by
    cases hmore : gap ++ rest with
    | nil => rfl
    | cons c more =>
      have hc : c ≠ '\\' := hhead c (by rw [hmore]; rfl)
      simp [hc]
  have hbackslashes : backslashes ('\\' :: (gap ++ rest)) = 1 + gap.length + size := by
    unfold backslashes
    dsimp only
    rw [hcount, if_pos rfl, List.drop_zero, continuation?_gap hgap hline]
    exact Nat.zero_add _
  unfold bodyUnit?
  rw [hbackslashes]
  rfl

/-- Text of a body goes on to the end. -/
theorem Dangles.drop_run_body (h : Dangles text) : Dangles (text.drop (run bodyUnit? text)) := by
  induction h with
  | nil => exact .nil
  | @void c rest hvoid hline _ ih =>
    rw [run_cons (bodyUnit?_of_isVoid hvoid hline), List.drop_succ_cons]
    exact ih
  | @continued gap rest size hgap hline _ ih =>
    have hunit := bodyUnit?_gap hgap hline
    have hsplit : '\\' :: (gap ++ rest) = ('\\' :: (gap ++ rest.take size)) ++ rest.drop size := by
      rw [List.cons_append, List.append_assoc, List.take_append_drop]
    have hlength : ('\\' :: (gap ++ rest.take size)).length = 1 + gap.length + size := by
      rw [List.length_cons, List.length_append, List.length_take, Nat.min_eq_left (newline?_le hline)]
      omega
    rw [← hlength, hsplit] at hunit
    rw [hsplit, run_append (List.cons_ne_nil _ _) hunit, List.drop_append,
      List.drop_of_length_le (Nat.le_add_right _ _), List.nil_append, Nat.add_sub_cancel_left]
    exact ih

theorem Dangles.opensInterpolation_eq (h : Dangles text) : opensInterpolation text = false := by
  unfold opensInterpolation
  rw [doubleBrace_eq, h.isPrefixOf_eq rfl (by decide) _]
  rfl

theorem stringUnit?_plain (d : Dialect) (c : Char) (hc : isVoid c = true ∨ c = '\n') (rest : Text) :
    stringUnit? d (c :: rest) = some 1 := by
  obtain ⟨letter, quote, indented⟩ := d
  unfold stringUnit?
  rw [escapedBraces_eq, doubleBrace_eq, isVoid_iff] at *
  rcases hc with (rfl | rfl | rfl | rfl) | rfl <;> cases quote <;> cases indented <;>
    simp [Dialect.closing, Quote.char, List.replicate, List.isPrefixOf, Scanner.byteOrderMark]

theorem stringUnit?_backslash (d : Dialect) (rest : Text) :
    stringUnit? d ('\\' :: rest) = none ∨ stringUnit? d ('\\' :: rest) = some 1 := by
  have hclosing : d.closing.isPrefixOf ('\\' :: rest) = false := by
    obtain ⟨letter, quote, indented⟩ := d
    cases quote <;> cases indented <;> rfl
  have hbraces : escapedBraces ('\\' :: rest) = false := rfl
  have hbrace : doubleBrace ('\\' :: rest) = false := rfl
  unfold stringUnit?
  rw [hclosing, hbraces, hbrace]
  simp only [Bool.false_eq_true, if_false, Bool.and_false]
  split
  · split
    · exact .inl rfl
    · exact .inr rfl
  · exact .inr rfl

theorem commandUnit?_plain (indented : Bool) {c : Char} (hc : isVoid c = true ∨ c = '\n' ∨ c = '\\')
    (rest : Text) : commandUnit? indented (c :: rest) = some 1 := by
  unfold commandUnit?
  rw [escapedBraces_eq, doubleBrace_eq, isVoid_iff] at *
  rcases hc with (rfl | rfl | rfl | rfl) | rfl | rfl <;> cases indented <;>
    simp [commandDelimiter, List.replicate, List.isPrefixOf, Scanner.byteOrderMark]

end Measure

/-! ## Scanning -/

namespace Scanner

open Text (IsLines)
open Justfile.Measure

variable {s : Scanner}

/-- Nothing is cut off in front of a dangling text. -/
structure Dangling (s : Scanner) : Prop where
  queued : s.queued = []
  rest : Dangles s.rest

/-- The token is at fault, or it is no line break and the text behind it dangles. -/
def Trails (s : Scanner) (out : Token × Scanner) : Prop :=
  out.1.kind.isErrorRecovery = true ∨
    (out.2.Dangling ∧ out.1.kind ≠ .newline ∧ (out.1.kind.isLevel = true → out.2.rest = s.rest))

theorem trails_emit {t : Scanner} (h : t.queued = []) {kind : Token.Kind} {size : Nat}
    (hrest : Dangles (t.rest.drop size)) (hkind : kind ≠ .newline) (hlevel : kind.isLevel = false) :
    s.Trails (t.emit kind size) := by
  refine .inr ⟨⟨h, hrest⟩, hkind, fun htrue => ?_⟩
  rw [show (t.emit kind size).1.kind = kind from rfl, hlevel] at htrue
  cases htrue

theorem trails_fault {t : Scanner} (fault : Fault) (size : Nat) :
    s.Trails (t.emit (.errorRecovery fault) size) := .inl rfl

theorem Dangling.trails_normalToken (h : s.Dangling) {c : Char} {rest : Text}
    (hrest : s.rest = c :: rest) : s.Trails (s.normalToken c) := by
  have hdangles := h.rest
  have hblanks := hdangles.drop_blanks
  rcases hdangles.head_cases (by rw [hrest]; rfl) with hvoid | rfl
  · rcases isVoid_iff.1 hvoid with rfl | rfl | rfl | rfl
    · exact trails_emit h.queued hblanks nofun rfl
    · exact trails_emit h.queued hblanks nofun rfl
    · exact trails_emit h.queued hblanks nofun rfl
    · unfold normalToken
      rw [hrest]
      exact trails_fault _ _
  · obtain ⟨size, hsize, hbehind⟩ := (hrest ▸ hdangles).exists_continuation
    rw [← hrest] at hsize hbehind
    unfold normalToken
    rw [hsize]
    exact trails_emit h.queued hbehind nofun rfl

theorem Dangling.trails_normal (h : s.Dangling) : s.Trails s.normal := by
  have hsigns := h.rest.isPrefixOf_eq (c := '#') rfl (by decide) ['!']
  have hline := h.rest.newline?_eq
  unfold normal
  split
  · exact .inr ⟨h, nofun, nofun⟩
  · next c rest hrest =>
    rw [hrest] at hsigns hline
    rw [hsigns, Bool.and_false, hline]
    exact h.trails_normalToken hrest

theorem Dangling.trails_bodyStart (h : s.Dangling) (hlines : IsLines s.rest) :
    s.Trails s.bodyStart := by
  unfold bodyStart
  rw [show blankLines s.rest = 0 from h.rest.blankLinesFrom_eq hlines 0 0]
  dsimp only
  split
  · exact .inr ⟨⟨h.queued, h.rest⟩, nofun, fun _ => rfl⟩
  · exact h.trails_normal

theorem Dangling.trails_bodyLine (h : s.Dangling) {t : Scanner} (hqueued : t.queued = [])
    (hrest : t.rest = s.rest) : s.Trails t.bodyLine := by
  have hsigns := h.rest.isPrefixOf_eq (c := '#') rfl (by decide) ['!']
  have hprefix : linePrefix? s.rest = none := by
    unfold linePrefix?
    split
    all_goals first
      | rfl
      | next heq => rcases h.rest.head_cases (by rw [heq]; rfl) with hhead | hhead <;> cases hhead
  have hcontent : ∀ u : Scanner, u.queued = [] → u.rest = s.rest → s.Trails u.bodyContent := by
    intro u hqueued' hrest'
    unfold bodyContent
    rw [hrest', h.rest.newline?_eq, h.rest.opensInterpolation_eq]
    exact trails_emit hqueued' (hrest' ▸ h.rest.drop_run_body) nofun rfl
  unfold bodyLine
  dsimp only
  rw [hrest, hsigns, Bool.and_false, hprefix]
  split
  · exact hcontent _ hqueued rfl
  · exact hcontent _ hqueued hrest

theorem Dangling.trails_body (h : s.Dangling) : s.Trails s.body := by
  unfold body
  split
  · split
    · exact .inr ⟨h, nofun, nofun⟩
    · exact .inr ⟨⟨h.queued, h.rest⟩, nofun, fun _ => rfl⟩
  · dsimp only
    split
    · split
      · split
        · exact trails_emit h.queued (h.rest.drop_indentation (Nat.le_refl _)) nofun rfl
        · exact h.trails_bodyLine h.queued rfl
      · split
        · exact .inr ⟨⟨h.queued, h.rest⟩, nofun, fun _ => rfl⟩
        · next hwide =>
          split
          · exact trails_emit (t := { s with lineContent := some (s.offset + s.top) }) h.queued
              (h.rest.drop_indentation (Nat.le_of_not_lt hwide)) nofun rfl
          · exact h.trails_bodyLine h.queued rfl
    · exact h.trails_bodyLine h.queued rfl

theorem Dangling.trails_unterminated (h : s.Dangling) (fault : Fault) :
    s.Trails (s.unterminated fault) := by
  unfold unterminated
  split
  · exact .inr ⟨h, nofun, nofun⟩
  · exact trails_fault _ _

theorem Dangling.trails_content (h : s.Dangling) {kind : Token.Kind} (fault : Fault)
    {unit? : Text → Option Nat} (hrest : Dangles (s.rest.drop (run unit? s.rest)))
    (hkind : kind ≠ .newline) (hlevel : kind.isLevel = false) :
    s.Trails (s.content kind fault unit?) := by
  unfold content
  dsimp only
  split
  · exact h.trails_unterminated fault
  · exact trails_emit h.queued hrest hkind hlevel

theorem Dangling.trails_stringContent (h : s.Dangling) (d : Dialect) :
    s.Trails (s.stringContent d) := by
  have hquote : isVoid d.quote.char = false ∧ d.quote.char ≠ '\\' := by
    cases d.quote <;> decide
  have hclosing : d.closing.isPrefixOf s.rest = false := by
    unfold Dialect.closing
    cases d.indented <;> exact h.rest.isPrefixOf_eq hquote.1 hquote.2 _
  have hrun := h.rest.drop_run (stringUnit?_plain d) (stringUnit?_backslash d)
  unfold stringContent
  rw [hclosing, h.rest.opensInterpolation_eq, Bool.and_false]
  simp only [Bool.false_eq_true, if_false]
  split
  · exact h.trails_unterminated _
  · split
    · next size hescape =>
      split at hescape
      · exact trails_emit h.queued (h.rest.drop_escape hescape) nofun rfl
      · cases hescape
    · exact h.trails_content _ hrun nofun rfl

theorem Dangling.trails_commandContent (h : s.Dangling) (indented : Bool) :
    s.Trails (s.commandContent indented) := by
  have hclosing : (commandDelimiter indented).isPrefixOf s.rest = false := by
    cases indented <;> exact h.rest.isPrefixOf_eq rfl (by decide) _
  have hrun : Dangles (s.rest.drop (run (commandUnit? indented) s.rest)) := h.rest.drop_run
    (fun c hc rest => commandUnit?_plain indented (hc.elim .inl (.inr ∘ .inl)) rest)
    fun rest => .inr (commandUnit?_plain indented (.inr (.inr rfl)) rest)
  unfold commandContent
  dsimp only
  rw [hclosing, h.rest.opensInterpolation_eq]
  simp only [Bool.false_eq_true, if_false]
  split
  · exact h.trails_unterminated _
  · exact h.trails_content _ hrun nofun rfl

/-- A scanner in front of a dangling text gives no line break. -/
theorem Dangling.next (h : s.Dangling) (fed : s.Fed) (mode : Mode) : s.Trails (s.next mode) := by
  rcases s.ahead_cases with ⟨kind, size, queued, hqueued⟩ | ⟨-, hbase⟩ | ⟨-, hbase, count, hpending⟩ |
    ⟨-, hbase, hpending, fault, hfault⟩ | ready
  · rw [h.queued] at hqueued
    cases hqueued
  · rw [next_of_lt_base h.queued hbase]
    obtain ⟨rest, hrest⟩ := List.head?_eq_some_iff.1 (fed.mark hbase)
    have hdangles := h.rest
    refine trails_emit h.queued ?_ nofun rfl
    rw [hrest] at hdangles ⊢
    exact hdangles.tail (by decide)
  · rw [next_of_pendingDedents h.queued hbase hpending]
    exact .inr ⟨⟨h.queued, h.rest⟩, nofun, fun _ => rfl⟩
  · rw [next_of_pendingFault h.queued hbase hpending hfault]
    exact trails_fault _ _
  · rw [ready.next_eq]
    cases mode with
    | normal => exact h.trails_normal
    | bodyStart =>
      by_cases hrest : s.rest = []
      · have hend : s.bodyStart = s.normal := by
          unfold bodyStart
          rw [hrest]
          rfl
        exact hend ▸ h.trails_normal
      · exact h.trails_bodyStart (fed.isLines hrest)
    | body => exact h.trails_body
    | stringContent d => exact h.trails_stringContent d
    | commandContent indented => exact h.trails_commandContent indented

/-! ## Lines that are stepped over -/

/-- No line ends right behind the rest of a line and dangles. -/
theorem not_dangles_drop_line (fed : s.Fed) (hne : s.rest ≠ []) :
    ¬Dangles (s.rest.drop (line s.rest)) := by
  intro h
  have hlt := line_lt (fed.isLines hne)
  have hpos := h.line_pos (by simpa using hlt)
  have hdrop := @line_drop s.rest (line s.rest) (Nat.le_refl _)
  omega

theorem dangles_of_normalToken (fed : s.Fed) {c : Char} {rest : Text} (hrest : s.rest = c :: rest)
    (htrivia : (s.normalToken c).1.kind.isTrivia = true) (h : Dangles (s.normalToken c).2.rest) :
    Dangles s.rest := by
  have hne : s.rest ≠ [] := by simp [hrest]
  revert htrivia h
  unfold normalToken
  split
  · exact fun _ h => dangles_of_blanks h
  · split
    · exact fun _ h => absurd h (not_dangles_drop_line fed hne)
    · split
      · split
        · next hsize => exact fun _ h => dangles_of_continuation? hsize h
        · intro htrivia
          cases htrivia
      · split
        · intro htrivia
          cases htrivia
        · dsimp only
          repeat' split
          all_goals
            intro htrivia
            cases htrivia

/-- White space at item level in front of a dangling text has no line break in it. -/
theorem dangling_of_next (fed : s.Fed) (htrivia : (s.next .normal).1.kind.isTrivia = true)
    (h : (s.next .normal).2.Dangling) : s.Dangling := by
  obtain ⟨hnone, h⟩ := h
  rcases s.ahead_cases with ⟨kind, size, queued, hqueued⟩ | ⟨hqueued, hbase⟩ |
    ⟨hqueued, hbase, count, hpending⟩ | ⟨hqueued, hbase, hpending, fault, hfault⟩ | ready
  · -- The piece is the rest of a line, and so the line ends behind it.
    have hne := (ne_nil_of_queued fed.wellFormed hqueued).1
    have htotal := fed.queued (by rw [hqueued]; exact List.cons_ne_nil _ _)
    rw [next_of_queued hqueued] at hnone h
    change queued = [] at hnone
    rw [hqueued, hnone, Interpreter.total, Interpreter.total, Nat.add_zero] at htotal
    change Dangles (s.rest.drop size) at h
    rw [show size = line s.rest from htotal] at h
    exact absurd h (not_dangles_drop_line fed hne)
  · refine ⟨hqueued, ?_⟩
    obtain ⟨rest, hrest⟩ := List.head?_eq_some_iff.1 (fed.mark hbase)
    rw [next_of_lt_base hqueued hbase] at h
    change Dangles (s.rest.drop 1) at h
    rw [hrest] at h ⊢
    exact .void rfl rfl h
  · rw [next_of_pendingDedents hqueued hbase hpending] at htrivia
    cases htrivia
  · rw [next_of_pendingFault hqueued hbase hpending hfault] at htrivia
    cases htrivia
  · refine ⟨ready.queued, ?_⟩
    rw [ready.next_eq] at htrivia h
    dsimp only at htrivia h
    revert htrivia h
    unfold normal
    split
    · intro htrivia
      cases htrivia
    · next c rest hrest =>
      split
      · intro htrivia
        cases htrivia
      · split
        · intro htrivia
          cases htrivia
        · exact fun htrivia h => dangles_of_normalToken fed hrest htrivia h

theorem dangling_of_rest (wf : s.WellFormed) (hrest : s.rest = []) : s.Dangling := by
  refine ⟨?_, hrest ▸ .nil⟩
  cases hqueued : s.queued with
  | nil => rfl
  | cons piece queued => exact absurd hrest (ne_nil_of_queued wf hqueued).1

/-- Where white space at item level goes on to the end, the text dangles. -/
theorem Run.dangling {t : Scanner} {tokens : List Token} (run : Run .normal s tokens t) (fed : s.Fed)
    (htrivia : ∀ token ∈ tokens, token.kind.isTrivia = true) (hrest : t.rest = []) : s.Dangling := by
  induction run with
  | nil s => exact dangling_of_rest fed.wellFormed hrest
  | @cons s t tokens _ ih =>
    have hlater := ih (fed.next .normal) (fun token hmem => htrivia token (List.mem_cons_of_mem _ hmem))
      hrest
    exact dangling_of_next fed (htrivia _ List.mem_cons_self) hlater

end Scanner

end Justfile
