import Justfile.Proofs.Scanner.Delimiter

/-!
# What is read up to a break

Most measures see no further than the first space, tab or line feed: what they find at the front of a
text they also find when the text is cut off in front of such a character (`StopsAt`). To such a measure
a break is like the end of the text.
-/

set_option autoImplicit false

namespace Justfile

namespace Measure

/-- A space, a tab or a line feed. -/
def isBreak (c : Char) : Bool := isBlank c || c == '\n'

theorem isBreak_iff {c : Char} : isBreak c = true ↔ c = ' ' ∨ c = '\t' ∨ c = '\n' := by
  simp [isBreak, isBlank, or_assoc]

theorem isBreak_of_isBlank {c : Char} (h : isBlank c = true) : isBreak c = true := by
  simp [isBreak, h]

/-- A character of the class, and what stands behind it, have no part in what is found in front of
it. -/
def StopsAt {α : Type} (p : Char → Bool) (f : Text → α) : Prop :=
  ∀ ⦃c : Char⦄, p c = true → ∀ front tail, f (front ++ c :: tail) = f front

/-- The blank and what stands behind it have no part in what is found in front of it. -/
abbrev StopsAtBlank {α : Type} (f : Text → α) : Prop := StopsAt isBlank f

section Composition

variable {α β : Type} {p : Char → Bool} {f : Text → α} {g : Text → β}

theorem StopsAt.map (h : StopsAt p f) (m : α → β) : StopsAt p fun text => m (f text) := by
  intro c hc front tail
  dsimp only
  rw [h hc]

theorem StopsAt.pair (hf : StopsAt p f) (hg : StopsAt p g) :
    StopsAt p fun text => (f text, g text) := by
  intro c hc front tail
  dsimp only
  rw [hf hc, hg hc]

theorem StopsAt.blank (h : StopsAt isBreak f) : StopsAtBlank f :=
  fun _ hc => h (isBreak_of_isBlank hc)

end Composition

/-! ## Words and fronts -/

section Words

variable {p : Char → Bool}

/-- A word without characters of the class lies in front of the first of them. -/
theorem isPrefixOf_stops {word : Text} (hword : word.any p = false) :
    StopsAt p word.isPrefixOf := by
  intro stop hstop front tail
  induction word generalizing front with
  | nil => simp
  | cons c word ih =>
    rw [List.any_cons, Bool.or_eq_false_iff] at hword
    have hmore := ih hword.2
    cases front with
    | nil =>
      have hc : c ≠ stop := by
        rintro rfl
        rw [hword.1] at hstop
        cases hstop
      simp [List.isPrefixOf, hc]
    | cons d front => simp [List.isPrefixOf, hmore front]

theorem takeWhile_stops {q : Char → Bool} (hq : ∀ c, p c = true → q c = false) :
    StopsAt p fun text => text.takeWhile q := by
  intro stop hstop front tail
  induction front with
  | nil => simp [hq stop hstop]
  | cons c front ih =>
    dsimp only at ih
    simp only [List.cons_append, List.takeWhile_cons, ih]

/-- The first character, as far as it is none of the class. -/
theorem head?_stops {c : Char} (hc : p c = false) :
    StopsAt p fun text => text.head? == some c := by
  intro stop hstop front tail
  cases front with
  | nil =>
    have hne : stop ≠ c := by
      rintro rfl
      rw [hc] at hstop
      cases hstop
    simp [hne]
  | cons d front => rfl

end Words

/-! ## Lines -/

/-- A line break is told in front of a blank. -/
theorem newline?_stops : StopsAtBlank newline? := by
  intro blank hblank front tail
  rcases front with _ | ⟨c, _ | ⟨d, front⟩⟩
  · rcases isBlank_iff.1 hblank with rfl | rfl <;> rfl
  · by_cases hreturn : c = '\r'
    · subst hreturn
      rcases isBlank_iff.1 hblank with rfl | rfl <;> rfl
    · by_cases hfeed : c = '\n'
      · subst hfeed
        rfl
      · simp [newline?, hfeed, hreturn]
  · by_cases hreturn : c = '\r'
    · subst hreturn
      by_cases hfeed : d = '\n'
      · subst hfeed
        rfl
      · simp [newline?, hfeed]
    · by_cases hfeed : c = '\n'
      · subst hfeed
        rfl
      · simp [newline?, hfeed, hreturn]

theorem newline?_le {text : Text} {size : Nat} (h : newline? text = some size) :
    size ≤ text.length := by
  unfold newline? at h
  split at h <;> cases h <;> simp

/-! ## Names and numbers -/

theorem word_stops : StopsAtBlank word :=
  (takeWhile_stops (q := (!isBlank ·)) fun c hc => by simp [hc]).map List.length

/-- An identifier ends in front of a break. -/
theorem identifier_stops : StopsAt isBreak identifier := by
  intro stop hstop front tail
  cases front with
  | nil =>
    have hstart : startsIdentifier stop = false := by
      rcases isBreak_iff.1 hstop with rfl | rfl | rfl <;> decide
    simp [identifier, hstart]
  | cons c front =>
    have hnone : ∀ c, isBreak c = true → continuesIdentifier c = false := by
      intro c hc
      rcases isBreak_iff.1 hc with rfl | rfl | rfl <;> rfl
    have hrest := takeWhile_stops hnone hstop front tail
    simp only at hrest
    simp only [List.cons_append, identifier, hrest]

/-- The characters of a name, too. -/
theorem take_identifier_stops : StopsAt isBreak fun text => text.take (identifier text) := by
  intro stop hstop front tail
  dsimp only
  rw [identifier_stops hstop, List.take_append_of_le_length (identifier_le front)]

theorem digits_stops : StopsAt isBreak digits := by
  refine (takeWhile_stops (q := Char.isDigit) fun c hc => ?_).map List.length
  rcases isBreak_iff.1 hc with rfl | rfl | rfl <;> rfl

theorem digits_le (text : Text) : digits text ≤ text.length :=
  (List.takeWhile_sublist _).length_le

/-- A number ends in front of a break, whether it has a point or not. -/
theorem number_stops : StopsAt isBreak number := by
  intro stop hstop front tail
  unfold number
  dsimp only
  rw [digits_stops hstop, List.drop_append_of_le_length (digits_le front)]
  cases front.drop (digits front) with
  | nil => rcases isBreak_iff.1 hstop with rfl | rfl | rfl <;> rfl
  | cons c rest =>
    rw [List.cons_append]
    by_cases hpoint : c = '.'
    · subst hpoint
      simp only [digits_stops hstop rest tail]
    · simp [hpoint]

theorem number_le (text : Text) : number text ≤ text.length := by
  have hwhole := digits_le text
  have hrest := List.length_drop (l := text) (i := digits text)
  unfold number
  dsimp only
  split
  · next rest heq =>
    have hmore := digits_le rest
    rw [heq, List.length_cons] at hrest
    omega
  · exact hwhole

/-! ## Pieces of literals and bodies -/

/-- An escape is told in front of a blank. -/
theorem escape?_stops : StopsAtBlank escape? := by
  intro blank hblank front tail
  rcases front with _ | ⟨c, _ | ⟨d, front⟩⟩
  · rcases isBlank_iff.1 hblank with rfl | rfl <;> rfl
  · by_cases hback : c = '\\'
    · subst hback
      rcases isBlank_iff.1 hblank with rfl | rfl <;> rfl
    · simp [escape?, hback]
  · by_cases hreturn : d = '\r'
    · subst hreturn
      rcases front with _ | ⟨e, front⟩
      · by_cases hback : c = '\\'
        · subst hback
          rcases isBlank_iff.1 hblank with rfl | rfl <;> rfl
        · simp [escape?, hback]
      · exact escape?_return ..
    · exact escape?_congr hreturn ..

theorem escape?_le {text : Text} {size : Nat} (h : escape? text = some size) :
    size ≤ text.length := by
  unfold escape? at h
  split at h <;> cases h <;> simp

/-- The signs in front of a line end in front of a break. -/
theorem linePrefix?_stops : StopsAt isBreak linePrefix? := by
  intro stop hstop front tail
  rcases front with _ | ⟨c, _ | ⟨d, front⟩⟩
  · rcases isBreak_iff.1 hstop with rfl | rfl | rfl <;> rfl
  · by_cases hat : c = '@'
    · subst hat
      rcases isBreak_iff.1 hstop with rfl | rfl | rfl <;> rfl
    · by_cases hminus : c = '-'
      · subst hminus
        rcases isBreak_iff.1 hstop with rfl | rfl | rfl <;> rfl
      · simp [linePrefix?, hat, hminus]
  · exact linePrefix?_congr ..

theorem linePrefix?_le {text : Text} {size : Nat} (h : linePrefix? text = some size) :
    size ≤ text.length := by
  unfold linePrefix? at h
  split at h <;> cases h <;> simp

theorem escapedBraces_stops : StopsAt isBreak escapedBraces := by
  rw [funext escapedBraces_eq]
  exact isPrefixOf_stops (by decide)

theorem doubleBrace_stops : StopsAt isBreak doubleBrace := by
  rw [funext doubleBrace_eq]
  exact isPrefixOf_stops (by decide)

/-- The braces of an interpolation are told in front of a break. -/
theorem opensInterpolation_stops : StopsAt isBreak opensInterpolation :=
  (doubleBrace_stops.pair escapedBraces_stops).map fun braces => braces.1 && !braces.2

theorem any_commandDelimiter (indented : Bool) :
    (commandDelimiter indented).any isBreak = false := by
  cases indented <;> decide

theorem isBlank_commandDelimiter (indented : Bool) :
    (commandDelimiter indented).any isBlank = false := by
  cases indented <;> decide

end Measure

open Justfile.Measure

/-! ## Marks and strings -/

/-- No mark holds a break, so marks are told in front of one. -/
theorem Mark.detect?_stops : StopsAt isBreak Mark.detect? := by
  intro stop hstop front tail
  rcases front with _ | ⟨c, _ | ⟨d, front⟩⟩
  · rcases isBreak_iff.1 hstop with rfl | rfl | rfl <;> rfl
  · cases hpair : startsPair c with
    | false => exact detect?_of_not_startsPair hpair _ _
    | true =>
      simp only [startsPair, Bool.or_eq_true, beq_iff_eq] at hpair
      rcases hpair with ((rfl | rfl) | rfl) | rfl <;>
        rcases isBreak_iff.1 hstop with rfl | rfl | rfl <;> rfl
  · exact detect?_congr ..

theorem Mark.length_le {text : Text} {sign : Mark} (h : detect? text = some sign) :
    sign.length ≤ text.length := by
  unfold detect? at h
  split at h <;> cases h <;> simp [Mark.length]

namespace Dialect

theorem any_closing (d : Dialect) : d.closing.any isBreak = false := by
  obtain ⟨letter, quote, indented⟩ := d
  cases letter <;> cases quote <;> cases indented <;> decide

theorem isBlank_opening (d : Dialect) : d.opening.any isBlank = false := by
  obtain ⟨letter, quote, indented⟩ := d
  cases letter <;> cases quote <;> cases indented <;> decide

theorem isBlank_closing (d : Dialect) : d.closing.any isBlank = false := by
  obtain ⟨letter, quote, indented⟩ := d
  cases letter <;> cases quote <;> cases indented <;> decide

theorem ofQuotes?_stops (letter : Letter) : StopsAt isBreak (ofQuotes? letter) := by
  intro stop hstop front tail
  apply Option.ext
  intro d
  have hthree : (List.replicate 3 d.quote.char).any isBreak = false := by
    cases d.quote <;> decide
  rw [ofQuotes?_iff, ofQuotes?_iff, isPrefixOf_stops d.any_closing hstop,
    isPrefixOf_stops hthree hstop]

/-- No opening of a string holds a break, so strings are told in front of one. -/
theorem detect?_stops : StopsAt isBreak detect? := by
  intro stop hstop front tail
  cases front with
  | nil => rcases isBreak_iff.1 hstop with rfl | rfl | rfl <;> rfl
  | cons c front =>
    have hplain := ofQuotes?_stops .plain hstop (c :: front) tail
    by_cases hshell : c = 'x'
    · subst hshell
      exact ofQuotes?_stops .shell hstop front tail
    · by_cases hformat : c = 'f'
      · subst hformat
        exact ofQuotes?_stops .format hstop front tail
      · simpa [detect?, hshell, hformat] using hplain

theorem opening_length_le {text : Text} {d : Dialect} (h : detect? text = some d) :
    d.opening.length ≤ text.length :=
  (List.isPrefixOf_iff_prefix.1 (isPrefixOf_of_detect? h)).length_le

end Dialect

end Justfile
