import Justfile.Proofs.Scanner.Cut

/-!
# Measures of joined texts

What a measure finds at the front of a text that ends with a line feed, it also finds when another text
follows (`Sealed`). Two measures see further. A run of units that reaches the end of the text goes on
behind it, so runs that stop before are compared only. And blank lines go on with those of the second
text, unless an item starts there (`StartsItem`).
-/

set_option autoImplicit false

namespace Justfile

/-! ## Texts that end with a line -/

namespace Text

/-- The text ends with a line feed. -/
def IsLines (text : Text) : Prop := text.getLast? = some '\n'

variable {text : Text}

/-- A text ends with a line feed if its rest does, or if there is nothing else. -/
theorem isLines_cons {c : Char} {rest : Text} :
    IsLines (c :: rest) ↔ (rest = [] ∧ c = '\n') ∨ (rest ≠ [] ∧ IsLines rest) := by
  cases rest <;> simp [IsLines]

theorem IsLines.tail {c : Char} {rest : Text} (h : IsLines (c :: rest)) (hc : c ≠ '\n') :
    IsLines rest :=
  ((isLines_cons.1 h).resolve_left fun hlast => hc hlast.2).2

theorem IsLines.ne_nil (h : IsLines text) : text ≠ [] := by
  rintro rfl
  cases h

/-- The line feed can be cut off. -/
theorem IsLines.exists_front (h : IsLines text) : ∃ front, text = front ++ ['\n'] :=
  List.getLast?_eq_some_iff.1 h

theorem IsLines.drop (h : IsLines text) {size : Nat} (hlt : size < text.length) :
    IsLines (text.drop size) := by
  unfold IsLines
  rw [List.getLast?_drop, if_neg (Nat.not_le.2 hlt)]
  exact h

end Text

namespace Measure

open Text (IsLines isLines_cons)

variable {α β : Type} {text : Text}

/-- Behind a text that ends with a line feed, nothing has a part in what is found at its front. -/
def Sealed (f : Text → α) : Prop :=
  ∀ ⦃text : Text⦄, IsLines text → ∀ more, f (text ++ more) = f text

/-- A measure that stops at line breaks sees nothing behind one. -/
theorem StopsAt.sealed {f : Text → α} (h : StopsAt isBreak f) : Sealed f := by
  intro text hlines more
  obtain ⟨front, rfl⟩ := hlines.exists_front
  rw [List.append_assoc, List.singleton_append, h rfl, h rfl]

theorem Sealed.map {f : Text → α} (h : Sealed f) (m : α → β) : Sealed fun text => m (f text) := by
  intro text hlines more
  dsimp only
  rw [h hlines]

/-! ## Lines and blanks -/

/-- A line break is found by its first characters. -/
theorem newline?_sealed : Sealed newline? := by
  intro text hlines more
  rcases text with _ | ⟨c, _ | ⟨d, rest⟩⟩
  · exact absurd rfl hlines.ne_nil
  · obtain ⟨-, rfl⟩ | ⟨hne, -⟩ := isLines_cons.1 hlines
    · rfl
    · exact absurd rfl hne
  · by_cases hreturn : c = '\r'
    · subst hreturn
      by_cases hfeed : d = '\n'
      · subst hfeed
        rfl
      · simp [newline?, hfeed]
    · by_cases hfeed : c = '\n'
      · subst hfeed
        rfl
      · simp [newline?, hfeed, hreturn]

/-- The length of the first line does not depend on what follows the last. -/
theorem line_sealed : Sealed line := by
  intro text hlines more
  induction text with
  | nil => exact absurd rfl hlines.ne_nil
  | cons c rest ih =>
    have hline := newline?_sealed hlines more
    rw [List.cons_append] at hline
    rw [List.cons_append, line, line, hline]
    obtain ⟨rfl, rfl⟩ | ⟨-, hrest⟩ := isLines_cons.1 hlines
    · rfl
    · rw [ih hrest]

theorem line_lt (h : IsLines text) : line text < text.length := by
  induction text with
  | nil => exact absurd rfl h.ne_nil
  | cons c rest ih =>
    rw [line, List.length_cons]
    split
    · exact Nat.succ_pos _
    · obtain ⟨rfl, rfl⟩ | ⟨-, hrest⟩ := isLines_cons.1 h
      · next hline => exact absurd rfl hline
      · exact Nat.succ_lt_succ (ih hrest)

/-- What is left of the line, behind some of its characters. -/
theorem line_drop {size : Nat} (h : size ≤ line text) : line (text.drop size) + size = line text := by
  induction text generalizing size with
  | nil =>
    obtain rfl := Nat.le_zero.1 h
    rfl
  | cons c rest ih =>
    cases size with
    | zero => rfl
    | succ size =>
      rw [line] at h ⊢
      split at h
      · cases h
      · next hline =>
        rw [if_neg hline, List.drop_succ_cons, ← ih (Nat.le_of_succ_le_succ h)]
        rfl

/-- What is taken up to a line feed is taken from the first text alone. -/
theorem takeWhile_sealed {p : Char → Bool} (hp : p '\n' = false) :
    Sealed fun text => text.takeWhile p := by
  intro text hlines more
  obtain ⟨front, rfl⟩ := hlines.exists_front
  have hstops := takeWhile_stops (p := (· == '\n')) (q := p) fun c hc => (beq_iff_eq.1 hc) ▸ hp
  rw [List.append_assoc, List.singleton_append]
  exact (hstops rfl front more).trans (hstops rfl front []).symm

/-- The indentation of the first line does not depend on what follows the last. -/
theorem indentation_sealed : Sealed indentation := (takeWhile_sealed rfl).map List.length

/-- What stops at line feeds stops before the last one. -/
theorem takeWhile_lt {p : Char → Bool} (hp : p '\n' = false) (h : IsLines text) :
    (text.takeWhile p).length < text.length := by
  obtain ⟨front, rfl⟩ := h.exists_front
  induction front with
  | nil => simp [hp]
  | cons c front ih =>
    have hfront := ih (by simp [IsLines])
    rw [List.cons_append, List.takeWhile_cons]
    split
    · simpa using hfront
    · simp

theorem indentation_lt (h : IsLines text) : indentation text < text.length := takeWhile_lt rfl h

/-- A line ends in the joined text where it ends in the first text. -/
theorem atLineEnd_append (h : IsLines text) (more : Text) : atLineEnd (text ++ more) = atLineEnd text := by
  obtain ⟨c, rest, rfl⟩ := List.exists_cons_of_ne_nil h.ne_nil
  have hline := newline?_sealed h more
  unfold atLineEnd
  rw [hline]
  rfl

/-- Blanks stop at a line break, and a return is one only in front of a line feed. -/
theorem blanks_sealed : Sealed blanks := by
  intro text hlines more
  induction text using blanks.induct with
  | case1 rest ih => simp only [List.cons_append, blanks, ih (hlines.tail (by decide))]
  | case2 rest ih => simp only [List.cons_append, blanks, ih (hlines.tail (by decide))]
  | case3 rest => rfl
  | case4 rest hnot ih =>
    have hrest := hlines.tail (by decide)
    obtain ⟨d, rest, rfl⟩ := List.exists_cons_of_ne_nil hrest.ne_nil
    have hstep : ∀ tail, blanks ('\r' :: d :: tail) = blanks (d :: tail) + 1 := by
      intro tail
      rw [blanks]
      rintro _ ⟨⟩
      exact hnot rest rfl
    rw [List.cons_append, List.cons_append, hstep, hstep, ← List.cons_append, ih hrest]
  | case5 text hspace htab hfeed hreturn =>
    obtain ⟨c, rest, rfl⟩ := List.exists_cons_of_ne_nil hlines.ne_nil
    have hc : c ≠ ' ' := fun h => hspace rest (by rw [h])
    have hc' : c ≠ '\t' := fun h => htab rest (by rw [h])
    have hc'' : c ≠ '\r' := fun h => hreturn rest (by rw [h])
    simp [blanks, hc, hc', hc'']

theorem blanks_le (text : Text) : blanks text ≤ text.length := by
  induction text using blanks.induct with
  | case1 rest ih => simpa [blanks] using ih
  | case2 rest ih => simpa [blanks] using ih
  | case3 rest => exact Nat.zero_le _
  | case4 rest hnot ih =>
    rw [blanks, List.length_cons]
    · exact Nat.succ_le_succ ih
    · exact hnot
  | case5 text hspace htab hfeed hreturn =>
    rw [blanks]
    · exact Nat.zero_le _
    all_goals assumption

/-- A continued line is told by its line break, which the first text has. -/
theorem continuation?_sealed : Sealed continuation? := by
  intro text hlines more
  rcases text with _ | ⟨c, rest⟩
  · exact absurd rfl hlines.ne_nil
  by_cases hback : c = '\\'
  · subst hback
    obtain ⟨-, h⟩ | ⟨-, hrest⟩ := isLines_cons.1 hlines
    · cases h
    · have hlt := indentation_lt hrest
      simp only [List.cons_append, continuation?, indentation_sealed hrest]
      rw [List.drop_append_of_le_length (Nat.le_of_lt hlt), newline?_sealed (hrest.drop hlt)]
  · simp [continuation?, hback]

theorem continuation?_le {size : Nat} (h : continuation? text = some size) : size ≤ text.length := by
  unfold continuation? at h
  split at h
  · next rest =>
    obtain ⟨width, hwidth, rfl⟩ := Option.map_eq_some_iff.1 h
    have hle := newline?_le hwidth
    have hindentation := indentation_le rest
    rw [List.length_drop] at hle
    rw [List.length_cons]
    omega
  · cases h

/-! ## Blank lines -/

/-- Whether an item can start with the character. -/
def startsItem (c : Char) : Bool := startsIdentifier c || c == '@' || c == '['

/-- An item can start with the first character of the text. -/
def StartsItem (text : Text) : Prop := ∃ c ∈ text.head?, startsItem c = true

/-- An item starts with a character of its own. -/
theorem StartsItem.exists_cons (h : StartsItem text) :
    ∃ c rest, text = c :: rest ∧ startsItem c = true := by
  obtain ⟨c, hhead, hc⟩ := h
  obtain ⟨rest, rfl⟩ := List.head?_eq_some_iff.1 hhead
  exact ⟨c, rest, rfl, hc⟩

theorem ne_of_startsItem {c d : Char} (hc : startsItem c = true) (hd : startsItem d = false) :
    c ≠ d := by
  rintro rfl
  rw [hc] at hd
  cases hd

/-- An item does not start with a line break. -/
theorem newline?_of_startsItem (h : StartsItem text) : newline? text = none := by
  obtain ⟨c, rest, rfl, hc⟩ := h.exists_cons
  have hfeed : c ≠ '\n' := ne_of_startsItem hc (by decide)
  have hreturn : c ≠ '\r' := ne_of_startsItem hc (by decide)
  simp [newline?, hfeed, hreturn]

/-- An item is not indented. -/
theorem indentation_of_startsItem (h : StartsItem text) : indentation text = 0 := by
  obtain ⟨c, rest, rfl, hc⟩ := h.exists_cons
  have hspace : c ≠ ' ' := ne_of_startsItem hc (by decide)
  have htab : c ≠ '\t' := ne_of_startsItem hc (by decide)
  simp [indentation, isBlank, hspace, htab]

/-- Blank lines end where an item starts. -/
theorem blankLinesFrom_of_startsItem (h : StartsItem text) (counted pending : Nat) :
    blankLinesFrom counted pending text = counted := by
  obtain ⟨c, rest, rfl, hc⟩ := h.exists_cons
  have hspace : c ≠ ' ' := ne_of_startsItem hc (by decide)
  have htab : c ≠ '\t' := ne_of_startsItem hc (by decide)
  have hfeed : c ≠ '\n' := ne_of_startsItem hc (by decide)
  have hreturn : c ≠ '\r' := ne_of_startsItem hc (by decide)
  simp [blankLinesFrom, hspace, htab, hfeed, hreturn]

/-- Blank lines at the end of the first text are not joined with anything, if an item follows. -/
theorem blankLinesFrom_append {more : Text} (hmore : StartsItem more) (counted pending : Nat)
    (h : IsLines text) :
    blankLinesFrom counted pending (text ++ more) = blankLinesFrom counted pending text := by
  induction counted, pending, text using blankLinesFrom.induct with
  | case1 => exact absurd rfl h.ne_nil
  | case2 counted pending rest ih =>
    simpa only [List.cons_append, blankLinesFrom] using ih (h.tail (by decide))
  | case3 counted pending rest ih =>
    simpa only [List.cons_append, blankLinesFrom] using ih (h.tail (by decide))
  | case4 counted pending rest ih =>
    obtain ⟨rfl, -⟩ | ⟨-, hrest⟩ := isLines_cons.1 h
    · exact blankLinesFrom_of_startsItem hmore _ _
    · simpa only [List.cons_append, blankLinesFrom] using ih hrest
  | case5 counted pending rest ih =>
    obtain ⟨rfl, -⟩ | ⟨-, hrest⟩ := isLines_cons.1 (h.tail (by decide))
    · exact blankLinesFrom_of_startsItem hmore _ _
    · simpa only [List.cons_append, blankLinesFrom] using ih hrest
  | case6 text counted pending hnil hspace htab hfeed hreturn =>
    obtain ⟨c, rest, rfl⟩ := List.exists_cons_of_ne_nil h.ne_nil
    have hc : c ≠ ' ' := fun h => hspace rest (by rw [h])
    have hc' : c ≠ '\t' := fun h => htab rest (by rw [h])
    have hc'' : c ≠ '\n' := fun h => hfeed rest (by rw [h])
    by_cases hcr : c = '\r'
    · subst hcr
      obtain ⟨d, tail, rfl⟩ := List.exists_cons_of_ne_nil (h.tail (by decide)).ne_nil
      have hd : d ≠ '\n' := fun h => hreturn tail (by rw [h])
      simp [blankLinesFrom, hd]
    · simp [blankLinesFrom, hc, hc', hc'', hcr]

/-- **Blank lines in front of an item are counted in the first text alone.** -/
theorem blankLines_append {more : Text} (hmore : StartsItem more) (h : IsLines text) :
    blankLines (text ++ more) = blankLines text :=
  blankLinesFrom_append hmore 0 0 h

theorem blankLinesFrom_le (counted pending : Nat) (text : Text) :
    blankLinesFrom counted pending text ≤ counted + pending + text.length := by
  induction counted, pending, text using blankLinesFrom.induct with
  | case1 => exact Nat.le_refl _
  | case6 =>
    rw [blankLinesFrom]
    · omega
    all_goals assumption
  | _ =>
    rw [blankLinesFrom]
    simp only [List.length_cons]
    omega

theorem blankLines_le (text : Text) : blankLines text ≤ text.length :=
  Nat.le_trans (blankLinesFrom_le 0 0 text) (by omega)

/-! ## Pieces of literals and bodies -/

/-- An escape is told within its line. -/
theorem escape?_sealed : Sealed escape? := by
  intro text hlines more
  rcases text with _ | ⟨c, rest⟩
  · exact absurd rfl hlines.ne_nil
  by_cases hback : c = '\\'
  · subst hback
    have hrest := hlines.tail (by decide)
    obtain ⟨d, rest, rfl⟩ := List.exists_cons_of_ne_nil hrest.ne_nil
    by_cases hreturn : d = '\r'
    · subst hreturn
      obtain ⟨e, rest, rfl⟩ := List.exists_cons_of_ne_nil (hrest.tail (by decide)).ne_nil
      exact escape?_return ..
    · exact escape?_congr hreturn ..
  · simp [escape?, hback]

/-- A run of backslashes ends within its line. -/
theorem backslashes_sealed : Sealed backslashes := by
  intro text hlines more
  have hcount := takeWhile_sealed (p := (· == '\\')) rfl hlines more
  have hlt := takeWhile_lt (p := (· == '\\')) rfl hlines
  have hbehind : (text.takeWhile (· == '\\')).length - 1 < text.length := by omega
  unfold backslashes
  dsimp only at hcount ⊢
  rw [hcount, List.drop_append_of_le_length (Nat.le_of_lt hbehind),
    continuation?_sealed (hlines.drop hbehind)]

/-- Whether a character stands in front is seen in the first text, unless it is a line break. -/
theorem head?_sealed {c : Char} (hc : isBreak c = false) : Sealed fun text => text.head? == some c :=
  (head?_stops hc).sealed

/-- Whether a word stands in front is seen in the first text, if it holds no line break. -/
theorem isPrefixOf_sealed {word : Text} (hword : word.any isBreak = false) :
    Sealed word.isPrefixOf :=
  (isPrefixOf_stops hword).sealed

theorem signs_sealed : Sealed ['#', '!'].isPrefixOf := isPrefixOf_sealed (by decide)

/-- A unit of a string is read from the first text alone, in every dialect. -/
theorem stringUnit?_sealed (d : Dialect) : Sealed (stringUnit? d) := by
  intro text hlines more
  have hhead := head?_sealed (c := '\\') rfl hlines more
  dsimp only at hhead
  unfold stringUnit?
  rw [isPrefixOf_sealed d.any_closing hlines, hhead, escape?_sealed hlines,
    escapedBraces_stops.sealed hlines, doubleBrace_stops.sealed hlines]

/-- A unit of a command is read from the first text alone. -/
theorem commandUnit?_sealed (indented : Bool) : Sealed (commandUnit? indented) := by
  intro text hlines more
  unfold commandUnit?
  rw [isPrefixOf_sealed (any_commandDelimiter indented) hlines,
    escapedBraces_stops.sealed hlines, doubleBrace_stops.sealed hlines]

/-- A unit of a body is read from the first text alone. -/
theorem bodyUnit?_sealed : Sealed bodyUnit? := by
  intro text hlines more
  have hhead := head?_sealed (c := '\\') rfl hlines more
  dsimp only at hhead
  unfold bodyUnit?
  rw [newline?_sealed hlines, escapedBraces_stops.sealed hlines, doubleBrace_stops.sealed hlines,
    hhead, backslashes_sealed hlines]

theorem length_of_opensInterpolation (h : opensInterpolation text = true) : 2 ≤ text.length := by
  unfold opensInterpolation at h
  rw [doubleBrace_eq, Bool.and_eq_true] at h
  exact (List.isPrefixOf_iff_prefix.1 h.1).length_le

theorem length_le_of_isPrefixOf {word : Text} (h : word.isPrefixOf text = true) :
    word.length ≤ text.length :=
  (List.isPrefixOf_iff_prefix.1 h).length_le

/-! ## Runs -/

/-- A run that stops before the end of the text is the same when more follows. -/
theorem runFrom_append_of_lt {unit? : Text → Option Nat} (hunit : Sealed unit?) (skip : Nat)
    (hlines : IsLines text) (hlt : runFrom unit? skip text < text.length) (more : Text) :
    runFrom unit? skip (text ++ more) = runFrom unit? skip text := by
  induction skip, text using runFrom.induct unit? with
  | case1 => exact absurd rfl hlines.ne_nil
  | case2 skip c rest ih =>
    obtain ⟨rfl, -⟩ | ⟨-, hrest⟩ := isLines_cons.1 hlines
    · exact absurd hlt (Nat.lt_irrefl _)
    · rw [runFrom, List.length_cons] at hlt
      rw [List.cons_append, runFrom, runFrom, ih hrest (Nat.lt_of_succ_lt_succ hlt)]
  | case3 c rest hnone =>
    have hsame := hunit hlines more
    rw [hnone, List.cons_append] at hsame
    simp only [List.cons_append, runFrom, hsame, hnone]
  | case4 c rest size hsome ih =>
    have hsame := hunit hlines more
    rw [hsome, List.cons_append] at hsame
    simp only [runFrom, hsome, List.length_cons] at hlt
    obtain ⟨rfl, -⟩ | ⟨-, hrest⟩ := isLines_cons.1 hlines
    · simp [runFrom] at hlt
    · simp only [List.cons_append, runFrom, hsame, hsome, ih hrest (Nat.lt_of_succ_lt_succ hlt)]

/-- A run of units that ends within the first text ends there in the joined text, too. -/
theorem run_append_of_lt {unit? : Text → Option Nat} (hunit : Sealed unit?) (hlines : IsLines text)
    (hlt : run unit? text < text.length) (more : Text) :
    run unit? (text ++ more) = run unit? text :=
  runFrom_append_of_lt hunit 0 hlines hlt more

end Measure

end Justfile
