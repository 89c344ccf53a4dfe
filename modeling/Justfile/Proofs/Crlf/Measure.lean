import Justfile.Proofs.Crlf.Text
import Justfile.Proofs.Scanner.Delimiter

/-!
# Measures of the two texts

What each measure finds in a text without carriage returns and in the text with one in front of every
line feed. A measure that holds no line break finds the same number of characters; one that reaches
over line breaks finds the stretch that became of it.
-/

set_option autoImplicit false

namespace Justfile.Measure

open Text

variable {text rest : Text} {c : Char} {size : Nat}

/-! ## Lines -/

/-- A line break of one text is that of the other, one character longer. -/
theorem newline?_crlf (h : '\r' ∉ text) :
    newline? (crlf text) = (newline? text).map (stretch text) := by
  rcases plain_cases h with rfl | ⟨rest, rfl, -⟩ | ⟨c, rest, rfl, hc, hreturn, -⟩
  · rfl
  · rfl
  · rw [crlf_cons hc]
    simp [newline?, hc, hreturn]

@[simp] theorem isSome_newline?_crlf (h : '\r' ∉ text) :
    (newline? (crlf text)).isSome = (newline? text).isSome := by
  rw [newline?_crlf h, Option.isSome_map]

/-- Lines end at the same places. -/
theorem atLineEnd_crlf (h : '\r' ∉ text) : atLineEnd (crlf text) = atLineEnd text := by
  unfold atLineEnd
  rw [isEmpty_crlf, isSome_newline?_crlf h]

theorem newline?_cons (hc : c ≠ '\n') (hreturn : c ≠ '\r') (rest : Text) :
    newline? (c :: rest) = none := by
  simp [newline?, hc, hreturn]

theorem line_cons (hc : c ≠ '\n') (hreturn : c ≠ '\r') (rest : Text) :
    line (c :: rest) = line rest + 1 := by
  simp [line, newline?_cons hc hreturn]

/-- Lines have the same length, since their line breaks are not counted. -/
theorem line_crlf (h : '\r' ∉ text) : line (crlf text) = line text := by
  induction text with
  | nil => rfl
  | cons c rest ih =>
    rcases plain_cases h with hnil | ⟨rest', heq, -⟩ | ⟨d, rest', heq, hc, hreturn, hrest⟩
    · cases hnil
    · cases heq
      rfl
    · cases heq
      rw [crlf_cons hc, line_cons hc hreturn, line_cons hc hreturn, ih hrest]

/-- A line ends in front of its line break. -/
theorem not_mem_take_line (text : Text) : '\n' ∉ text.take (line text) := by
  induction text with
  | nil => simp
  | cons c rest ih =>
    unfold line
    split
    · simp
    · next hline =>
      rw [List.take_succ_cons]
      intro hmem
      rcases List.mem_cons.1 hmem with rfl | hmem
      · exact hline rfl
      · exact ih hmem

theorem stretch_line (text : Text) : stretch text (line text) = line text :=
  stretch_of_not_mem (not_mem_take_line text) (line_le text)

/-! ## Blanks -/

theorem isBlank_newline : isBlank '\n' = false := rfl

theorem isBlank_return : isBlank '\r' = false := rfl

/-- Lines are indented alike. -/
theorem indentation_crlf (text : Text) : indentation (crlf text) = indentation text := by
  unfold indentation
  rw [takeWhile_crlf isBlank_newline isBlank_return]

theorem stretch_indentation (text : Text) : stretch text (indentation text) = indentation text :=
  stretch_takeWhile isBlank_newline text

theorem not_mem_take_of_le_indentation (h : size ≤ indentation text) : '\n' ∉ text.take size := by
  intro hmem
  apply not_mem_takeWhile isBlank_newline text
  rw [List.prefix_iff_eq_take.1 (List.takeWhile_prefix isBlank)]
  exact List.take_subset_take_left text h hmem

theorem stretch_of_le_indentation (h : size ≤ indentation text) : stretch text size = size :=
  stretch_of_not_mem (not_mem_take_of_le_indentation h)
    (Nat.le_trans h (List.takeWhile_sublist isBlank).length_le)

/-- What stands behind the indentation corresponds again. -/
theorem drop_indentation_crlf (text : Text) :
    (crlf text).drop (indentation (crlf text)) = crlf (text.drop (indentation text)) := by
  rw [indentation_crlf, ← drop_crlf, stretch_indentation]

/-- Without returns, blanks are an indentation. -/
theorem blanks_eq_indentation (h : '\r' ∉ text) : blanks text = indentation text := by
  induction text with
  | nil => rfl
  | cons c rest ih =>
    rcases plain_cases h with hnil | ⟨rest', heq, -⟩ | ⟨d, rest', heq, hc, hreturn, hrest⟩
    · cases hnil
    · cases heq
      rfl
    · cases heq
      by_cases hspace : c = ' '
      · subst hspace
        simpa [blanks, indentation, isBlank] using ih hrest
      · by_cases htab : c = '\t'
        · subst htab
          simpa [blanks, indentation, isBlank] using ih hrest
        · simp [blanks, indentation, isBlank, hspace, htab, hreturn]

/-- Blanks are the same, since a return in front of a line feed is none. -/
theorem blanks_crlf (h : '\r' ∉ text) : blanks (crlf text) = blanks text := by
  induction text with
  | nil => rfl
  | cons c rest ih =>
    rcases plain_cases h with hnil | ⟨rest', heq, -⟩ | ⟨d, rest', heq, hc, hreturn, hrest⟩
    · cases hnil
    · cases heq
      rfl
    · cases heq
      rw [crlf_cons hc]
      by_cases hspace : c = ' '
      · subst hspace
        simp [blanks, ih hrest]
      · by_cases htab : c = '\t'
        · subst htab
          simp [blanks, ih hrest]
        · simp [blanks, hspace, htab, hreturn]

theorem stretch_blanks (h : '\r' ∉ text) : stretch text (blanks text) = blanks text := by
  rw [blanks_eq_indentation h, stretch_indentation]

/-- Blank lines, behind those that are counted and the blanks that wait for a line break. -/
theorem blankLinesFrom_crlf (front waiting : Text) (hwaiting : '\n' ∉ waiting) (h : '\r' ∉ text) :
    blankLinesFrom (crlf front).length waiting.length (crlf text) =
      stretch (front ++ waiting ++ text) (blankLinesFrom front.length waiting.length text) := by
  have hcounted : ∀ front back : Text, stretch (front ++ back) front.length = (crlf front).length :=
    fun front back => by simp [stretch]
  induction text generalizing front waiting with
  | nil =>
    have hall := hcounted (front ++ waiting) []
    rw [List.length_append, crlf_append, crlf_of_not_mem hwaiting, List.length_append] at hall
    exact hall.symm
  | cons c rest ih =>
    rcases plain_cases h with hnil | ⟨rest', heq, hrest⟩ | ⟨d, rest', heq, hc, hreturn, hrest⟩
    · cases hnil
    · -- The line break and the blanks in front of it are counted.
      cases heq
      have hmore := ih (front ++ waiting ++ ['\n']) [] (by simp) hrest
      simp only [crlf_append, crlf_of_not_mem hwaiting, List.length_append, List.append_nil,
        List.append_assoc, List.singleton_append, List.length_nil] at hmore
      simpa [blankLinesFrom, Nat.add_assoc] using hmore
    · cases heq
      have hblank : ∀ blank, blank ≠ '\n' → blankLinesFrom (crlf front).length
          (waiting.length + 1) (crlf rest) = stretch (front ++ waiting ++ blank :: rest)
            (blankLinesFrom front.length (waiting.length + 1) rest) := by
        intro blank hblank
        have hmore := ih front (waiting ++ [blank])
          (by simp [hwaiting, hblank.symm]) hrest
        simpa using hmore
      rw [crlf_cons hc]
      by_cases hspace : c = ' '
      · subst hspace
        exact hblank ' ' (by decide)
      · by_cases htab : c = '\t'
        · subst htab
          exact hblank '\t' (by decide)
        · have hother : ∀ counted pending rest,
              blankLinesFrom counted pending (c :: rest) = counted := by
            intro counted pending rest
            simp [blankLinesFrom, hspace, htab, hc, hreturn]
          rw [hother, hother, List.append_assoc, hcounted]

/-- Blank lines reach over line breaks, so there is a return more for each of them. -/
theorem blankLines_crlf (h : '\r' ∉ text) :
    blankLines (crlf text) = stretch text (blankLines text) :=
  blankLinesFrom_crlf [] [] (by simp) h

/-- A continued line is continued in both texts, over one character more. -/
theorem continuation?_crlf (h : '\r' ∉ text) :
    continuation? (crlf text) = (continuation? text).map (stretch text) := by
  rcases plain_cases h with rfl | ⟨rest, rfl, -⟩ | ⟨c, rest, rfl, hc, -, hrest⟩
  · rfl
  · rfl
  · rw [crlf_cons hc]
    by_cases hback : c = '\\'
    · subst hback
      simp only [continuation?]
      rw [drop_indentation_crlf, newline?_crlf (not_mem_drop hrest _), indentation_crlf,
        Option.map_map, Option.map_map]
      congr 1
      funext size
      have hsize : 1 + indentation rest + size = indentation rest + size + 1 := by omega
      simp only [Function.comp_apply]
      rw [hsize, stretch_cons hc, stretch_add, stretch_indentation]
      omega
    · simp [continuation?, hback]

/-! ## Names and numbers -/

/-- Identifiers hold no line breaks, so they are the same. -/
theorem identifier_crlf (text : Text) : identifier (crlf text) = identifier text := by
  cases text with
  | nil => rfl
  | cons c rest =>
    by_cases hc : c = '\n'
    · subst hc
      rfl
    · rw [crlf_cons hc, identifier, identifier, takeWhile_crlf rfl rfl]

theorem not_mem_take_identifier (text : Text) : '\n' ∉ text.take (identifier text) := by
  cases text with
  | nil => simp
  | cons c rest =>
    rw [identifier]
    split
    · next hstart =>
      rw [List.take_succ_cons, ← List.prefix_iff_eq_take.1 (List.takeWhile_prefix _)]
      intro hmem
      rcases List.mem_cons.1 hmem with rfl | hmem
      · cases hstart
      · exact not_mem_takeWhile rfl rest hmem
    · simp

theorem stretch_identifier (text : Text) : stretch text (identifier text) = identifier text := by
  cases text with
  | nil => rfl
  | cons c rest =>
    rw [identifier]
    split
    · next hstart =>
      have hc : c ≠ '\n' := by
        rintro rfl
        cases hstart
      rw [stretch_cons hc, stretch_takeWhile rfl]
    · rfl

theorem digits_crlf (text : Text) : digits (crlf text) = digits text := by
  unfold digits
  rw [takeWhile_crlf rfl rfl]

theorem stretch_digits (text : Text) : stretch text (digits text) = digits text :=
  stretch_takeWhile rfl text

/-- Numbers are the same. -/
theorem number_crlf (text : Text) : number (crlf text) = number text := by
  have hdrop : (crlf text).drop (digits text) = crlf (text.drop (digits text)) := by
    rw [← drop_crlf, stretch_digits]
  unfold number
  dsimp only
  rw [digits_crlf, hdrop]
  cases text.drop (digits text) with
  | nil => rfl
  | cons c rest =>
    by_cases hc : c = '\n'
    · subst hc
      rfl
    · rw [crlf_cons hc]
      by_cases hpoint : c = '.'
      · subst hpoint
        simp only [digits_crlf]
      · simp [hpoint]

theorem stretch_number (text : Text) : stretch text (number text) = number text := by
  unfold number
  dsimp only
  split
  · next rest heq =>
    rw [Nat.add_assoc, stretch_add, stretch_digits, heq, Nat.add_comm 1,
      stretch_cons (by decide), stretch_digits]
  · exact stretch_digits text

/-! ## Pieces of literals and bodies -/

/-- An escape is the same, since none of them holds a line break. -/
theorem escape?_crlf (h : '\r' ∉ text) :
    escape? (crlf text) = (escape? text).map (stretch text) := by
  rcases plain_cases h with rfl | ⟨rest, rfl, -⟩ | ⟨c, rest, rfl, hc, -, hrest⟩
  · rfl
  · rfl
  · rw [crlf_cons hc]
    by_cases hback : c = '\\'
    · subst hback
      rcases plain_cases hrest with rfl | ⟨rest, rfl, -⟩ | ⟨d, rest, rfl, hd, hreturn, -⟩
      · rfl
      · rfl
      · have htwo : stretch ('\\' :: d :: rest) 2 = 2 := by
          rw [stretch_cons (by decide), stretch_cons hd, stretch_zero]
        rw [crlf_cons hd]
        by_cases hescapes : d ∈ ['n', 'r', 't', '"', '\\']
        · simp only [List.mem_cons, List.not_mem_nil, or_false] at hescapes
          rcases hescapes with rfl | rfl | rfl | rfl | rfl
          all_goals simp [escape?, htwo]
        · simp only [List.mem_cons, List.not_mem_nil, or_false, not_or] at hescapes
          obtain ⟨hn, hr, ht, hquote, hback⟩ := hescapes
          simp [escape?, hn, hr, ht, hquote, hback, hd, hreturn]
    · simp [escape?, hback]

/-- The signs in front of a line of a body are the same. -/
theorem linePrefix?_crlf (text : Text) : linePrefix? (crlf text) = linePrefix? text := by
  rcases text with _ | ⟨c, rest⟩
  · rfl
  by_cases hc : c = '\n'
  · subst hc
    rfl
  rw [crlf_cons hc]
  rcases rest with _ | ⟨d, rest⟩
  · rfl
  by_cases hd : d = '\n'
  · subst hd
    by_cases hat : c = '@'
    · subst hat
      rfl
    · by_cases hminus : c = '-'
      · subst hminus
        rfl
      · simp [linePrefix?, hat, hminus]
  · rw [crlf_cons hd]
    exact linePrefix?_congr ..

/-- Signs in front of a body line are no line breaks. -/
theorem stretch_linePrefix? (h : linePrefix? text = some size) : stretch text size = size := by
  unfold linePrefix? at h
  split at h
  all_goals
    cases h
  all_goals rfl

/-- Escaped braces are seen in both texts. -/
theorem escapedBraces_crlf (h : '\r' ∉ text) : escapedBraces (crlf text) = escapedBraces text := by
  rw [escapedBraces_eq, escapedBraces_eq, isPrefixOf_crlf (by decide) h]

/-- Double braces are seen in both texts. -/
theorem doubleBrace_crlf (h : '\r' ∉ text) : doubleBrace (crlf text) = doubleBrace text := by
  rw [doubleBrace_eq, doubleBrace_eq, isPrefixOf_crlf (by decide) h]

/-- An interpolation opens in both texts. -/
theorem opensInterpolation_crlf (h : '\r' ∉ text) :
    opensInterpolation (crlf text) = opensInterpolation text := by
  unfold opensInterpolation
  rw [escapedBraces_crlf h, doubleBrace_crlf h]

/-- A word without line breaks at the front has its size in both texts. -/
theorem stretch_of_isPrefixOf {word : Text} (hword : '\n' ∉ word)
    (h : word.isPrefixOf text = true) : stretch text word.length = word.length := by
  obtain ⟨rest, rfl⟩ := List.isPrefixOf_iff_prefix.1 h
  apply stretch_of_not_mem
  · rw [List.take_left' rfl]
    exact hword
  · simp

theorem stretch_opensInterpolation (h : opensInterpolation text = true) : stretch text 2 = 2 := by
  have hdouble := (Bool.and_eq_true_iff.1 h).1
  rw [doubleBrace_eq] at hdouble
  exact stretch_of_isPrefixOf (by decide) hdouble

/-! ## Runs -/

/-- The unit reads the two texts alike: it finds the stretch that became of what it found. At a line
break it takes each character of the break for itself, or refuses. -/
structure ReadsAlike (unit? : Text → Option Nat) (answer : Option Nat) : Prop where
  other : ∀ {c : Char} {rest : Text}, c ≠ '\n' → '\r' ∉ c :: rest →
    unit? (crlf (c :: rest)) = (unit? (c :: rest)).map (stretch (c :: rest))
  feed : ∀ rest : Text, unit? ('\n' :: rest) = answer
  pair : ∀ rest : Text, unit? ('\r' :: '\n' :: rest) = answer
  answer_eq : answer = none ∨ answer = some 1

/-- What has been skipped in one text corresponds to what has been skipped in the other. -/
theorem runFrom_crlf {unit? : Text → Option Nat} {answer : Option Nat}
    (alike : ReadsAlike unit? answer) (h : '\r' ∉ text) (skip : Nat) :
    runFrom unit? (stretch text skip) (crlf text) = stretch text (runFrom unit? skip text) := by
  induction text generalizing skip with
  | nil => cases skip <;> rfl
  | cons c rest ih =>
    rcases plain_cases h with hnil | ⟨rest', heq, hrest⟩ | ⟨d, rest', heq, hc, -, hrest⟩
    · cases hnil
    · -- A line feed and the two characters in its place end a run alike, or are one unit of it.
      cases heq
      cases skip with
      | succ skip =>
        have hmore := ih hrest skip
        simp only [crlf_newline, stretch_newline, runFrom]
        rw [hmore]
      | zero =>
        have hmore := ih hrest 0
        rw [stretch_zero] at hmore
        rcases alike.answer_eq with rfl | rfl
        · simp only [crlf_newline, stretch_zero, runFrom, alike.feed, alike.pair]
        · simp only [crlf_newline, stretch_zero, runFrom, alike.feed, alike.pair, Nat.sub_self,
            stretch_newline]
          rw [hmore]
    · cases heq
      cases skip with
      | succ skip =>
        have hmore := ih hrest skip
        rw [stretch_cons hc, crlf_cons hc]
        simp only [runFrom]
        rw [stretch_cons hc, hmore]
      | zero =>
        have hunit := alike.other hc h
        rw [crlf_cons hc] at hunit
        rw [crlf_cons hc, stretch_zero]
        simp only [runFrom, hunit]
        cases hsize : unit? (c :: rest) with
        | none => rfl
        | some size =>
          have hskip : stretch (c :: rest) size - 1 = stretch rest (size - 1) := by
            cases size with
            | zero => rfl
            | succ size => rw [stretch_cons hc, Nat.add_sub_cancel, Nat.add_sub_cancel]
          have hmore := ih hrest (size - 1)
          simp only [Option.map_some]
          rw [hskip, hmore, stretch_cons hc]

/-- **Runs of units that are read alike are as long as each other**, up to the returns in them. -/
theorem run_crlf {unit? : Text → Option Nat} {answer : Option Nat}
    (alike : ReadsAlike unit? answer) (h : '\r' ∉ text) :
    run unit? (crlf text) = stretch text (run unit? text) :=
  runFrom_crlf alike h 0

/-- One character that is no line break. -/
theorem stretch_one (hc : c ≠ '\n') (rest : Text) : stretch (c :: rest) 1 = 1 := by
  rw [stretch_cons hc, stretch_zero]

theorem stretch_escapedBraces (h : escapedBraces text = true) : stretch text 4 = 4 := by
  rw [escapedBraces_eq] at h
  exact stretch_of_isPrefixOf (by decide) h

/-- There are no line breaks in the delimiters of strings. -/
theorem not_mem_closing (d : Dialect) : '\n' ∉ d.closing ∧ '\r' ∉ d.closing := by
  obtain ⟨letter, quote, indented⟩ := d
  cases letter <;> cases quote <;> cases indented <;> decide

theorem not_mem_commandDelimiter (indented : Bool) :
    '\n' ∉ commandDelimiter indented ∧ '\r' ∉ commandDelimiter indented := by
  cases indented <;> decide

/-- The units of strings are read alike, in every dialect. -/
theorem stringUnit?_alike (d : Dialect) : ReadsAlike (stringUnit? d) (some 1) := by
  have hclosing := not_mem_closing d
  have hbreak : ∀ c, c = '\n' ∨ c = '\r' → ∀ rest, stringUnit? d (c :: rest) = some 1 := by
    intro c hc rest
    have hprefix : d.closing.isPrefixOf (c :: rest) = false := by
      obtain ⟨letter, quote, indented⟩ := d
      rcases hc with rfl | rfl <;> cases quote <;> cases indented <;> rfl
    have hback : (some c == some '\\') = false := by rcases hc with rfl | rfl <;> rfl
    have hbraces : escapedBraces (c :: rest) = false ∧ doubleBrace (c :: rest) = false := by
      rcases hc with rfl | rfl <;> exact ⟨rfl, rfl⟩
    simp [stringUnit?, hprefix, hback, hbraces.1, hbraces.2]
  refine ⟨?_, hbreak '\n' (.inl rfl), fun rest => hbreak '\r' (.inr rfl) _, .inr rfl⟩
  intro c rest hc h
  have hhead : (crlf (c :: rest)).head? = (c :: rest).head? := by rw [crlf_cons hc]; rfl
  have hone : some 1 = (some 1).map (stretch (c :: rest)) := by
    rw [Option.map_some, stretch_one hc]
  unfold stringUnit?
  rw [isPrefixOf_crlf hclosing h, hhead, escape?_crlf h, escapedBraces_crlf h, doubleBrace_crlf h,
    Option.isSome_map]
  split
  · rfl
  · split
    · split
      · rfl
      · exact hone
    · split
      · next hbraces =>
        rw [Option.map_some, stretch_escapedBraces (Bool.and_eq_true_iff.1 hbraces).2]
      · split
        · rfl
        · exact hone

/-- The units of commands are read alike. -/
theorem commandUnit?_alike (indented : Bool) : ReadsAlike (commandUnit? indented) (some 1) := by
  have hdelimiter := not_mem_commandDelimiter indented
  have hbreak : ∀ c, c = '\n' ∨ c = '\r' → ∀ rest, commandUnit? indented (c :: rest) = some 1 := by
    intro c hc rest
    rcases hc with rfl | rfl <;> cases indented <;> rfl
  refine ⟨?_, hbreak '\n' (.inl rfl), fun rest => hbreak '\r' (.inr rfl) _, .inr rfl⟩
  intro c rest hc h
  unfold commandUnit?
  rw [isPrefixOf_crlf hdelimiter h, escapedBraces_crlf h, doubleBrace_crlf h]
  split
  · rfl
  · split
    · next hbraces => rw [Option.map_some, stretch_escapedBraces hbraces]
    · split
      · rfl
      · rw [Option.map_some, stretch_one hc]

/-- A run of backslashes is the same, but for a line break that it continues. -/
theorem backslashes_crlf (h : '\r' ∉ text) :
    backslashes (crlf text) = stretch text (backslashes text) := by
  have hcount : ∀ count, count ≤ (text.takeWhile (· == '\\')).length →
      stretch text count = count := by
    intro count hle
    apply stretch_of_not_mem
    · have hnone : '\n' ∉ text.takeWhile (· == '\\') := not_mem_takeWhile rfl text
      intro hmem
      apply hnone
      rw [List.prefix_iff_eq_take.1 (List.takeWhile_prefix _)]
      exact List.take_subset_take_left text hle hmem
    · exact Nat.le_trans hle (List.takeWhile_sublist _).length_le
  have hwhole := hcount _ (Nat.le_refl _)
  have hfront := hcount _ (Nat.sub_le _ 1)
  unfold backslashes
  dsimp only
  rw [takeWhile_crlf rfl rfl]
  generalize (text.takeWhile (· == '\\')).length = count at hwhole hfront ⊢
  have hdrop : (crlf text).drop (count - 1) = crlf (text.drop (count - 1)) := by
    rw [← drop_crlf, hfront]
  rw [hdrop, continuation?_crlf (not_mem_drop h _)]
  split
  · cases continuation? (text.drop (count - 1)) with
    | none => exact hwhole.symm
    | some size =>
      simp only [Option.map_some]
      rw [stretch_add, hfront]
  · exact hwhole.symm

/-- The units of bodies are read alike; a line break ends them. -/
theorem bodyUnit?_alike : ReadsAlike bodyUnit? none := by
  refine ⟨?_, fun _ => rfl, fun _ => rfl, .inl rfl⟩
  intro c rest hc h
  have hhead : (crlf (c :: rest)).head? = (c :: rest).head? := by rw [crlf_cons hc]; rfl
  unfold bodyUnit?
  rw [isSome_newline?_crlf h, hhead, escapedBraces_crlf h, doubleBrace_crlf h, backslashes_crlf h]
  split
  · rfl
  · split
    · next hbraces => rw [Option.map_some, stretch_escapedBraces hbraces]
    · split
      · rfl
      · split
        · rfl
        · rw [Option.map_some, stretch_one hc]

end Measure

/-! ## Marks and strings -/

namespace Mark

theorem detect?_crlf (text : Text) : detect? (Text.crlf text) = detect? text := by
  rcases text with _ | ⟨c, rest⟩
  · rfl
  by_cases hc : c = '\n'
  · subst hc
    rfl
  rw [Text.crlf_cons hc]
  cases hpair : startsPair c with
  | false => exact detect?_of_not_startsPair hpair _ _
  | true =>
    simp only [startsPair, Bool.or_eq_true, beq_iff_eq] at hpair
    -- The second character counts too. A line break is none of those it can be.
    rcases rest with _ | ⟨d, rest⟩
    · rfl
    by_cases hd : d = '\n'
    · subst hd
      rcases hpair with ((rfl | rfl) | rfl) | rfl <;> rfl
    · rw [Text.crlf_cons hd]
      exact detect?_congr ..

theorem stretch_length {text : Text} {sign : Mark} (h : detect? text = some sign) :
    Text.stretch text sign.length = sign.length := by
  unfold detect? at h
  split at h
  all_goals cases h
  all_goals rfl

end Mark

namespace Dialect

/-- The quotes behind a letter are the same, as no quote is a line break. -/
theorem ofQuotes?_crlf (letter : Letter) (text : Text) :
    ofQuotes? letter (Text.crlf text) = ofQuotes? letter text := by
  have hquote : ∀ quote : Char, quote = '"' ∨ quote = '\'' → ∀ rest : Text,
      ofQuotes? letter (quote :: Text.crlf rest) = ofQuotes? letter (quote :: rest) := by
    intro quote hquote rest
    cases rest with
    | nil => rfl
    | cons d rest =>
      by_cases hd : d = '\n'
      · subst hd
        rcases hquote with rfl | rfl <;> rfl
      · rw [Text.crlf_cons hd]
        by_cases hsecond : d = quote
        · subst hsecond
          cases rest with
          | nil => rfl
          | cons e rest =>
            by_cases he : e = '\n'
            · subst he
              rcases hquote with rfl | rfl <;> rfl
            · rw [Text.crlf_cons he]
              rcases hquote with rfl | rfl
              · by_cases hthird : e = '"'
                · subst hthird
                  rfl
                · simp [ofQuotes?, hthird]
              · by_cases hthird : e = '\''
                · subst hthird
                  rfl
                · simp [ofQuotes?, hthird]
        · rcases hquote with rfl | rfl <;> simp [ofQuotes?, hsecond]
  cases text with
  | nil => rfl
  | cons c rest =>
    by_cases hc : c = '\n'
    · subst hc
      rfl
    · rw [Text.crlf_cons hc]
      by_cases hdouble : c = '"'
      · exact hquote c (.inl hdouble) rest
      · by_cases hsingle : c = '\''
        · exact hquote c (.inr hsingle) rest
        · simp [ofQuotes?, hdouble, hsingle]

theorem detect?_crlf (text : Text) : detect? (Text.crlf text) = detect? text := by
  cases text with
  | nil => rfl
  | cons c rest =>
    by_cases hc : c = '\n'
    · subst hc
      rfl
    · have hwhole := ofQuotes?_crlf .plain (c :: rest)
      rw [Text.crlf_cons hc] at hwhole ⊢
      by_cases hshell : c = 'x'
      · subst hshell
        exact ofQuotes?_crlf .shell rest
      · by_cases hformat : c = 'f'
        · subst hformat
          exact ofQuotes?_crlf .format rest
        · simpa [detect?, hshell, hformat] using hwhole

/-- The opening of a string holds no line break. -/
theorem stretch_opening {text : Text} {d : Dialect} (h : detect? text = some d) :
    Text.stretch text d.opening.length = d.opening.length := by
  refine Measure.stretch_of_isPrefixOf ?_ (isPrefixOf_of_detect? h)
  obtain ⟨letter, quote, indented⟩ := d
  cases letter <;> cases quote <;> cases indented <;> decide

end Dialect

end Justfile
