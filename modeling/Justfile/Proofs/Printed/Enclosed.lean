import Justfile.Proofs.Printed.Cut
import Justfile.Proofs.Scanner.Delimiter

/-!
# Contents between delimiters

Which contents a string can have so that it ends where its closing delimiter stands
(`Dialect.Encloses`), and how such contents are cut into tokens (`Dialect.Inner`): escape sequences
are tokens of their own, and the stretches between them are one token each
(`Encloses.exists_inner`).

The contents are read unit by unit. What decides about a unit is what stands in front of the reader,
the closing delimiter included; so every fact about contents is one about contents in front of the
closing delimiter and any text after it.
-/

set_option autoImplicit false

namespace Justfile

/-! ## Units -/

namespace Dialect

/-- The escape sequences between double quotes. -/
def escapes : List Text :=
  [['\\', 'n'], ['\\', 'r'], ['\\', 't'], ['\\', '"'], ['\\', '\\'], ['\\', '\n'],
    ['\\', '\r', '\n']]

/-- Four opening braces, which stand for two. -/
def fourBraces : Text := ['\x7b', '\x7b', '\x7b', '\x7b']

/-- The sequences of characters that belong together in a dialect. -/
def sequences (d : Dialect) : List Text :=
  (if d.quote = .double then escapes else []) ++ if d.letter = .format then [fourBraces] else []

/-- The contents can stand between the delimiters. In front of the closing delimiter they are read
unit by unit, where a unit is a sequence of the dialect or else one character. They end where a unit
ends, and no unit in them starts where the closing delimiter stands or where an interpolation
opens. -/
inductive Encloses (d : Dialect) : Text → Prop
  | nil : Encloses d []
  | sequence {unit rest : Text} : unit ∈ d.sequences → Encloses d rest → Encloses d (unit ++ rest)
  | character {c : Char} {rest : Text} :
      (∀ unit ∈ d.sequences, ¬unit <+: c :: (rest ++ d.closing)) →
      ¬d.closing <+: c :: (rest ++ d.closing) →
      (d.letter = .format → ¬['\x7b', '\x7b'] <+: c :: (rest ++ d.closing)) →
      Encloses d rest → Encloses d (c :: rest)

variable {d : Dialect} {unit text after : Text}

theorem mem_sequences :
    unit ∈ d.sequences ↔
      (d.readsEscapes = true ∧ unit ∈ escapes) ∨ (d.isFormat = true ∧ unit = fourBraces) := by
  obtain ⟨letter, quote, indented⟩ := d
  cases letter <;> cases quote <;> simp [sequences, readsEscapes, isFormat]

/-- The closing delimiter starts with a quote. -/
theorem closing_cons (d : Dialect) : ∃ more, d.closing = d.quote.char :: more := by
  obtain ⟨letter, quote, indented⟩ := d
  cases indented <;> exact ⟨_, rfl⟩

theorem isPrefixOf_closing_append (d : Dialect) (after : Text) :
    d.closing.isPrefixOf (d.closing ++ after) = true :=
  List.isPrefixOf_iff_prefix.2 (List.prefix_append ..)

/-- A text that starts with no quote does not start with the closing delimiter. -/
theorem isPrefixOf_closing_cons {c : Char} (h : c ≠ '"' ∧ c ≠ '\'') (text : Text) :
    d.closing.isPrefixOf (c :: text) = false := by
  obtain ⟨more, hclosing⟩ := d.closing_cons
  have hquote : d.quote.char ≠ c := by
    cases d.quote
    · exact h.1.symm
    · exact h.2.symm
  rw [hclosing]
  simp [List.isPrefixOf, hquote]

end Dialect

/-- What is no start of a text is no start of what the text starts with. -/
theorem not_prefix_append {word text : Text} (h : ¬word <+: text) (hlength : word.length ≤ text.length)
    (after : Text) : ¬word <+: text ++ after :=
  fun hprefix => h (List.prefix_of_prefix_length_le hprefix (List.prefix_append ..) hlength)

namespace Measure

open Dialect

variable {d : Dialect} {unit text after : Text}

/-! ## Measures of units -/

theorem escape?_of_mem (h : unit ∈ escapes) (after : Text) :
    escape? (unit ++ after) = some unit.length := by
  simp only [escapes, List.mem_cons, List.not_mem_nil, or_false] at h
  rcases h with rfl | rfl | rfl | rfl | rfl | rfl | rfl <;> rfl

theorem exists_escape_of_isSome (h : (escape? text).isSome = true) :
    ∃ unit ∈ escapes, unit <+: text := by
  rw [escape?.eq_def] at h
  split at h
  · exact ⟨['\\', 'n'], by decide, List.prefix_append _ _⟩
  · exact ⟨['\\', 'r'], by decide, List.prefix_append _ _⟩
  · exact ⟨['\\', 't'], by decide, List.prefix_append _ _⟩
  · exact ⟨['\\', '"'], by decide, List.prefix_append _ _⟩
  · exact ⟨['\\', '\\'], by decide, List.prefix_append _ _⟩
  · exact ⟨['\\', '\n'], by decide, List.prefix_append _ _⟩
  · exact ⟨['\\', '\r', '\n'], by decide, List.prefix_append _ _⟩
  · cases h

/-- Every escape sequence starts with a backslash, and so does no other unit. -/
theorem escape_cons (h : unit ∈ escapes) : ∃ more, unit = '\\' :: more := by
  simp only [escapes, List.mem_cons, List.not_mem_nil, or_false] at h
  rcases h with rfl | rfl | rfl | rfl | rfl | rfl | rfl <;> exact ⟨_, rfl⟩

theorem doubleBrace_iff : doubleBrace text = true ↔ ['\x7b', '\x7b'] <+: text := by
  rw [doubleBrace.eq_def]
  split
  · exact ⟨fun _ => List.prefix_append _ _, fun _ => rfl⟩
  · next hother =>
    refine ⟨nofun, ?_⟩
    rintro ⟨more, rfl⟩
    exact absurd rfl (hother more)

theorem doubleBrace_of_escapedBraces (h : escapedBraces text = true) : doubleBrace text = true := by
  rw [escapedBraces.eq_def] at h
  split at h
  · rfl
  · cases h

theorem stringUnit?_escape (hescapes : d.readsEscapes = true) (h : unit ∈ escapes) (after : Text) :
    stringUnit? d (unit ++ after) = none := by
  obtain ⟨more, hunit⟩ := escape_cons h
  have hclosing : d.closing.isPrefixOf (unit ++ after) = false := by
    rw [hunit]
    exact isPrefixOf_closing_cons (by decide) _
  have hhead : (unit ++ after).head? = some '\\' := by
    rw [hunit]
    rfl
  simp [stringUnit?, hclosing, hescapes, hhead, escape?_of_mem h]

theorem stringUnit?_fourBraces (hformat : d.isFormat = true) (after : Text) :
    stringUnit? d (fourBraces ++ after) = some fourBraces.length := by
  have hclosing : d.closing.isPrefixOf (fourBraces ++ after) = false :=
    isPrefixOf_closing_cons (by decide) _
  rw [stringUnit?, hclosing, hformat]
  cases d.readsEscapes <;> rfl

theorem stringUnit?_closing (d : Dialect) (after : Text) :
    stringUnit? d (d.closing ++ after) = none := by
  rw [stringUnit?, if_pos (d.isPrefixOf_closing_append after)]

/-- Behind a text in front of a double quote stands nothing that makes its start an escape sequence. -/
theorem escape?_quote {c : Char} {rest more : Text}
    (h : ∀ unit ∈ escapes, ¬unit <+: c :: (rest ++ '"' :: more)) (after : Text) :
    escape? (c :: (rest ++ '"' :: more) ++ after) = none := by
  rw [← Option.not_isSome_iff_eq_none]
  intro hsome
  obtain ⟨unit, hmem, hprefix⟩ := exists_escape_of_isSome hsome
  have hlength : ∀ unit ∈ escapes, unit.length ≤ 3 := by decide
  cases rest with
  | cons next rest =>
    refine not_prefix_append (h unit hmem) (Nat.le_trans (hlength unit hmem) ?_) after hprefix
    simp only [List.length_cons, List.length_append]
    omega
  | nil =>
    -- The quote comes second, so that the sequence is the one that ends with it.
    obtain ⟨tail, rfl⟩ := escape_cons hmem
    obtain rfl : '\\' = c := (List.cons_prefix_cons.1 hprefix).1
    exact h ['\\', '"'] (by decide) (List.prefix_append ['\\', '"'] more)

theorem stringUnit?_eq_one (hclosing : d.closing.isPrefixOf text = false)
    (hescape : d.readsEscapes = true → escape? text = none)
    (hbrace : d.isFormat = true → doubleBrace text = false) : stringUnit? d text = some 1 := by
  have hfour : d.isFormat = true → escapedBraces text = false := by
    intro hformat
    rw [← Bool.not_eq_true]
    intro hfour
    rw [doubleBrace_of_escapedBraces hfour] at hbrace
    cases hbrace hformat
  rw [stringUnit?, hclosing]
  cases hescapes : d.readsEscapes
  · cases hformat : d.isFormat
    · simp
    · simp [hbrace hformat, hfour hformat]
  · cases hformat : d.isFormat
    · simp [hescape hescapes]
    · simp [hescape hescapes, hbrace hformat, hfour hformat]

/-- Where a unit of contents stands, there is nothing else. -/
theorem of_stringUnit? {size : Nat} (h : stringUnit? d text = some size) :
    d.closing.isPrefixOf text = false ∧ (d.readsEscapes = true → escape? text = none) ∧
      (d.isFormat = true → opensInterpolation text = false) := by
  have hescape : d.readsEscapes = true → escape? text = none := by
    intro hescapes
    rw [← Option.not_isSome_iff_eq_none]
    intro hsome
    obtain ⟨unit, hmem, after, rfl⟩ := exists_escape_of_isSome hsome
    cases (stringUnit?_escape hescapes hmem after).symm.trans h
  rw [stringUnit?.eq_def] at h
  split at h
  · cases h
  · next hclosing =>
    refine ⟨Bool.eq_false_iff.2 hclosing, hescape, fun hformat => ?_⟩
    rw [opensInterpolation]
    cases hdouble : doubleBrace text
    · rfl
    · cases hfour : escapedBraces text
      · split at h
        · next hback =>
          obtain ⟨-, hhead⟩ := Bool.and_eq_true_iff.1 hback
          cases text with
          | nil => cases hdouble
          | cons c rest =>
            cases beq_iff_eq.1 hhead
            cases hdouble
        · simp [hformat, hfour, hdouble] at h
      · rfl

/-- A character that starts no sequence is a unit of its own. -/
theorem stringUnit?_character {c : Char} {rest : Text}
    (hunit : ∀ unit ∈ d.sequences, ¬unit <+: c :: (rest ++ d.closing))
    (hclosing : ¬d.closing <+: c :: (rest ++ d.closing))
    (hbraces : d.letter = .format → ¬['\x7b', '\x7b'] <+: c :: (rest ++ d.closing))
    (after : Text) : stringUnit? d (c :: (rest ++ (d.closing ++ after))) = some 1 := by
  obtain ⟨more, hmore⟩ := d.closing_cons
  have htext : c :: (rest ++ (d.closing ++ after)) = c :: (rest ++ d.closing) ++ after := by simp
  rw [htext]
  refine stringUnit?_eq_one ?_ ?_ ?_
  · rw [← Bool.not_eq_true, List.isPrefixOf_iff_prefix]
    refine not_prefix_append hclosing ?_ after
    simp only [List.length_cons, List.length_append]
    omega
  · intro hescapes
    have hquote : d.quote = .double := beq_iff_eq.1 hescapes
    rw [hquote] at hmore
    have hnone : ∀ unit ∈ escapes, ¬unit <+: c :: (rest ++ d.closing) :=
      fun unit hmem => hunit unit (mem_sequences.2 (.inl ⟨hescapes, hmem⟩))
    rw [hmore] at hnone ⊢
    exact escape?_quote hnone after
  · intro hformat
    rw [← Bool.not_eq_true, doubleBrace_iff]
    refine not_prefix_append (hbraces (beq_iff_eq.1 hformat)) ?_ after
    rw [hmore]
    simp only [List.length_cons, List.length_append, List.length_nil]
    omega

end Measure

/-! ## Cuts -/

namespace Scanner

open Dialect Justfile.Measure

variable {d : Dialect} {word after : Text}

theorem Ready.stringContent_eq {s : Scanner} (ready : s.Ready) (dialect : Dialect) :
    s.next (.stringContent dialect) = s.stringContent dialect :=
  ready.next_eq (.stringContent dialect)

/-- The characters that a string can start with have no other reading. -/
theorem opening_cons (d : Dialect) : ∃ c more, d.opening = c :: more ∧
    (c = 'x' ∨ c = 'f' ∨ c = '"' ∨ c = '\'') := by
  obtain ⟨letter, quote, indented⟩ := d
  cases letter <;> cases quote <;> cases indented <;> exact ⟨_, _, rfl, by decide⟩

/-- The opening delimiter is a token where no further quotes make another one of it. -/
theorem cut_opening (h : detect? (d.opening ++ after) = some d) :
    Cut .normal (.stringOpen d) d.opening after := by
  obtain ⟨c, more, hopening, hfirst⟩ := opening_cons d
  have hc : c ≠ '#' ∧ c ≠ '\n' ∧ c ≠ '\r' ∧ c ≠ ' ' ∧ c ≠ '\t' ∧ c ≠ '\\' := by
    rcases hfirst with rfl | rfl | rfl | rfl <;> decide
  obtain ⟨hhash, hfeed, hreturn, hspace, htab, hback⟩ := hc
  refine ⟨?_, ?_, rfl⟩
  · intro s ready hrest
    rw [← hrest] at h
    rw [hopening, List.cons_append] at hrest
    refine ⟨false, ?_⟩
    rw [ready.next_char hrest hhash (by simp [newline?, hfeed, hreturn])]
    simp [normalToken, h, hhash, hreturn, hspace, htab, hback, openLiteral]
  · intro _
    rw [hopening, List.cons_append]
    simp [blanks, hspace, htab, hreturn]

theorem cut_closing (d : Dialect) (after : Text) :
    Cut (.stringContent d) (.stringClose d) d.closing after := by
  refine ⟨?_, nofun, rfl⟩
  intro s ready hrest
  have hclosing : d.closing.isPrefixOf s.rest = true := by
    rw [hrest]
    exact d.isPrefixOf_closing_append after
  refine ⟨true, ?_⟩
  rw [ready.stringContent_eq, stringContent, if_pos hclosing]
  rfl

theorem cut_escape (hescapes : d.readsEscapes = true) (h : word ∈ escapes) (after : Text) :
    Cut (.stringContent d) .escapeSequence word after := by
  refine ⟨?_, nofun, rfl⟩
  intro s ready hrest
  obtain ⟨more, hword⟩ := escape_cons h
  have hclosing : d.closing.isPrefixOf (word ++ after) = false := by
    rw [hword]
    exact isPrefixOf_closing_cons (by decide) _
  have hsome : (word ++ after).isEmpty = false := by rw [hword]; rfl
  refine ⟨s.literalClosed, ?_⟩
  rw [← hrest] at hclosing hsome
  have hescape : escape? s.rest = some word.length := by
    rw [hrest]
    exact escape?_of_mem h after
  rw [ready.stringContent_eq, stringContent, hclosing, hsome, hescapes, hescape]
  rfl

/-- Where a unit of contents stands, a stretch of contents is read. -/
theorem stringContent_of_unit {s : Scanner} {size : Nat} (hne : s.rest ≠ [])
    (hunit : stringUnit? d s.rest = some size) :
    s.stringContent d = s.content .stringContent .unterminatedString (stringUnit? d) := by
  obtain ⟨hclosing, hescape, hbrace⟩ := of_stringUnit? hunit
  have hsome : s.rest.isEmpty = false := by simpa using hne
  rw [stringContent, hclosing, hsome]
  cases hescapes : d.readsEscapes
  · cases hformat : d.isFormat
    · simp
    · simp [hbrace hformat]
  · cases hformat : d.isFormat
    · simp [hescape hescapes]
    · simp [hescape hescapes, hbrace hformat]

/-- A stretch of units is a token in front of any text. -/
theorem cut_stretch (hword : word ≠ []) (hafter : after ≠ [])
    (hrun : run (stringUnit? d) (word ++ after) = word.length) :
    Cut (.stringContent d) .stringContent word after := by
  refine ⟨?_, nofun, rfl⟩
  intro s ready hrest
  rw [← hrest] at hrun
  have hcontent : s.stringContent d =
      s.content .stringContent .unterminatedString (stringUnit? d) := by
    cases hunit : stringUnit? d s.rest with
    | none =>
      rw [run_of_none hunit] at hrun
      exact absurd (List.length_eq_zero_iff.1 hrun.symm) hword
    | some size => exact stringContent_of_unit (by simp [hrest, hafter]) hunit
  have hdrop : s.rest.drop word.length = after := by rw [hrest, List.drop_left]
  have hmore : after.isEmpty = false := by simpa using hafter
  refine ⟨s.literalClosed, ?_⟩
  rw [ready.stringContent_eq, hcontent, content, hrun, hdrop, hmore]
  rfl

end Scanner

/-! ## Contents -/

namespace Dialect

open Justfile.Measure Scanner

variable {d : Dialect} {contents after : Text}

/-- Contents do not start with the closing delimiter. -/
theorem Encloses.not_closing_start (h : Encloses d contents) (hne : contents ≠ []) :
    ¬d.closing <+: contents ++ d.closing := by
  cases h with
  | nil => exact absurd rfl hne
  | character _ hclosing => exact hclosing
  | @sequence unit rest hmem =>
    obtain ⟨c, more, rfl, hquote⟩ : ∃ c more, unit = c :: more ∧ c ≠ '"' ∧ c ≠ '\'' := by
      rcases mem_sequences.1 hmem with ⟨-, hescape⟩ | ⟨-, rfl⟩
      · obtain ⟨more, rfl⟩ := escape_cons hescape
        exact ⟨_, _, rfl, by decide⟩
      · exact ⟨_, _, rfl, by decide⟩
    rw [← List.isPrefixOf_iff_prefix, Bool.not_eq_true]
    exact isPrefixOf_closing_cons hquote _

/-- The contents of a string do not change the dialect that its opening delimiter announces. -/
theorem Encloses.detect? (h : Encloses d contents) (hafter : after.head? ≠ some d.quote.char) :
    detect? (d.opening ++ (contents ++ (d.closing ++ after))) = some d := by
  rw [detect?_opening_append_iff]
  intro hindented
  obtain ⟨letter, quote, indented⟩ := d
  obtain rfl : indented = false := hindented
  rw [← Bool.not_eq_true, List.isPrefixOf_iff_prefix]
  intro hprefix
  -- Behind the opening quote two more would have to stand.
  have htwo : [quote.char, quote.char] <+: contents ++ quote.char :: after :=
    (List.cons_prefix_cons.1 hprefix).2
  cases contents with
  | nil =>
    obtain ⟨more, hmore⟩ := (List.cons_prefix_cons.1 htwo).2
    rw [← hmore] at hafter
    exact hafter rfl
  | cons c rest =>
    obtain rfl : quote.char = c := (List.cons_prefix_cons.1 htwo).1
    exact h.not_closing_start nofun (List.prefix_append [quote.char] _)

/-- A string announces its dialect where nothing stands after it. -/
theorem Encloses.detect?_self (h : Encloses d contents) :
    Dialect.detect? (d.opening ++ (contents ++ d.closing)) = some d := by
  have hdetect : Dialect.detect? (d.opening ++ (contents ++ (d.closing ++ []))) = some d :=
    h.detect? nofun
  rw [List.append_nil] at hdetect
  exact hdetect

/-- Contents start with a stretch of units, in front of an escape sequence or of their end. -/
theorem Encloses.stretch (h : Encloses d contents) (after : Text) :
    ∃ word rest, contents = word ++ rest ∧
      run (stringUnit? d) (word ++ (rest ++ (d.closing ++ after))) = word.length ∧
      (rest = [] ∨ d.readsEscapes = true ∧
        ∃ unit ∈ escapes, ∃ more, rest = unit ++ more ∧ Encloses d more) := by
  induction h with
  | nil => exact ⟨[], [], rfl, run_of_none (stringUnit?_closing d after), .inl rfl⟩
  | @sequence unit rest hmem hrest ih =>
    rcases mem_sequences.1 hmem with ⟨hescapes, hescape⟩ | ⟨hformat, rfl⟩
    · refine ⟨[], unit ++ rest, rfl, ?_, .inr ⟨hescapes, unit, hescape, rest, rfl, hrest⟩⟩
      rw [List.nil_append, List.append_assoc]
      exact run_of_none (stringUnit?_escape hescapes hescape _)
    · obtain ⟨word, more, rfl, hrun, hends⟩ := ih
      refine ⟨fourBraces ++ word, more, (List.append_assoc ..).symm, ?_, hends⟩
      rw [List.append_assoc, run_append (by decide) (stringUnit?_fourBraces hformat _), hrun,
        List.length_append]
  | @character c rest hunit hclosing hbraces hrest ih =>
    obtain ⟨word, more, rfl, hrun, hends⟩ := ih
    refine ⟨c :: word, more, rfl, ?_, hends⟩
    have hone := stringUnit?_character hunit hclosing hbraces after
    rw [List.append_assoc] at hone
    rw [List.cons_append, ← List.singleton_append, run_append (by simp) hone, hrun]
    exact Nat.add_comm 1 word.length

/-- The layout consists of so many tokens that are cut off one after another between the delimiters,
in front of the text. -/
inductive Inner (d : Dialect) (after : Text) : Nat → Layout → Prop
  | nil : Inner d after 0 .empty
  | cons {count : Nat} {kind : Token.Kind} {word : Text} {more : Layout} :
      kind = .stringContent ∨ kind = .escapeSequence →
      Cut (.stringContent d) kind word (more.text ++ (d.closing ++ after)) →
      Inner d after count more → Inner d after (count + 1) (.leaf none kind word ++ more)

theorem closing_append_ne_nil (d : Dialect) (text after : Text) :
    text ++ (d.closing ++ after) ≠ [] := by
  obtain ⟨more, hmore⟩ := d.closing_cons
  simp [hmore]

/-- A stretch of contents is a token, unless it is empty. -/
theorem Inner.stretch {count : Nat} {x : Layout} {word : Text} (h : Inner d after count x)
    (hrun : run (stringUnit? d) (word ++ (x.text ++ (d.closing ++ after))) = word.length) :
    ∃ count' y, Inner d after count' y ∧ y.text = word ++ x.text ∧
      count' ≤ word.length + count := by
  by_cases hword : word = []
  · exact ⟨count, x, h, by rw [hword]; rfl, Nat.le_add_left ..⟩
  · have hpos := List.length_pos_iff.2 hword
    exact ⟨_, _, .cons (.inl rfl) (cut_stretch hword (d.closing_append_ne_nil _ _) hrun) h, rfl,
      by omega⟩

/-- **Contents that can stand between the delimiters are cut into tokens.** -/
theorem Encloses.exists_inner {contents : Text} (h : Encloses d contents) (after : Text) :
    ∃ count x, Inner d after count x ∧ x.text = contents ∧ count ≤ contents.length := by
  obtain ⟨word, rest, hcontents, hrun, hends⟩ := h.stretch after
  rcases hends with rfl | ⟨hescapes, unit, hunit, more, rfl, hmore⟩
  · obtain ⟨count, x, hx, htext, hcount⟩ := Inner.stretch (.nil (d := d)) hrun
    exact ⟨count, x, hx, htext.trans hcontents.symm, by simpa [hcontents] using hcount⟩
  · -- An escape sequence ends the stretch, and what is left is shorter.
    have hpos : 0 < unit.length := by
      obtain ⟨tail, rfl⟩ := escape_cons hunit
      exact Nat.succ_pos _
    have hlength : contents.length = word.length + (unit.length + more.length) := by
      simp [hcontents]
    obtain ⟨count, x, hx, rfl, hcount⟩ := hmore.exists_inner after
    have hescape := Inner.cons (.inr rfl) (cut_escape hescapes hunit _) hx
    obtain ⟨count', y, hy, htext, hcount'⟩ := hescape.stretch hrun
    exact ⟨count', y, hy, htext.trans hcontents.symm, by omega⟩
termination_by contents.length
decreasing_by omega

end Dialect

/-- The layout of a string with its delimiters; the parts of a format string have a node of their
own. -/
def Dialect.layout (d : Dialect) (inner : Layout) : Layout :=
  let parts : Layout :=
    .leaf none (.stringOpen d) d.opening ++ (inner ++ .leaf none (.stringClose d) d.closing)
  .group none .string (if d.isFormat then .group none .formatString parts else parts)

@[simp] theorem Dialect.text_layout (d : Dialect) (inner : Layout) :
    (d.layout inner).text = d.opening ++ (inner.text ++ d.closing) := by
  rw [Dialect.layout]
  cases d.isFormat <;> rfl

/-! ## Contents without sequences -/

namespace Printed

open Dialect

/-- Whatever holds no single quote can stand between single quotes. -/
theorem Quoted.encloses (q : Quoted) : quotes.Encloses q.contents := by
  obtain ⟨contents, hquote⟩ := q
  change quotes.Encloses contents
  induction contents with
  | nil => exact .nil
  | cons c contents ih =>
    rw [List.mem_cons, not_or] at hquote
    refine .character nofun ?_ nofun (ih hquote.2)
    rintro ⟨more, hmore⟩
    exact hquote.1 (List.head_eq_of_cons_eq hmore)

/-- Contents without escape sequences are one token, unless they are empty. -/
theorem Quoted.exists_inner (q : Quoted) (after : Text) :
    ∃ count ≤ 1, Inner quotes after count q.inner := by
  obtain ⟨word, rest, hcontents, hrun, hends⟩ := q.encloses.stretch after
  obtain rfl : rest = [] := hends.resolve_right fun h => nomatch h.1
  rw [List.append_nil] at hcontents
  subst hcontents
  rw [Quoted.inner]
  split
  · exact ⟨0, Nat.zero_le 1, .nil⟩
  · next hne =>
    rw [← Layout.append_empty (.leaf none .stringContent q.contents)]
    exact ⟨1, Nat.le_refl 1,
      .cons (.inl rfl) (Scanner.cut_stretch hne (closing_append_ne_nil quotes [] after) hrun) .nil⟩

end Printed

end Justfile
