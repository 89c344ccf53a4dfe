import Justfile.Token.Scanner

/-!
# Extents

How many characters the measures can count. A measure that the scanner has chosen counts at least
one character, so that every token with a shape of its own moves the scanner forward; and the
pieces of a shebang line are all non-empty and together no longer than the line
(`Interpreter.cuts_pieces`).

Each lemma is about one measure, at a text on which the scanner uses it.
-/

set_option autoImplicit false

namespace Justfile

namespace Measure

/-! ## Lines and blanks -/

theorem newline?_pos {text : Text} {size : Nat} (h : newline? text = some size) : 0 < size := by
  unfold newline? at h
  split at h
  · cases h
    decide
  · cases h
    decide
  · cases h

theorem newline?_nil : newline? [] = none := rfl

/-- A line that does not end at once has a character. -/
theorem line_pos {c : Char} {rest : Text} (h : newline? (c :: rest) = none) :
    0 < line (c :: rest) := by
  simp [line, h]

theorem isBlank_iff {c : Char} : isBlank c = true ↔ c = ' ' ∨ c = '\t' := by
  simp [isBlank]

/-- A blank between tokens is there when the scanner has seen its first character. -/
theorem blanks_pos {c : Char} {rest : Text} (hc : (c == ' ' || c == '\t' || c == '\r') = true)
    (h : newline? (c :: rest) = none) : 0 < blanks (c :: rest) := by
  simp only [Bool.or_eq_true, beq_iff_eq] at hc
  rcases hc with (rfl | rfl) | rfl
  · simp [blanks]
  · simp [blanks]
  · unfold blanks
    split
    · exact Nat.succ_pos _
    · exact Nat.succ_pos _
    · next heq =>
      simp only [List.cons.injEq, true_and] at heq
      subst heq
      cases h
    · exact Nat.succ_pos _
    · next h1 => exact absurd rfl (h1 rest)

theorem line_le (text : Text) : line text ≤ text.length := by
  induction text with
  | nil => exact Nat.le_refl _
  | cons c rest ih =>
    unfold line
    rw [List.length_cons]
    split <;> omega

theorem indentation_le (text : Text) : indentation text ≤ text.length :=
  (List.takeWhile_sublist _).length_le

/-- Blanks have one byte each. -/
theorem byteSize_take_of_le_indentation {text : Text} {size : Nat} (h : size ≤ indentation text) :
    Text.byteSize (text.take size) = size := by
  induction text generalizing size with
  | nil =>
    obtain rfl := Nat.le_zero.1 h
    rfl
  | cons c rest ih =>
    cases size with
    | zero => rfl
    | succ size =>
      cases hblank : isBlank c with
      | false =>
        rw [indentation, List.takeWhile_cons, hblank] at h
        cases h
      | true =>
        rw [indentation, List.takeWhile_cons, hblank] at h
        have hone : c.utf8Size = 1 := by
          simp only [isBlank, Bool.or_eq_true, beq_iff_eq] at hblank
          rcases hblank with rfl | rfl <;> rfl
        rw [List.take_succ_cons, Text.byteSize_cons, hone, ih (Nat.le_of_succ_le_succ h), Nat.add_comm]

theorem word_le (text : Text) : word text ≤ text.length :=
  (List.takeWhile_sublist _).length_le

/-- Indentation in front of something that does not end the line leaves that something. -/
theorem line_pos_of_indentation {text : Text}
    (h : atLineEnd (text.drop (indentation text)) = false) : 0 < line text := by
  cases text with
  | nil => simp [indentation, atLineEnd] at h
  | cons c rest =>
    apply line_pos
    cases hn : newline? (c :: rest) with
    | none => rfl
    | some size =>
      -- A line break is no blank, so the indentation is empty and the line ends here.
      have hc : isBlank c = false := by
        unfold newline? at hn
        split at hn
        · simp_all [isBlank]
        · simp_all [isBlank]
        · cases hn
      have hzero : indentation (c :: rest) = 0 := by
        simp [indentation, hc]
      rw [hzero] at h
      simp [atLineEnd, hn] at h

/-! ## Names, numbers and units -/

theorem continuation?_pos {text : Text} {size : Nat} (h : continuation? text = some size) :
    0 < size := by
  unfold continuation? at h
  split at h
  · simp only [Option.map_eq_some_iff] at h
    obtain ⟨width, -, rfl⟩ := h
    omega
  · cases h

theorem not_isDigit_of_startsIdentifier {c : Char} (h : startsIdentifier c = true) :
    c.isDigit = false := by
  have halpha : c.isAlpha = (decide (c.val ≥ 'A'.val ∧ c.val ≤ 'Z'.val) ||
      (decide (c.val ≥ 'a'.val) && decide (c.val ≤ 'z'.val))) := rfl
  simp only [startsIdentifier, halpha, Char.isDigit, Bool.or_eq_true, Bool.and_eq_true,
    decide_eq_true_eq, beq_iff_eq, Bool.and_eq_false_iff, decide_eq_false_iff_not,
    UInt32.le_iff_toNat_le] at h ⊢
  rcases h with h | rfl
  · have hz : ('9'.val.toNat) = 57 := rfl
    have hA : ('A'.val.toNat) = 65 := rfl
    have ha : ('a'.val.toNat) = 97 := rfl
    omega
  · decide

theorem identifier_pos {c : Char} {rest : Text} (h : startsIdentifier c = true) :
    0 < identifier (c :: rest) := by
  simp [identifier, h]

theorem identifier_le (text : Text) : identifier text ≤ text.length := by
  cases text with
  | nil => exact Nat.zero_le _
  | cons c rest =>
    have hle := (List.takeWhile_sublist continuesIdentifier (l := rest)).length_le
    simp only [identifier, List.length_cons]
    split
    · omega
    · exact Nat.zero_le _

theorem number_pos {c : Char} {rest : Text} (h : c.isDigit = true) : 0 < number (c :: rest) := by
  have hd : 0 < digits (c :: rest) := by simp [digits, h]
  unfold number
  dsimp only
  split
  · omega
  · exact hd

/-- An escape is told by two characters, unless the second one is a carriage return. -/
theorem escape?_congr {d : Char} (hreturn : d ≠ '\r') (c : Char) (rest more : Text) :
    escape? (c :: d :: rest) = escape? (c :: d :: more) := by
  by_cases hback : c = '\\'
  · subst hback
    by_cases hescapes : d ∈ ['n', 'r', 't', '"', '\\', '\n']
    · simp only [List.mem_cons, List.not_mem_nil, or_false] at hescapes
      rcases hescapes with rfl | rfl | rfl | rfl | rfl | rfl <;> rfl
    · simp only [List.mem_cons, List.not_mem_nil, or_false, not_or] at hescapes
      obtain ⟨hn, hr, ht, hquote, hslash, hfeed⟩ := hescapes
      simp [escape?, hn, hr, ht, hquote, hslash, hfeed, hreturn]
  · simp [escape?, hback]

/-- In front of a line feed only, a carriage return is an escape. -/
theorem escape?_return (c e : Char) (rest more : Text) :
    escape? (c :: '\r' :: e :: rest) = escape? (c :: '\r' :: e :: more) := by
  by_cases hback : c = '\\'
  · subst hback
    by_cases he : e = '\n'
    · subst he
      rfl
    · simp [escape?, he]
  · simp [escape?, hback]

theorem escape?_pos {text : Text} {size : Nat} (h : escape? text = some size) : 0 < size := by
  unfold escape? at h
  split at h <;> cases h <;> decide

theorem linePrefix?_pos {text : Text} {size : Nat} (h : linePrefix? text = some size) :
    0 < size := by
  unfold linePrefix? at h
  split at h <;> cases h <;> decide

/-- The signs of a body line are told by two characters. -/
theorem linePrefix?_congr (c d : Char) (rest more : Text) :
    linePrefix? (c :: d :: rest) = linePrefix? (c :: d :: more) := by
  by_cases hat : c = '@'
  · subst hat
    by_cases hd : d = '-'
    · subst hd
      rfl
    · simp [linePrefix?, hd]
  · by_cases hminus : c = '-'
    · subst hminus
      by_cases hd : d = '@'
      · subst hd
        rfl
      · simp [linePrefix?, hd]
    · simp [linePrefix?, hat, hminus]

theorem escapedBraces_eq (text : Text) :
    escapedBraces text = ['\x7b', '\x7b', '\x7b', '\x7b'].isPrefixOf text := by
  unfold escapedBraces
  split
  · simp [List.isPrefixOf]
  · next hnot =>
    symm
    rw [Bool.eq_false_iff]
    intro hprefix
    obtain ⟨rest, rfl⟩ := List.isPrefixOf_iff_prefix.1 hprefix
    exact hnot rest rfl

theorem doubleBrace_eq (text : Text) : doubleBrace text = ['\x7b', '\x7b'].isPrefixOf text := by
  unfold doubleBrace
  split
  · simp [List.isPrefixOf]
  · next hnot =>
    symm
    rw [Bool.eq_false_iff]
    intro hprefix
    obtain ⟨rest, rfl⟩ := List.isPrefixOf_iff_prefix.1 hprefix
    exact hnot rest rfl

/-- A run has a character when its unit does not refuse at once. -/
theorem run_pos {unit? : Text → Option Nat} {c : Char} {rest : Text}
    (h : (unit? (c :: rest)).isSome = true) : 0 < run unit? (c :: rest) := by
  obtain ⟨size, hsize⟩ := Option.isSome_iff_exists.1 h
  simp [run, runFrom, hsize]

theorem runFrom_append (unit? : Text → Option Nat) (unit rest : Text) :
    runFrom unit? unit.length (unit ++ rest) = unit.length + run unit? rest := by
  induction unit with
  | nil => simp [run]
  | cons c unit ih =>
    rw [List.length_cons, List.cons_append, runFrom, ih]
    omega

/-- A run starts with its first unit. -/
theorem run_append {unit? : Text → Option Nat} {unit rest : Text} (hne : unit ≠ [])
    (h : unit? (unit ++ rest) = some unit.length) :
    run unit? (unit ++ rest) = unit.length + run unit? rest := by
  obtain ⟨c, unit, rfl⟩ := List.exists_cons_of_ne_nil hne
  rw [List.cons_append] at h
  rw [run, List.cons_append, runFrom, h]
  dsimp only
  rw [List.length_cons, Nat.add_sub_cancel, runFrom_append]
  omega

theorem run_of_none {unit? : Text → Option Nat} {text : Text} (h : unit? text = none) :
    run unit? text = 0 := by
  cases text with
  | nil => rfl
  | cons c rest => rw [run, runFrom, h]

/-- Body text goes on where neither the line ends nor an interpolation opens. -/
theorem bodyUnit?_isSome {text : Text} (hn : newline? text = none)
    (hi : opensInterpolation text = false) : (bodyUnit? text).isSome = true := by
  unfold bodyUnit?
  simp only [hn, Option.isSome_none, Bool.false_eq_true, if_false]
  unfold opensInterpolation at hi
  split
  · rfl
  · split
    · simp_all
    · split <;> rfl

/-- The contents of a string go on where it neither closes, nor escapes, nor opens an
interpolation. -/
theorem stringUnit?_isSome {d : Dialect} {text : Text} (hc : d.closing.isPrefixOf text = false)
    (he : (if d.readsEscapes then escape? text else none) = none)
    (hi : (d.isFormat && opensInterpolation text) = false) :
    (stringUnit? d text).isSome = true := by
  unfold stringUnit?
  unfold opensInterpolation at hi
  simp only [hc, Bool.false_eq_true, if_false]
  split
  · simp_all
  · split
    · rfl
    · split
      · simp_all
      · rfl

/-- The contents of a command go on where it neither closes nor opens an interpolation. -/
theorem commandUnit?_isSome {indented : Bool} {text : Text}
    (hc : (commandDelimiter indented).isPrefixOf text = false)
    (hi : opensInterpolation text = false) : (commandUnit? indented text).isSome = true := by
  unfold commandUnit?
  unfold opensInterpolation at hi
  simp only [hc, Bool.false_eq_true, if_false]
  split
  · rfl
  · split
    · simp_all
    · rfl

theorem commandDelimiter_length_pos (indented : Bool) : 0 < (commandDelimiter indented).length := by
  cases indented <;> decide

end Measure

/-! ## Delimiters and marks -/

theorem Mark.length_pos (m : Mark) : 0 < m.length := by
  cases m <;> decide

/-- The characters that marks start with. -/
def Mark.starts : List Char :=
  [':', '=', '!', '&', '(', ')', '[', ']', '{', '}', ',', '+', '/', '*', '@', '$', '?']

theorem Mark.mem_starts {c : Char} {rest : Text} {sign : Mark} (h : detect? (c :: rest) = some sign) :
    c ∈ starts := by
  unfold detect? at h
  split at h
  case h_22 => cases h
  all_goals
    next heq =>
      rw [(List.cons.inj heq).1]
      decide

namespace Mark

/-- One of the marks with two characters starts with the character. -/
def startsPair (c : Char) : Bool := c == ':' || c == '=' || c == '!' || c == '&'

/-- Other marks are told by their first character. -/
theorem detect?_of_not_startsPair {c : Char} (h : startsPair c = false) (rest more : Text) :
    detect? (c :: rest) = detect? (c :: more) := by
  by_cases hstart : c ∈ starts
  · simp only [starts, List.mem_cons, List.not_mem_nil, or_false] at hstart
    rcases hstart with rfl | rfl | rfl | rfl | rfl | rfl | rfl | rfl | rfl | rfl | rfl | rfl | rfl |
      rfl | rfl | rfl | rfl
    all_goals first | rfl | cases h
  · have hnone : ∀ rest, detect? (c :: rest) = none := by
      intro rest
      cases hdetect : detect? (c :: rest) with
      | none => rfl
      | some sign => exact absurd (mem_starts hdetect) hstart
    rw [hnone, hnone]

/-- All marks are told by two characters. -/
theorem detect?_congr (c d : Char) (rest more : Text) :
    detect? (c :: d :: rest) = detect? (c :: d :: more) := by
  cases hpair : startsPair c with
  | false => exact detect?_of_not_startsPair hpair _ _
  | true =>
    simp only [startsPair, Bool.or_eq_true, beq_iff_eq] at hpair
    by_cases hsecond : d ∈ [':', '=', '~', '&']
    · simp only [List.mem_cons, List.not_mem_nil, or_false] at hsecond
      rcases hpair with ((rfl | rfl) | rfl) | rfl <;>
        rcases hsecond with rfl | rfl | rfl | rfl <;> rfl
    · simp only [List.mem_cons, List.not_mem_nil, or_false, not_or] at hsecond
      obtain ⟨hcolon, hequals, htilde, hamp⟩ := hsecond
      rcases hpair with ((rfl | rfl) | rfl) | rfl <;>
        simp [detect?, hcolon, hequals, htilde, hamp]

end Mark

theorem Dialect.closing_length_pos (d : Dialect) : 0 < d.closing.length := by
  obtain ⟨letter, quote, indented⟩ := d
  cases indented <;> simp [Dialect.closing]

theorem Dialect.opening_length_pos (d : Dialect) : 0 < d.opening.length := by
  have := d.closing_length_pos
  simp only [Dialect.opening, List.length_append]
  omega

/-- A delimiter with characters is at the front of no empty text. -/
theorem ne_nil_of_isPrefixOf {delimiter text : Text} (hd : 0 < delimiter.length)
    (h : delimiter.isPrefixOf text = true) : text ≠ [] := by
  rintro rfl
  cases delimiter with
  | nil => cases hd
  | cons c rest => cases h

/-! ## Shebang lines -/

namespace Interpreter

/-- The kinds that the pieces of a shebang line have. -/
def isPieceKind : Token.Kind → Bool
  | .whitespace | .shebangFlag | .shebangPath | .language | .shebangRest => true
  | .keyword .envWord => true
  | _ => false

/-- The number of characters of several pieces. -/
def total : List Piece → Nat
  | [] => 0
  | piece :: pieces => piece.2 + total pieces

theorem total_append (front back : List Piece) :
    total (front ++ back) = total front + total back := by
  induction front with
  | nil => simp [total]
  | cons piece front ih => simp [total, ih, Nat.add_assoc]

/-- The pieces come off the front of a text, and none of them is empty. -/
structure Cuts (text : Text) (pieces : List Piece) (rest : Text) : Prop where
  total_add : total pieces + rest.length = text.length
  pos : ∀ piece ∈ pieces, 0 < piece.2 ∧ isPieceKind piece.1 = true

theorem cuts_nil (text : Text) : Cuts text [] text :=
  ⟨by simp [total], by simp⟩

theorem Cuts.append {text middle rest : Text} {front back : List Piece}
    (hf : Cuts text front middle) (hb : Cuts middle back rest) : Cuts text (front ++ back) rest := by
  refine ⟨?_, ?_⟩
  · have h1 := hf.total_add
    have h2 := hb.total_add
    simp only [total_append] at *
    omega
  · intro piece hp
    rcases List.mem_append.1 hp with hp | hp
    · exact hf.pos piece hp
    · exact hb.pos piece hp

/-- One piece of a text that is long enough. -/
theorem cuts_piece {text : Text} {kind : Token.Kind} {size : Nat} (hpos : 0 < size)
    (hle : size ≤ text.length) (hkind : isPieceKind kind = true) :
    Cuts text [(kind, size)] (text.drop size) := by
  refine ⟨?_, ?_⟩
  · simp only [total, List.length_drop]
    omega
  · intro piece hp
    rw [List.mem_singleton] at hp
    subst hp
    exact ⟨hpos, hkind⟩

theorem cuts_blanks (text : Text) : Cuts text (blanks text).1 (blanks text).2 := by
  have hle := Measure.indentation_le text
  unfold blanks
  split
  · exact cuts_nil text
  · next width heq =>
    rw [heq] at hle
    exact cuts_piece (Nat.succ_pos width) hle rfl

theorem cuts_flags (fuel : Nat) (text : Text) : Cuts text (flags fuel text).1 (flags fuel text).2 := by
  induction fuel generalizing text with
  | zero => exact cuts_nil text
  | succ fuel ih =>
    unfold flags
    split
    · next rest heq =>
      cases heq
      have hpos : 0 < Measure.word ('-' :: rest) := by
        simp [Measure.word, Measure.isBlank]
      have hflag : Cuts ('-' :: rest) [(.shebangFlag, Measure.word ('-' :: rest))] _ :=
        cuts_piece hpos (Measure.word_le _) rfl
      have hspace := cuts_blanks (('-' :: rest).drop (Measure.word ('-' :: rest)))
      exact (hflag.append hspace).append (ih _)
    · exact cuts_nil _

theorem directory?_bounds {text : Text} {size : Nat} (h : directory? text = some size) :
    0 < size ∧ size ≤ text.length := by
  unfold directory? at h
  split at h
  · cases h
  · next hne =>
    cases h
    have hdrop := (List.dropWhile_sublist (· != '/')
      (l := (text.take (Measure.word text)).reverse)).length_le
    rw [List.length_reverse, List.length_take] at hdrop
    exact ⟨Nat.pos_of_ne_zero hne, by omega⟩

/-- What follows `env` is cut whole, given that the text starts with that word. -/
theorem cuts_afterEnv {text : Text} (henv : 3 ≤ text.length) {found : List Piece} {rest : Text}
    (h : afterEnv text = some (found, rest)) : Cuts text found rest := by
  unfold afterEnv at h
  have hspace := cuts_blanks (text.drop 3)
  have hflags := cuts_flags text.length (blanks (text.drop 3)).2
  dsimp only at h
  split at h
  · split at h
    · cases h
      exact cuts_piece (by decide) henv rfl
    · cases h
  · next size hsize =>
    cases h
    have hword : Cuts text [(.keyword .envWord, 3)] (text.drop 3) :=
      cuts_piece (by decide) henv rfl
    have hid := Measure.identifier_le (flags text.length (blanks (text.drop 3)).2).2
    rw [hsize] at hid
    have hname : Cuts (flags text.length (blanks (text.drop 3)).2).2
        [(.language, size + 1)] _ := cuts_piece (Nat.succ_pos size) hid rfl
    exact ((hword.append hspace).append hflags).append hname

theorem cuts_name? {text : Text} {found : List Piece} {rest : Text}
    (h : name? text = some (found, rest)) : Cuts text found rest := by
  unfold name? at h
  cases hpath : directory? text with
  | none => simp [hpath] at h
  | some path =>
    obtain ⟨hpos, hle⟩ := directory?_bounds hpath
    have hdir : Cuts text [(.shebangPath, path)] (text.drop path) := cuts_piece hpos hle rfl
    have hid := Measure.identifier_le (text.drop path)
    simp only [hpath, Option.bind_eq_bind, Option.bind_some] at h
    split at h
    · cases h
    · next size hsize =>
      rw [hsize] at hid
      split at h
      · next henv =>
        obtain ⟨⟨pieces, after⟩, hafter, hres⟩ := Option.bind_eq_some_iff.1 h
        cases hres
        have hlen := congrArg List.length (eq_of_beq henv)
        have hthree : Keyword.envWord.spelling.length = 3 := by decide
        rw [List.length_take, hthree] at hlen
        exact hdir.append (cuts_afterEnv (by omega) hafter)
      · cases h
        exact hdir.append (cuts_piece (Nat.succ_pos size) hid rfl)

/-- A shebang line is cut into pieces that are not empty and leave nothing. -/
theorem cuts_pieces (text : Text) : Cuts text (pieces text) [] := by
  unfold pieces
  dsimp only
  have hspace := cuts_blanks text
  have hname : Cuts (blanks text).2 ((name? (blanks text).2).getD ([], (blanks text).2)).1
      ((name? (blanks text).2).getD ([], (blanks text).2)).2 := by
    cases hn : name? (blanks text).2 with
    | none => exact cuts_nil _
    | some found => exact cuts_name? hn
  refine (hspace.append hname).append ?_
  split
  · next hempty =>
    rw [List.isEmpty_iff.1 hempty]
    exact cuts_nil []
  · next hne =>
    have hpos : 0 < ((name? (blanks text).2).getD ([], (blanks text).2)).2.length := by
      rw [List.length_pos_iff]
      intro hnil
      exact hne (by rw [hnil]; rfl)
    have hrest : Cuts _ [(.shebangRest, _)] _ := cuts_piece hpos (Nat.le_refl _) rfl
    rwa [List.drop_length] at hrest

end Interpreter

end Justfile
