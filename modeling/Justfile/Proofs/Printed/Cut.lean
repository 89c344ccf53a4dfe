import Justfile.Proofs.Printed.Layout
import Justfile.Proofs.Scanner.Step

/-!
# Cutting printed text

Which token the scanner cuts off the front of a printed text. `Cut mode kind word after` says that
the characters `word` in front of `after` are a token of the kind, whatever the scanner remembers of
other tokens. There is one lemma for each sort of token that is printed: marks, words and line
breaks. Blanks have a lemma of their own (`Scanner.Ready.next_blank`), since they are trivia.
-/

set_option autoImplicit false

namespace Justfile

/-- Whether the kind counts for the grammar, and is neither the end of the input nor a fault. -/
def Token.Kind.isRegular (kind : Token.Kind) : Bool :=
  !kind.isTrivia && kind != .endOfInput && !kind.isErrorRecovery

theorem Token.Kind.isRegular_iff (kind : Token.Kind) :
    kind.isRegular = true ↔
      kind.isTrivia = false ∧ kind ≠ .endOfInput ∧ kind.isErrorRecovery = false := by
  simp [Token.Kind.isRegular, and_assoc]

/-- Whether a word that ends here is an identifier as it stands: no character continues it, and no
quote makes it the letter of a string. -/
def Measure.endsWord : Text → Bool
  | [] => true
  | c :: _ => !Measure.continuesIdentifier c && c != '"' && c != '\''

namespace Mark

/-- Whether a mark is read as itself, whatever follows it. -/
def isAlone : Mark → Bool
  | colon | equals => false
  | _ => true

theorem detect?_append {sign : Mark} (h : sign.isAlone = true) (after : Text) :
    detect? (sign.name.toList ++ after) = some sign := by
  cases sign
  case colon | equals => cases h
  all_goals rfl

/-- No mark continues a word in front of it. -/
theorem endsWord_append (sign : Mark) (after : Text) :
    Measure.endsWord (sign.name.toList ++ after) = true := by
  cases sign <;> rfl

end Mark

namespace Scanner

/-! ## Item level, by the first character -/

section Ready

variable {s : Scanner} {c : Char} {rest : Text}

theorem Ready.normal_eq (ready : s.Ready) : s.next .normal = s.normal := ready.next_eq .normal

/-- Away from line breaks and shebang lines the first character decides. -/
theorem Ready.next_char (ready : s.Ready) (hrest : s.rest = c :: rest) (hc : c ≠ '#')
    (hline : Measure.newline? (c :: rest) = none) : s.next .normal = s.normalToken c := by
  have hshebang : (s.offset == s.base && ['#', '!'].isPrefixOf (c :: rest)) = false := by
    simp [List.isPrefixOf, hc.symm]
  rw [ready.normal_eq]
  simp [normal, hrest, hshebang, hline]

theorem Ready.next_newline (ready : s.Ready) (hrest : s.rest = '\n' :: rest) :
    s.next .normal = s.emit .newline 1 := by
  have hshebang : (s.offset == s.base && ['#', '!'].isPrefixOf ('\n' :: rest)) = false := by
    simp [List.isPrefixOf]
  rw [ready.normal_eq]
  simp [normal, hrest, hshebang, Measure.newline?]

theorem Ready.next_blank (ready : s.Ready) (hrest : s.rest = ' ' :: rest)
    (hsolid : Measure.blanks rest = 0) : s.next .normal = s.emit .whitespace 1 := by
  rw [ready.next_char hrest (by decide) (by simp [Measure.newline?])]
  simp [normalToken, hrest, Measure.blanks, hsolid]

/-- A character that no string starts with. -/
theorem detect?_of_ne (h : c ≠ 'x' ∧ c ≠ 'f' ∧ c ≠ '"' ∧ c ≠ '\'') :
    Dialect.detect? (c :: rest) = none := by
  obtain ⟨hshell, hformat, hdouble, hsingle⟩ := h
  simp [Dialect.detect?, Dialect.ofQuotes?, hshell, hformat, hdouble, hsingle]

/-- The characters of a mark have no other reading. -/
theorem Ready.next_mark (ready : s.Ready) {sign : Mark} (hrest : s.rest = c :: rest)
    (hsign : Mark.detect? (c :: rest) = some sign) :
    s.next .normal = s.emit (.mark sign) sign.length := by
  have hstart := Mark.mem_starts hsign
  have hother : ∀ c ∈ Mark.starts, c ≠ '#' ∧ c ≠ '\n' ∧ c ≠ '\r' ∧ c ≠ ' ' ∧ c ≠ '\t' ∧ c ≠ '\\' ∧
      c ≠ '\x60' ∧ c.isDigit = false ∧ Measure.startsIdentifier c = false := by
    simp [Mark.starts, Measure.startsIdentifier]
  have hquotes : ∀ c ∈ Mark.starts, c ≠ 'x' ∧ c ≠ 'f' ∧ c ≠ '"' ∧ c ≠ '\'' := by
    simp [Mark.starts]
  obtain ⟨hhash, hfeed, hreturn, hspace, htab, hback, htick, hdigit, hword⟩ := hother c hstart
  have hdialect : Dialect.detect? (c :: rest) = none := detect?_of_ne (hquotes c hstart)
  have hline : Measure.newline? (c :: rest) = none := by simp [Measure.newline?, hfeed, hreturn]
  rw [ready.next_char hrest hhash hline]
  simp [normalToken, hrest, hsign, hhash, hreturn, hspace, htab, hback, htick, hdigit, hword,
    hdialect]

end Ready

/-! ## Cuts -/

/-- The word in front of the text is a token of the kind. At item level it starts with no blank. -/
structure Cut (mode : Mode) (kind : Token.Kind) (word after : Text) : Prop where
  next : ∀ s : Scanner, s.Ready → s.rest = word ++ after →
    ∃ flag, s.next mode = { s with literalClosed := flag }.emit kind word.length
  solid : mode = .normal → Measure.blanks (word ++ after) = 0
  regular : kind.isRegular = true

theorem cut_newline (after : Text) : Cut .normal .newline ['\n'] after :=
  ⟨fun s ready hrest => ⟨s.literalClosed, ready.next_newline hrest⟩, fun _ => rfl, rfl⟩

theorem cut_mark {sign : Mark} {after : Text}
    (h : Mark.detect? (sign.name.toList ++ after) = some sign) :
    Cut .normal (.mark sign) sign.name.toList after := by
  obtain ⟨c, tail, hspell⟩ : ∃ c tail, sign.name.toList = c :: tail := by
    cases sign <;> exact ⟨_, _, rfl⟩
  rw [hspell, List.cons_append] at h
  refine ⟨?_, ?_, rfl⟩
  · intro s ready hrest
    rw [hspell, List.cons_append] at hrest
    refine ⟨s.literalClosed, ?_⟩
    rw [ready.next_mark hrest h, Mark.length_toList_name]
  · intro _
    rw [hspell, List.cons_append]
    have hsolid : ∀ c ∈ Mark.starts, c ≠ ' ' ∧ c ≠ '\t' ∧ c ≠ '\r' := by simp [Mark.starts]
    obtain ⟨hspace, htab, hreturn⟩ := hsolid c (Mark.mem_starts h)
    simp [Measure.blanks, hspace, htab, hreturn]

end Scanner

/-! ## Words -/

namespace Printed

open Justfile.Measure

theorem Word.cons (w : Word) :
    ∃ c rest, w.text = c :: rest ∧ startsIdentifier c = true ∧
      ∀ d ∈ rest, continuesIdentifier d = true := by
  obtain ⟨text, hne, hwhole⟩ := w
  cases text with
  | nil => exact absurd rfl hne
  | cons c rest =>
    refine ⟨c, rest, rfl, ?_⟩
    simp only [identifier, List.length_cons] at hwhole
    split at hwhole
    · next hstart =>
      refine ⟨hstart, ?_⟩
      have hlen : (rest.takeWhile continuesIdentifier).length = rest.length := by omega
      have hall : rest.takeWhile continuesIdentifier = rest :=
        (List.takeWhile_prefix _).eq_of_length hlen
      intro d hd
      rw [← hall] at hd
      exact List.all_eq_true.1 (List.all_takeWhile) d hd
    · omega

/-- A word is as long in front of other text as alone. -/
theorem Word.identifier_append (w : Word) {after : Text} (h : endsWord after = true) :
    identifier (w.text ++ after) = w.text.length := by
  obtain ⟨c, rest, htext, hstart, hall⟩ := w.cons
  have hafter : after.takeWhile continuesIdentifier = [] := by
    cases after with
    | nil => rfl
    | cons d after =>
      have hd : continuesIdentifier d = false := by
        simp [endsWord] at h
        exact h.1.1
      simp [hd]
  rw [htext, List.cons_append, identifier, if_pos hstart, List.takeWhile_append_of_pos hall, hafter]
  simp

/-- A word is not taken for the start of a string. -/
theorem Word.detect?_append (w : Word) {after : Text} (h : endsWord after = true) :
    Dialect.detect? (w.text ++ after) = none := by
  obtain ⟨c, rest, htext, hstart, hall⟩ := w.cons
  -- Neither the character after the first one is a quote nor the first one itself.
  have hquotes : ∀ letter, Dialect.ofQuotes? letter (rest ++ after) = none := by
    intro letter
    have hhead : ∀ d tail, rest ++ after = d :: tail → d ≠ '"' ∧ d ≠ '\'' := by
      intro d tail heq
      cases rest with
      | nil =>
        rw [List.nil_append] at heq
        rw [heq] at h
        simp [endsWord] at h
        exact ⟨h.1.2, h.2⟩
      | cons e rest =>
        cases heq
        have he := hall d List.mem_cons_self
        refine ⟨?_, ?_⟩ <;>
        · rintro rfl
          revert he
          decide
    unfold Dialect.ofQuotes?
    split
    all_goals first | rfl | (next heq => exact absurd rfl (hhead _ _ heq).1) |
      (next heq => exact absurd rfl (hhead _ _ heq).2)
  have hfirst : Dialect.ofQuotes? .plain (c :: (rest ++ after)) = none := by
    have hc : c ≠ '"' ∧ c ≠ '\'' := by
      refine ⟨?_, ?_⟩ <;>
      · rintro rfl
        revert hstart
        decide
    simp [Dialect.ofQuotes?, hc.1, hc.2]
  rw [htext, List.cons_append]
  unfold Dialect.detect?
  split
  · next heq =>
    cases heq
    exact hquotes _
  · next heq =>
    cases heq
    exact hquotes _
  · exact hfirst

end Printed

namespace Scanner

open Printed

theorem cut_word (w : Word) {after : Text} (h : Measure.endsWord after = true) :
    Cut .normal .identifier w.text after := by
  obtain ⟨c, rest, htext, hstart, hall⟩ := w.cons
  have hc : c ≠ '#' ∧ c ≠ '\n' ∧ c ≠ '\r' ∧ c ≠ ' ' ∧ c ≠ '\t' ∧ c ≠ '\\' ∧ c ≠ '\x60' := by
    refine ⟨?_, ?_, ?_, ?_, ?_, ?_, ?_⟩ <;>
    · rintro rfl
      revert hstart
      decide
  obtain ⟨hhash, hfeed, hreturn, hspace, htab, hback, htick⟩ := hc
  refine ⟨?_, ?_, rfl⟩
  · intro s ready hrest
    have hidentifier := w.identifier_append h
    have hdialect := w.detect?_append h
    rw [← hrest] at hidentifier hdialect
    rw [htext, List.cons_append] at hrest
    have hline : Measure.newline? (c :: (rest ++ after)) = none := by
      simp [Measure.newline?, hfeed, hreturn]
    refine ⟨s.literalClosed, ?_⟩
    rw [ready.next_char hrest hhash hline]
    simp [normalToken, hidentifier, hdialect, hstart, hhash, hreturn, hspace, htab, hback, htick,
      Measure.not_isDigit_of_startsIdentifier hstart]
  · intro _
    rw [htext, List.cons_append]
    simp [Measure.blanks, hspace, htab, hreturn]

end Scanner

end Justfile
