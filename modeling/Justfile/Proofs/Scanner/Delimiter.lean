import Justfile.Proofs.Scanner.Flag

/-!
# Delimiters of strings

The dialect of a string can be read off its front. The token that opens a string is the opening
delimiter of its dialect, which the text ahead announces (`WellFormed.opensString_next`), and what
stands behind that delimiter has no part in the dialect (`Dialect.detect?_of_append`). The token that
closes the string is the closing delimiter (`WellFormed.text_of_stringClose`).
-/

set_option autoImplicit false

namespace Justfile

namespace Dialect

/-- The quotes at the front: three of them, or one that is not the first of three. -/
theorem ofQuotes?_iff {letter : Letter} {text : Text} {d : Dialect} :
    ofQuotes? letter text = some d ↔ d.letter = letter ∧ d.closing.isPrefixOf text = true ∧
      (d.indented = false → (List.replicate 3 d.quote.char).isPrefixOf text = false) := by
  constructor
  · intro h
    -- One quote is read only where the pattern of three has failed.
    have hone : ∀ {c : Char} {rest : Text}, (∀ back, rest = c :: c :: back → False) →
        (List.replicate 3 c).isPrefixOf (c :: rest) = false := by
      intro c rest hfails
      rw [← Bool.not_eq_true]
      intro hthree
      obtain ⟨back, hback⟩ := List.isPrefixOf_iff_prefix.1 hthree
      exact hfails back (List.tail_eq_of_cons_eq hback).symm
    rw [ofQuotes?.eq_def] at h
    split at h
    all_goals cases h
    · exact ⟨rfl, rfl, nofun⟩
    · next hfails => exact ⟨rfl, rfl, fun _ => hone hfails⟩
    · exact ⟨rfl, rfl, nofun⟩
    · next hfails => exact ⟨rfl, rfl, fun _ => hone hfails⟩
  · obtain ⟨dletter, quote, indented⟩ := d
    rintro ⟨hletter, hclosing, hthree⟩
    obtain ⟨rest, rfl⟩ := List.isPrefixOf_iff_prefix.1 hclosing
    change dletter = letter at hletter
    subst hletter
    cases indented with
    | true => cases quote <;> rfl
    | false =>
      have hthree := hthree rfl
      rw [ofQuotes?.eq_def]
      cases quote
      all_goals
        split
        all_goals simp_all [closing, Quote.char]

/-- The text starts with the opening delimiter of its dialect. -/
theorem isPrefixOf_of_detect? {text : Text} {d : Dialect} (h : detect? text = some d) :
    d.opening.isPrefixOf text = true := by
  rw [detect?.eq_def] at h
  split at h
  all_goals
    obtain ⟨hletter, hclosing, -⟩ := ofQuotes?_iff.1 h
    rw [opening, hletter]
    exact hclosing

/-- The letter in front of the quotes tells which quotes are read. -/
theorem detect?_opening_append (d : Dialect) (text : Text) :
    detect? (d.opening ++ text) = ofQuotes? d.letter (d.closing ++ text) := by
  obtain ⟨letter, quote, indented⟩ := d
  cases letter <;> cases quote <;> cases indented <;> rfl

theorem detect?_opening_append_iff {text : Text} {d : Dialect} :
    detect? (d.opening ++ text) = some d ↔
      (d.indented = false → (List.replicate 3 d.quote.char).isPrefixOf (d.closing ++ text) =
        false) := by
  rw [detect?_opening_append, ofQuotes?_iff]
  have hclosing : d.closing.isPrefixOf (d.closing ++ text) = true :=
    List.isPrefixOf_iff_prefix.2 (List.prefix_append ..)
  simp only [hclosing, true_and]

/-- What stands behind a text that starts with the opening delimiter has no part in the dialect. -/
theorem detect?_of_append {front back : Text} {d : Dialect}
    (h : detect? (d.opening ++ (front ++ back)) = some d) :
    detect? (d.opening ++ front) = some d := by
  rw [detect?_opening_append_iff] at h ⊢
  intro hindented
  have hthree := h hindented
  rw [← Bool.not_eq_true, List.isPrefixOf_iff_prefix] at hthree ⊢
  intro hfront
  apply hthree
  rw [← List.append_assoc]
  exact hfront.trans (List.prefix_append ..)

end Dialect

namespace Scanner

variable {s : Scanner} {mode : Mode} {out : Token × Scanner} {d : Dialect}

/-! ## Opening a string -/

/-- A token that opens a string is the delimiter that the text ahead starts with. -/
def OpensString (s : Scanner) (token : Token) : Prop :=
  ∀ d, token.kind = .stringOpen d → token.text = d.opening ∧ Dialect.detect? s.rest = some d

theorem opensString_openLiteral (hdialect : Dialect.detect? s.rest = some d) :
    s.OpensString (s.openLiteral (.stringOpen d) d.opening.length).1 := by
  rintro other hkind
  cases hkind
  obtain ⟨back, hback⟩ := List.isPrefixOf_iff_prefix.1 (Dialect.isPrefixOf_of_detect? hdialect)
  refine ⟨?_, hdialect⟩
  change s.rest.take d.opening.length = d.opening
  rw [← hback, List.take_left]

theorem opensString_normalToken (s : Scanner) (c : Char) : s.OpensString (s.normalToken c).1 := by
  rw [normalToken.eq_def]
  dsimp only
  repeat' split
  all_goals first
    | exact opensString_openLiteral ‹_›
    | exact nofun

theorem opensString_normal (s : Scanner) : s.OpensString s.normal.1 := by
  rw [normal.eq_def]
  repeat' split
  · exact nofun
  · exact nofun
  · exact nofun
  · exact opensString_normalToken s _

theorem opensString_bodyStart (s : Scanner) : s.OpensString s.bodyStart.1 := by
  rw [bodyStart.eq_def]
  dsimp only
  repeat' split
  · exact nofun
  · exact nofun
  · exact opensString_normal s

theorem WellFormed.opensString_next (wf : s.WellFormed) (mode : Mode) :
    s.OpensString (s.next mode).1 := by
  intro d hkind
  have hopens : (s.next mode).1.kind.opensLiteral = true := by rw [hkind]; rfl
  obtain ⟨-, -, ready, -, -, hmode, -⟩ := (step_next s mode).opensLiteral_inv wf hopens
  rw [ready.next_eq] at hkind ⊢
  rcases hmode with rfl | rfl
  · exact opensString_normal s d hkind
  · exact opensString_bodyStart s d hkind

/-! ## Closing a string -/

/-- Only the contents of a string close it. -/
theorem Step.ready_of_stringClose (wf : s.WellFormed) (step : s.Step mode out)
    (hkind : out.1.kind = .stringClose d) : s.Ready ∧ mode = .stringContent d := by
  have hflag : out.1.kind.flag? = some true := by rw [hkind]; rfl
  rcases step.flag_cases wf with ⟨hnone, -⟩ | ⟨kind, size, -, -, -, hopens, -, rfl⟩ |
    ⟨kind, size, ready, hcloses, rfl⟩ | ⟨fault, -, -, -, rfl⟩
  · rw [hnone] at hflag
    cases hflag
  · cases ((Token.Kind.flag?_eq_false_iff _).2 hopens).symm.trans hflag
  · obtain rfl : kind = .stringClose d := hkind
    refine ⟨ready, ?_⟩
    cases mode <;> cases hcloses
    rfl
  · cases hkind

/-- A token that closes a string is the closing delimiter. -/
theorem WellFormed.text_of_stringClose (wf : s.WellFormed)
    (hkind : (s.next mode).1.kind = .stringClose d) : (s.next mode).1.text = d.closing := by
  obtain ⟨ready, rfl⟩ := (step_next s mode).ready_of_stringClose wf hkind
  rw [ready.next_eq] at hkind ⊢
  change (s.stringContent d).1.kind = _ at hkind
  change (s.stringContent d).1.text = _
  rw [stringContent.eq_def, content.eq_def, Scanner.unterminated.eq_def] at hkind ⊢
  dsimp only at hkind ⊢
  split at hkind
  · next hclose =>
    obtain ⟨back, hback⟩ := List.isPrefixOf_iff_prefix.1 hclose
    rw [if_pos hclose]
    change s.rest.take d.closing.length = d.closing
    rw [← hback, List.take_left]
  · repeat' split at hkind
    all_goals cases hkind

end Scanner

end Justfile
