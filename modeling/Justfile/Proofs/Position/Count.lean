import Justfile.Proofs.Position.Line
import Mathlib.Data.List.Induction

/-!
# Positions and the characters in front of them

The characters that end at or before an offset (`Text.upTo`) decide its position: their line feeds give
the line, and what stands behind the last line feed gives the column (`position_eq_upTo`). Beyond the
end of the text the position is that of the end.

Inside a character the column is one more: the offset is taken for the end of the character and not for
its start.
-/

set_option autoImplicit false

namespace Justfile

namespace Text

/-- The characters that end at or before the offset. -/
def upTo : Text → Nat → Text
  | [], _ => []
  | c :: rest, offset => if c.utf8Size ≤ offset then c :: upTo rest (offset - c.utf8Size) else []

/-- What stands behind the last line feed. -/
def lastLine (text : Text) : Text := (text.reverse.takeWhile (· ≠ '\n')).reverse

/-- Either the whole text ends at or before the offset, or the next character ends behind it. -/
theorem exists_append_of_upTo (text : Text) (offset : Nat) :
    ∃ back, text = text.upTo offset ++ back ∧ (text.upTo offset).byteSize ≤ offset ∧
      ∀ c rest, back = c :: rest → offset < (text.upTo offset).byteSize + c.utf8Size := by
  induction text generalizing offset with
  | nil => exact ⟨[], rfl, Nat.zero_le offset, nofun⟩
  | cons c text ih =>
    unfold upTo
    split
    · next hfits =>
      obtain ⟨back, htext, hle, hnext⟩ := ih (offset - c.utf8Size)
      refine ⟨back, congrArg (c :: ·) htext, ?_, fun d rest hback => ?_⟩
      · rw [byteSize_cons]
        omega
      · have hlt := hnext d rest hback
        rw [byteSize_cons]
        omega
    · next hcut =>
      refine ⟨c :: text, rfl, Nat.zero_le offset, fun d rest hback => ?_⟩
      obtain ⟨rfl, -⟩ := List.cons.inj hback
      rw [byteSize_nil, Nat.zero_add]
      exact Nat.lt_of_not_le hcut

theorem lastLine_concat (text : Text) (c : Char) :
    lastLine (text ++ [c]) = if c = '\n' then [] else lastLine text ++ [c] := by
  unfold lastLine
  rw [List.reverse_concat, List.takeWhile_cons]
  by_cases hc : c = '\n'
  · rw [if_pos hc, if_neg (by simp [hc])]
    rfl
  · rw [if_neg hc, if_pos (by simp [hc]), List.reverse_cons]

end Text

/-- From the start of a text, the line feeds and the characters behind the last one are counted. -/
theorem Position.foldl_advance_start (text : Text) :
    text.foldl advance ⟨1, 1⟩ = ⟨1 + text.count '\n', 1 + text.lastLine.length⟩ := by
  induction text using List.reverseRecOn with
  | nil => rfl
  | append_singleton text c ih =>
    rw [List.foldl_append, ih, List.foldl_cons, List.foldl_nil, advance, List.count_append,
      Text.lastLine_concat]
    by_cases hc : c = '\n'
    · rw [if_pos hc, if_pos hc, hc, List.count_singleton_self, Nat.add_assoc]
      rfl
    · rw [if_neg hc, if_neg hc, List.count_singleton, if_neg (by simpa using hc),
        List.length_append, List.length_singleton, Nat.add_assoc]
      rfl

namespace LineIndex

/-- An offset that lies within the next character is taken for the end of that character, which is
no line feed since it has several bytes. -/
theorem after_of_lt_utf8Size {p : Position} {c : Char} {rest : Text} {offset : Nat}
    (h : offset < c.utf8Size) :
    p.after (c :: rest) offset = ⟨p.line, p.column + if offset = 0 then 0 else 1⟩ := by
  rw [Position.after]
  by_cases hzero : offset = 0
  · rw [if_pos hzero, if_pos hzero]
    rfl
  · have hc : c ≠ '\n' := by
      rintro rfl
      exact hzero (Nat.lt_one_iff.1 h)
    rw [if_neg hzero, if_neg hzero, Nat.sub_eq_zero_of_le (Nat.le_of_lt h), Position.after_zero,
      Position.advance, if_neg hc]

/-- The position of an offset: the line feeds in front of it give the line, and the characters behind
the last one the column. The characters in front of it are those that end at or before it; they reach
to the offset, or to the end of the text when the offset lies beyond, unless the offset lies inside a
character. Then the column is that behind the character. -/
theorem position_eq_upTo (text : Text) (offset : Nat) :
    (ofText text).position text offset =
      ⟨1 + (text.upTo offset).count '\n', 1 + (text.upTo offset).lastLine.length +
        if (text.upTo offset).byteSize = min offset text.byteSize then 0 else 1⟩ := by
  obtain ⟨back, htext, hle, hnext⟩ := text.exists_append_of_upTo offset
  obtain ⟨inside, hinside⟩ := Nat.exists_eq_add_of_le hle
  generalize text.upTo offset = front at *
  subst htext hinside
  rw [position_eq_after, Position.after_append_add, Position.foldl_advance_start, Text.byteSize_append]
  cases back with
  | nil =>
    rw [Text.byteSize_nil, Nat.add_zero, if_pos (Nat.min_eq_right (Nat.le_add_right _ _)).symm]
    rfl
  | cons c rest =>
    have hlt : inside < c.utf8Size := Nat.lt_of_add_lt_add_left (hnext c rest rfl)
    have hreached : front.byteSize = min (front.byteSize + inside)
        (front.byteSize + Text.byteSize (c :: rest)) ↔ inside = 0 := by
      rw [Text.byteSize_cons]
      omega
    rw [after_of_lt_utf8Size hlt]
    simp only [hreached]

/-- Inside a letter of two bytes: no character ends at or before the offset, and yet its position is
not that of the letter. -/
theorem position_inside_letter :
    Text.upTo ['é'] 1 = [] ∧ (ofText ['é']).position ['é'] 1 = ⟨1, 2⟩ ∧
      (ofText ['é']).position ['é'] 1 ≠
        ⟨1 + (Text.upTo ['é'] 1).count '\n', 1 + (Text.upTo ['é'] 1).lastLine.length⟩ := by
  decide

end LineIndex

end Justfile
