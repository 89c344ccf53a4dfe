import Justfile.Token.Scanner

/-!
# Tokens tile the source

Whatever the mode, a step of the scanner takes its token off the front of what is left, and the
token's span runs from the offset before the step to the offset after it (`takes_next`). The proof
follows the scanner: a token with characters comes from `emit`, and one without leaves the rest and
the offset as they are.
-/

set_option autoImplicit false

namespace Justfile.Scanner

/-- The token of a step is the front of what was left, and its span lies between the offsets. -/
structure Takes (s : Scanner) (step : Token × Scanner) : Prop where
  text_append_rest : step.1.text ++ step.2.rest = s.rest
  span_eq : step.1.span = ⟨s.offset, step.2.offset⟩
  offset_eq : step.2.offset = s.offset + Text.byteSize step.1.text

/-! ## The two ways to make a token -/

/-- Characters that are emitted come off the front. -/
theorem takes_emit (s : Scanner) (kind : Token.Kind) (size : Nat) : s.Takes (s.emit kind size) :=
  ⟨List.take_append_drop size s.rest, rfl, rfl⟩

/-- What the scanner remembers has no part in the characters that are emitted. -/
theorem takes_emit_of_eq {s t : Scanner} (rest : t.rest = s.rest) (offset : t.offset = s.offset)
    (kind : Token.Kind) (size : Nat) : s.Takes (t.emit kind size) := by
  have h := takes_emit t kind size
  exact ⟨rest ▸ h.text_append_rest, offset ▸ h.span_eq, offset ▸ h.offset_eq⟩

/-- A token without characters takes nothing. -/
theorem takes_mark {s t u : Scanner} (offset : t.offset = s.offset) (rest : u.rest = s.rest)
    (stays : u.offset = s.offset) (kind : Token.Kind) (indent : Option Nat) :
    s.Takes (t.mark kind indent, u) :=
  ⟨rest, by simp [mark, Span.empty, offset, stays], by simp [mark, stays]⟩

/-! ## Each mode -/

theorem takes_shebang {s t : Scanner} (rest : t.rest = s.rest) (offset : t.offset = s.offset) :
    s.Takes t.shebang := by
  apply takes_emit_of_eq
  · exact rest
  · exact offset

theorem takes_closeLiteral (s : Scanner) (kind : Token.Kind) (size : Nat) :
    s.Takes (s.closeLiteral kind size) := by
  apply takes_emit_of_eq <;> rfl

theorem takes_normalToken (s : Scanner) (c : Char) : s.Takes (s.normalToken c) := by
  unfold normalToken openLiteral unexpected
  dsimp only
  repeat' split
  all_goals apply takes_emit_of_eq <;> rfl

theorem takes_normal (s : Scanner) : s.Takes s.normal := by
  unfold normal
  repeat' split
  · exact takes_mark rfl rfl rfl _ _
  · exact takes_shebang rfl rfl
  · exact takes_emit ..
  · exact takes_normalToken ..

theorem takes_unterminated (s : Scanner) (fault : Fault) : s.Takes (s.unterminated fault) := by
  unfold unterminated
  split
  · exact takes_mark rfl rfl rfl _ _
  · exact takes_closeLiteral ..

theorem takes_content (s : Scanner) (kind : Token.Kind) (fault : Fault)
    (unit? : Text → Option Nat) : s.Takes (s.content kind fault unit?) := by
  unfold content
  dsimp only
  split
  · exact takes_unterminated ..
  · exact takes_emit ..

theorem takes_stringContent (s : Scanner) (d : Dialect) : s.Takes (s.stringContent d) := by
  unfold stringContent
  repeat' split
  · exact takes_closeLiteral ..
  · exact takes_unterminated ..
  · exact takes_emit ..
  · exact takes_emit ..
  · exact takes_content ..

theorem takes_commandContent (s : Scanner) (indented : Bool) :
    s.Takes (s.commandContent indented) := by
  unfold commandContent
  dsimp only
  repeat' split
  · exact takes_closeLiteral ..
  · exact takes_unterminated ..
  · exact takes_emit ..
  · exact takes_content ..

theorem takes_bodyStart (s : Scanner) : s.Takes s.bodyStart := by
  unfold bodyStart
  dsimp only
  repeat' split
  · exact takes_emit ..
  · apply takes_mark <;> rfl
  · exact takes_normal s

theorem takes_dedentTo (s : Scanner) (width : Nat) : s.Takes (s.dedentTo width) := by
  apply takes_mark <;> rfl

theorem takes_bodyContent {s t : Scanner} (rest : t.rest = s.rest) (offset : t.offset = s.offset) :
    s.Takes t.bodyContent := by
  unfold bodyContent
  repeat' split
  all_goals exact takes_emit_of_eq rest offset _ _

theorem takes_bodyLine {s t : Scanner} (rest : t.rest = s.rest) (offset : t.offset = s.offset) :
    s.Takes t.bodyLine := by
  unfold bodyLine
  dsimp only
  repeat' split
  · exact takes_shebang rest offset
  · apply takes_emit_of_eq
    · exact rest
    · exact offset
  · exact takes_bodyContent rest offset
  · exact takes_bodyContent rest offset

theorem takes_body (s : Scanner) : s.Takes s.body := by
  unfold body
  dsimp only
  repeat' split
  · exact takes_mark rfl rfl rfl _ _
  · apply takes_mark <;> rfl
  · exact takes_emit ..
  · exact takes_bodyLine rfl rfl
  · exact takes_dedentTo ..
  · apply takes_emit_of_eq <;> rfl
  · apply takes_bodyLine <;> rfl
  · exact takes_bodyLine rfl rfl

/-! ## Any step -/

/-- In every mode a step takes its token off the front of what is left. -/
theorem takes_next (s : Scanner) (mode : Mode) : s.Takes (s.next mode) := by
  unfold next
  repeat' split
  · apply takes_emit_of_eq <;> rfl
  · exact takes_emit ..
  · apply takes_mark <;> rfl
  · apply takes_emit_of_eq <;> rfl
  · exact takes_normal s
  · exact takes_bodyStart s
  · exact takes_body s
  · exact takes_stringContent ..
  · exact takes_commandContent ..

end Justfile.Scanner
