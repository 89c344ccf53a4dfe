import Justfile.Proofs.Scanner.Step

/-!
# What is remembered of a body line

Where the contents of a body line start is remembered when its indentation is taken, and is forgotten
or kept by all other steps (`Scanner.recalls_next`).
-/

set_option autoImplicit false

namespace Justfile.Scanner

variable {s t u : Scanner}

/-- What the later scanner remembers of the line was remembered before, or is the end of the indentation
in front of further characters of the line. -/
def Recalls (s t : Scanner) : Prop :=
  ∀ start ∈ t.lineContent, start ∈ s.lineContent ∨
    (start = s.offset + s.top ∧ s.top ≤ Measure.indentation s.rest ∧
      Measure.atLineEnd (s.rest.drop (Measure.indentation s.rest)) = false ∧ start ≤ t.offset)

theorem recalls_refl (s : Scanner) : s.Recalls s := fun _ => .inl

/-- Emitting a token forgets nothing and adds nothing, as long as the line stays the one it was. -/
theorem recalls_emit (h : s.Recalls t) (content : u.lineContent = t.lineContent)
    (offset : u.offset = t.offset) (kind : Token.Kind) (size : Nat) :
    s.Recalls (u.emit kind size).2 := by
  intro start hstart
  change start ∈ u.lineContent at hstart
  rw [content] at hstart
  refine (h start hstart).imp_right fun ⟨heq, htop, hend, hle⟩ => ⟨heq, htop, hend, ?_⟩
  rw [← offset] at hle
  exact Nat.le_trans hle (Nat.le_add_right _ _)

theorem recalls_normalToken (h : s.Recalls t) (c : Char) : s.Recalls (t.normalToken c).2 := by
  unfold normalToken openLiteral unexpected
  dsimp only
  repeat' split
  all_goals apply recalls_emit h <;> rfl

/-- Outside of literals and bodies nothing is remembered of the line that was not before. -/
theorem recalls_normal (h : s.Recalls t) : s.Recalls t.normal.2 := by
  unfold normal
  repeat' split
  · exact h
  · apply recalls_emit h <;> rfl
  · apply recalls_emit h <;> rfl
  · exact recalls_normalToken h _

theorem recalls_unterminated (h : s.Recalls t) (fault : Fault) :
    s.Recalls (t.unterminated fault).2 := by
  unfold unterminated
  split
  · exact h
  · apply recalls_emit h <;> rfl

/-- The content of a literal is read without a look at the line. -/
theorem recalls_content (h : s.Recalls t) (kind : Token.Kind) (fault : Fault)
    (unit? : Text → Option Nat) : s.Recalls (t.content kind fault unit?).2 := by
  unfold content
  dsimp only
  split
  · exact recalls_unterminated h fault
  · apply recalls_emit h <;> rfl

/-- A string keeps the line that it stands in. -/
theorem recalls_stringContent (h : s.Recalls t) (d : Dialect) :
    s.Recalls (t.stringContent d).2 := by
  unfold stringContent
  repeat' split
  · apply recalls_emit h <;> rfl
  · exact recalls_unterminated h _
  · apply recalls_emit h <;> rfl
  · apply recalls_emit h <;> rfl
  · exact recalls_content h _ _ _

/-- A command keeps the line that it stands in. -/
theorem recalls_commandContent (h : s.Recalls t) (indented : Bool) :
    s.Recalls (t.commandContent indented).2 := by
  unfold commandContent
  dsimp only
  repeat' split
  · apply recalls_emit h <;> rfl
  · exact recalls_unterminated h _
  · apply recalls_emit h <;> rfl
  · exact recalls_content h _ _ _

/-- The start of a body remembers nothing of its line. -/
theorem recalls_bodyStart (h : s.Recalls t) : s.Recalls t.bodyStart.2 := by
  unfold bodyStart
  dsimp only
  repeat' split
  · apply recalls_emit h <;> rfl
  · exact h
  · exact recalls_normal h

theorem recalls_bodyContent (h : s.Recalls t) : s.Recalls t.bodyContent.2 := by
  unfold bodyContent
  repeat' split
  all_goals apply recalls_emit h <;> rfl

/-- A line of a body is kept to its end and then forgotten. -/
theorem recalls_bodyLine (h : s.Recalls t) : s.Recalls t.bodyLine.2 := by
  have hentered : s.Recalls { t with lineContent := none, firstBodyLine := false } := nofun
  unfold bodyLine
  dsimp only
  repeat' split
  · apply recalls_emit hentered <;> rfl
  · apply recalls_emit hentered <;> rfl
  · exact recalls_bodyContent hentered
  · exact recalls_bodyContent h

/-- A body remembers of a line where the indentation of the body ends, if the line goes on there. -/
theorem recalls_body (s : Scanner) : s.Recalls s.body.2 := by
  have h := recalls_refl s
  unfold body
  dsimp only
  repeat' split
  · exact h
  · exact h
  · apply recalls_emit h <;> rfl
  · exact recalls_bodyLine h
  · exact h
  · -- The contents start behind the blanks that are taken.
    next hend hwide _ =>
    rintro content ⟨⟩
    have hle := Nat.le_of_not_lt hwide
    refine .inr ⟨rfl, hle, Bool.eq_false_iff.2 hend, ?_⟩
    change s.offset + s.top ≤ s.offset + Text.byteSize (s.rest.take s.top)
    exact Nat.le_of_eq (by rw [Measure.byteSize_take_of_le_indentation hle])
  · next hend hwide hnone =>
    apply recalls_bodyLine
    rintro content ⟨⟩
    refine .inr ⟨rfl, Nat.le_of_not_lt hwide, Bool.eq_false_iff.2 hend, ?_⟩
    change s.offset + s.top ≤ s.offset
    omega
  · exact recalls_bodyLine h

/-- **What a step remembers of a line is where its indentation ends**, or was remembered before. -/
theorem recalls_next (s : Scanner) (mode : Mode) : s.Recalls (s.next mode).2 := by
  have h := recalls_refl s
  unfold Scanner.next
  repeat' split
  · apply recalls_emit h <;> rfl
  · apply recalls_emit h <;> rfl
  · exact h
  · apply recalls_emit h <;> rfl
  · exact recalls_normal h
  · exact recalls_bodyStart h
  · exact recalls_body s
  · exact recalls_stringContent h _
  · exact recalls_commandContent h _

end Justfile.Scanner
