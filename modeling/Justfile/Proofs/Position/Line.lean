import Justfile.Proofs.Position

/-!
# Lines and positions

Every place of a text lies in a line (`exists_isLine_around`), and both conversions are read off it. The
position of a place is the number of the line and the number of characters between the start of the line
and the place (`IsLine.position_place`). A position exists as far as the line can be seen, and gives that
place back (`IsLine.offset?_place`).

So the offset of a position has that position (`position_of_offset?`), and a place has the offset of its
position unless it stands behind a carriage return that no other character of its line follows
(`offset?_position`).
-/

set_option autoImplicit false

namespace Justfile

/-! ## Counting over stretches -/

namespace Position

/-- Behind a whole text, counting goes on in what follows. -/
theorem after_append_add (p : Position) (front back : Text) (offset : Nat) :
    p.after (front ++ back) (front.byteSize + offset) = (front.foldl advance p).after back offset := by
  induction front generalizing p with
  | nil =>
    rw [Text.byteSize_nil, Nat.zero_add]
    rfl
  | cons c front ih =>
    have hsize := c.utf8Size_pos
    have hoffset : c.utf8Size + Text.byteSize front + offset - c.utf8Size =
        Text.byteSize front + offset := by omega
    rw [List.cons_append, Text.byteSize_cons, after, if_neg (by omega), hoffset, ih]
    rfl

theorem after_append (p : Position) (front back : Text) :
    p.after (front ++ back) front.byteSize = front.foldl advance p := by
  have hall := after_append_add p front back 0
  rwa [Nat.add_zero, after_zero] at hall

/-- Characters of one line count as columns. -/
theorem foldl_advance_of_not_mem {line : Text} (h : '\n' ∉ line) (p : Position) :
    line.foldl advance p = ⟨p.line, p.column + line.length⟩ := by
  induction line generalizing p with
  | nil => rfl
  | cons c line ih =>
    rw [List.mem_cons, not_or] at h
    rw [List.foldl_cons, ih h.2, advance, if_neg (Ne.symm h.1), List.length_cons, Nat.add_assoc,
      Nat.add_comm 1]

/-- Line feeds count as lines. -/
theorem line_foldl_advance (text : Text) (p : Position) :
    (text.foldl advance p).line = p.line + text.count '\n' := by
  induction text generalizing p with
  | nil => rfl
  | cons c text ih =>
    rw [List.foldl_cons, ih, advance]
    by_cases hc : c = '\n'
    · rw [if_pos hc, hc, List.count_cons_self, Nat.add_assoc, Nat.add_comm 1]
    · rw [if_neg hc, List.count_cons_of_ne hc]

end Position

namespace LineIndex

open Text (byteSize)

/-! ## Lines -/

/-- A line between what stands in front of it and what follows. -/
structure IsLine (front line back : Text) : Prop where
  /-- The line is the first one, or starts behind a line feed. -/
  front : front = [] ∨ ∃ before, front = before ++ ['\n']
  line : '\n' ∉ line
  /-- The line is the last one, or a line feed follows. -/
  back : back = [] ∨ ∃ after, back = '\n' :: after

/-- What can be seen of a line: a carriage return at its end cannot. -/
def visible (line : Text) : Text := (line.dropTail? ['\r']).getD line

section Lines

variable {front line back : Text}

/-- The first line of a text. -/
theorem exists_isLine_first (text : Text) : ∃ line back, text = line ++ back ∧ IsLine [] line back := by
  induction text with
  | nil => exact ⟨[], [], rfl, .inl rfl, List.not_mem_nil, .inl rfl⟩
  | cons c text ih =>
    by_cases hc : c = '\n'
    · subst hc
      exact ⟨[], _, rfl, .inl rfl, List.not_mem_nil, .inr ⟨text, rfl⟩⟩
    · obtain ⟨line, back, rfl, hline⟩ := ih
      refine ⟨c :: line, back, rfl, .inl rfl, ?_, hline.back⟩
      rw [List.mem_cons, not_or]
      exact ⟨Ne.symm hc, hline.line⟩

/-- A line of a text, in front of which a further character is put. -/
theorem IsLine.cons (h : IsLine front line back) (hfront : front ≠ []) (c : Char) :
    IsLine (c :: front) line back := by
  obtain ⟨before, rfl⟩ := h.front.resolve_left hfront
  exact ⟨.inr ⟨c :: before, rfl⟩, h.line, h.back⟩

/-- The line around a place. -/
theorem exists_isLine_around (front back : Text) :
    ∃ start before behind rest, front = start ++ before ∧ back = behind ++ rest ∧
      IsLine start (before ++ behind) rest := by
  induction front with
  | nil =>
    obtain ⟨line, rest, rfl, hline⟩ := exists_isLine_first back
    exact ⟨[], [], line, rest, rfl, rfl, hline⟩
  | cons c front ih =>
    obtain ⟨start, before, behind, rest, rfl, rfl, hline⟩ := ih
    by_cases hstart : start = []
    · subst hstart
      by_cases hc : c = '\n'
      · subst hc
        exact ⟨['\n'], before, behind, rest, rfl, rfl, .inr ⟨[], rfl⟩, hline.line, hline.back⟩
      · refine ⟨[], c :: before, behind, rest, rfl, rfl, .inl rfl, ?_, hline.back⟩
        rw [List.cons_append, List.mem_cons, not_or]
        exact ⟨Ne.symm hc, hline.line⟩
    · exact ⟨c :: start, before, behind, rest, rfl, rfl, hline.cons hstart c⟩

/-- The line with a number, counted from zero. -/
theorem exists_isLine_number {text : Text} {number : Nat} (h : number ≤ text.count '\n') :
    ∃ front line back, text = front ++ (line ++ back) ∧ front.count '\n' = number ∧
      IsLine front line back := by
  induction text generalizing number with
  | nil =>
    obtain rfl := Nat.le_zero.1 h
    exact ⟨[], [], [], rfl, rfl, .inl rfl, List.not_mem_nil, .inl rfl⟩
  | cons c text ih =>
    cases number with
    | zero =>
      obtain ⟨line, back, htext, hline⟩ := exists_isLine_first (c :: text)
      exact ⟨[], line, back, htext, rfl, hline⟩
    | succ number =>
      by_cases hc : c = '\n'
      · subst hc
        rw [List.count_cons_self] at h
        obtain ⟨front, line, back, rfl, hcount, hline⟩ := ih (Nat.le_of_succ_le_succ h)
        refine ⟨'\n' :: front, line, back, rfl, by rw [List.count_cons_self, hcount], ?_⟩
        by_cases hfront : front = []
        · subst hfront
          exact ⟨.inr ⟨[], rfl⟩, hline.line, hline.back⟩
        · exact hline.cons hfront '\n'
      · rw [List.count_cons_of_ne hc] at h
        obtain ⟨front, line, back, rfl, hcount, hline⟩ := ih h
        refine ⟨c :: front, line, back, rfl, by rw [List.count_cons_of_ne hc, hcount], ?_⟩
        refine hline.cons ?_ c
        rintro rfl
        cases hcount

/-! ## Line starts -/

theorem startsFrom_append (offset : Nat) (front back : Text) :
    startsFrom offset (front ++ back) =
      startsFrom offset front ++ startsFrom (offset + front.byteSize) back := by
  induction front generalizing offset with
  | nil => rfl
  | cons c front ih =>
    rw [List.cons_append, startsFrom, startsFrom, Text.byteSize_cons]
    by_cases hc : c = '\n'
    · subst hc
      rw [if_pos rfl, if_pos rfl, ih, List.cons_append, Nat.add_assoc]
      rfl
    · rw [if_neg hc, if_neg hc, ih, Nat.add_assoc]

/-- There is a line start behind each line feed. -/
theorem length_startsFrom (offset : Nat) (text : Text) :
    (startsFrom offset text).length = text.count '\n' := by
  induction text generalizing offset with
  | nil => rfl
  | cons c text ih =>
    rw [startsFrom]
    by_cases hc : c = '\n'
    · rw [if_pos hc, hc, List.count_cons_self, List.length_cons, ih]
    · rw [if_neg hc, List.count_cons_of_ne hc, ih]

/-- There are no line starts within a line, so those of a text are those in front of it and those
behind it. -/
theorem IsLine.starts_eq (h : IsLine front line back) :
    (ofText (front ++ (line ++ back))).starts =
      0 :: (startsFrom 0 front ++ startsFrom (front.byteSize + line.byteSize) back) := by
  have hline : startsFrom front.byteSize line = [] :=
    List.length_eq_zero_iff.1 ((length_startsFrom _ line).trans (List.count_eq_zero.2 h.line))
  rw [ofText, startsFrom_append, startsFrom_append, Nat.zero_add, hline]
  rfl

/-- Where the line starts. -/
theorem IsLine.getElem?_starts (h : IsLine front line back) :
    (ofText (front ++ (line ++ back))).starts[front.count '\n']? = some front.byteSize := by
  rw [h.starts_eq]
  obtain rfl | ⟨before, rfl⟩ := h.front
  · rfl
  · have hlast : startsFrom 0 (before ++ ['\n']) = startsFrom 0 before ++ [(before ++ ['\n']).byteSize] := by
      rw [startsFrom_append, Text.byteSize_append, Nat.zero_add]
      rfl
    rw [List.count_append, List.count_singleton_self, List.getElem?_cons_succ, hlast,
      List.append_assoc, ← length_startsFrom 0 before, List.getElem?_append_right (Nat.le_refl _),
      Nat.sub_self]
    rfl

/-- Where the next line starts. -/
theorem IsLine.getElem?_starts_succ (h : IsLine front line back) :
    (ofText (front ++ (line ++ back))).starts[front.count '\n' + 1]? =
      back.head?.map fun _ => front.byteSize + line.byteSize + 1 := by
  rw [h.starts_eq, List.getElem?_cons_succ, ← length_startsFrom 0 front,
    List.getElem?_append_right (Nat.le_refl _), Nat.sub_self]
  obtain rfl | ⟨after, rfl⟩ := h.back
  · rfl
  · rfl

/-! ## What can be seen of a line -/

theorem visible_concat (line : Text) : visible (line ++ ['\r']) = line := by
  unfold visible Text.dropTail?
  rw [if_pos (List.isSuffixOf_iff_suffix.2 (List.suffix_append line ['\r'])), Option.getD_some,
    List.length_append, Nat.add_sub_cancel, List.take_left]

theorem visible_of_getLast? (h : line.getLast? ≠ some '\r') : visible line = line := by
  have hnone : line.dropTail? ['\r'] = none := by
    refine if_neg fun hsuffix => ?_
    obtain ⟨before, rfl⟩ := List.isSuffixOf_iff_suffix.1 hsuffix
    exact h List.getLast?_concat
  rw [visible, hnone, Option.getD_none]

/-- What can be seen of a line is its front. -/
theorem exists_visible_append (line : Text) : ∃ tail, visible line ++ tail = line := by
  by_cases h : line.getLast? = some '\r'
  · obtain ⟨before, rfl⟩ := List.getLast?_eq_some_iff.1 h
    rw [visible_concat]
    exact ⟨['\r'], rfl⟩
  · rw [visible_of_getLast? h]
    exact ⟨[], List.append_nil line⟩

theorem take_visible {line : Text} {size : Nat} (h : size ≤ (visible line).length) :
    (visible line).take size = line.take size := by
  obtain ⟨tail, htail⟩ := exists_visible_append line
  calc (visible line).take size
      = (visible line ++ tail).take size := (List.take_append_of_le_length h).symm
    _ = line.take size := by rw [htail]

theorem length_visible_le (line : Text) : (visible line).length ≤ line.length := by
  obtain ⟨tail, htail⟩ := exists_visible_append line
  calc (visible line).length
      ≤ (visible line ++ tail).length := (List.sublist_append_left _ tail).length_le
    _ = line.length := by rw [htail]

/-- What is in front of a place can be seen, unless it is the whole line and ends with a carriage
return. -/
theorem length_le_visible (before behind : Text) :
    before.length ≤ (visible (before ++ behind)).length ↔
      ¬(before.getLast? = some '\r' ∧ behind = []) := by
  rcases List.eq_nil_or_concat behind with rfl | ⟨middle, last, rfl⟩
  · rw [List.append_nil, and_iff_left rfl]
    by_cases h : before.getLast? = some '\r'
    · obtain ⟨before, rfl⟩ := List.getLast?_eq_some_iff.1 h
      rw [visible_concat, List.length_append, List.length_singleton]
      simp
    · rw [visible_of_getLast? h]
      simp [h]
  · refine iff_of_true ?_ (by simp)
    by_cases hlast : last = '\r'
    · subst hlast
      rw [List.concat_eq_append, ← List.append_assoc, visible_concat, List.length_append]
      exact Nat.le_add_right _ _
    · rw [visible_of_getLast? (by simpa using hlast), List.length_append]
      exact Nat.le_add_right _ _

/-! ## Both conversions within a line -/

/-- The positions of a line that exist, and their offsets. -/
theorem IsLine.offset?_column (h : IsLine front line back) (column : Nat) :
    (ofText (front ++ (line ++ back))).offset? (front ++ (line ++ back))
        ⟨front.count '\n' + 1, column + 1⟩ =
      if column ≤ (visible line).length then
        some (front.byteSize + Text.byteSize ((visible line).take column)) else none := by
  have hslice := Text.slice?_append front line back
  unfold offset?
  dsimp only
  rw [h.getElem?_starts, h.getElem?_starts_succ]
  obtain hback | ⟨after, hback⟩ := h.back
  · have hsize : (front ++ (line ++ back)).byteSize = front.byteSize + line.byteSize := by
      simp [hback]
    rw [← hsize] at hslice
    rw [hback] at hslice ⊢
    change ((front ++ (line ++ [])).slice? _ (front ++ (line ++ [])).byteSize).bind _ = _
    rw [hslice]
    rfl
  · rw [hback] at hslice ⊢
    change ((front ++ (line ++ '\n' :: after)).slice? _ (front.byteSize + line.byteSize)).bind _ = _
    rw [hslice]
    rfl

/-- The offset of the position of a place, unless it cannot be seen. -/
theorem IsLine.offset?_place {before behind : Text} (h : IsLine front (before ++ behind) back) :
    (ofText (front ++ before ++ (behind ++ back))).offset? (front ++ before ++ (behind ++ back))
        ⟨front.count '\n' + 1, before.length + 1⟩ =
      if before.getLast? = some '\r' ∧ behind = [] then none
      else some (front ++ before).byteSize := by
  have hcolumn := h.offset?_column before.length
  have htext : front ++ before ++ (behind ++ back) = front ++ (before ++ behind ++ back) := by
    simp only [List.append_assoc]
  rw [htext, hcolumn]
  by_cases hseen : before.length ≤ (visible (before ++ behind)).length
  · have htake : (visible (before ++ behind)).take before.length = before := by
      rw [take_visible hseen, List.take_left]
    rw [if_pos hseen, if_neg ((length_le_visible before behind).1 hseen), htake, Text.byteSize_append]
  · rw [if_neg hseen, if_pos (Decidable.of_not_not (mt (length_le_visible before behind).2 hseen))]

/-- The position of a place. -/
theorem IsLine.position_place {before behind : Text} (h : IsLine front (before ++ behind) back) :
    (ofText (front ++ before ++ (behind ++ back))).position (front ++ before ++ (behind ++ back))
        (front ++ before).byteSize = ⟨front.count '\n' + 1, before.length + 1⟩ := by
  have hbefore : '\n' ∉ before := fun hmem => h.line (List.mem_append_left behind hmem)
  have hfront : front.foldl Position.advance ⟨1, 1⟩ = ⟨front.count '\n' + 1, 1⟩ := by
    obtain rfl | ⟨first, rfl⟩ := h.front
    · rfl
    · rw [List.foldl_append, List.count_append, List.count_singleton_self]
      change Position.mk ((first.foldl Position.advance ⟨1, 1⟩).line + 1) 1 = _
      rw [Position.line_foldl_advance, Nat.add_comm 1]
  rw [position_eq_after, Position.after_append, List.foldl_append, hfront,
    Position.foldl_advance_of_not_mem hbefore, Nat.add_comm 1]

/-- A carriage return in front of a place belongs to its line. -/
theorem IsLine.getLast?_eq_return {before behind : Text} (h : IsLine front (before ++ behind) back) :
    (front ++ before).getLast? = some '\r' ↔ before.getLast? = some '\r' := by
  obtain rfl | ⟨first, rfl⟩ := h.front
  · rw [List.nil_append]
  · rw [List.getLast?_append, List.getLast?_concat]
    cases before.getLast? <;> simp

/-- A place in a line is at its end when nothing or a line feed follows. -/
theorem IsLine.head?_behind {before behind : Text} (h : IsLine front (before ++ behind) back) :
    (behind ++ back).head?.all (· == '\n') = true ↔ behind = [] := by
  cases behind with
  | nil =>
    obtain rfl | ⟨after, rfl⟩ := h.back
    · exact iff_of_true rfl rfl
    · exact iff_of_true rfl rfl
  | cons c behind =>
    have hc : c ≠ '\n' := by
      rintro rfl
      exact h.line (List.mem_append_right before List.mem_cons_self)
    simpa using hc

end Lines

/-! ## From positions to offsets -/

/-- A position that exists is that of a place in a line that can be seen. -/
theorem exists_place_of_offset? {text : Text} {position : Position} {offset : Nat}
    (h : (ofText text).offset? text position = some offset) :
    ∃ front before behind back, text = front ++ before ++ (behind ++ back) ∧
      IsLine front (before ++ behind) back ∧ offset = (front ++ before).byteSize ∧
        position = ⟨front.count '\n' + 1, before.length + 1⟩ := by
  obtain ⟨number, column⟩ := position
  match number, column with
  | 0, _ => cases h
  | _ + 1, 0 => cases h
  | number + 1, column + 1 =>
    obtain ⟨start, hstart, -⟩ := Option.bind_eq_some_iff.1 h
    have hnumber : number ≤ text.count '\n' := by
      obtain ⟨hlt, -⟩ := List.getElem?_eq_some_iff.1 hstart
      rw [ofText, List.length_cons, length_startsFrom] at hlt
      exact Nat.le_of_lt_succ hlt
    obtain ⟨front, line, back, rfl, rfl, hline⟩ := exists_isLine_number hnumber
    rw [hline.offset?_column] at h
    split at h
    · next hseen =>
      have hlength : (line.take column).length = column :=
        List.length_take_of_le (Nat.le_trans hseen (length_visible_le line))
      have hsplit : line.take column ++ line.drop column = line := List.take_append_drop column line
      refine ⟨front, line.take column, line.drop column, back, ?_, by rwa [hsplit], ?_, by rw [hlength]⟩
      · rw [List.append_assoc, ← List.append_assoc (line.take column), hsplit]
      · rw [Text.byteSize_append, ← take_visible hseen]
        exact (Option.some.inj h).symm
    · cases h

theorem position_eq_of_offset? {text : Text} {position : Position} {offset : Nat}
    (h : (ofText text).offset? text position = some offset) :
    (ofText text).position text offset = position := by
  obtain ⟨front, before, behind, back, rfl, hline, rfl, rfl⟩ := exists_place_of_offset? h
  exact hline.position_place

/-- A position that exists is the position of the offset that it gives, which lies between two
characters of the text; so no other position gives that offset. -/
theorem position_of_offset? {text : Text} {position : Position} {offset : Nat}
    (h : (ofText text).offset? text position = some offset) :
    text.IsBoundary offset ∧ offset ≤ text.byteSize ∧ (ofText text).position text offset = position ∧
      ∀ other, (ofText text).offset? text other = some offset → other = position := by
  have hposition := position_eq_of_offset? h
  obtain ⟨front, before, behind, back, rfl, -, rfl, -⟩ := exists_place_of_offset? h
  refine ⟨⟨_, _, rfl, rfl⟩, ?_, hposition, fun other hother => ?_⟩
  · rw [Text.byteSize_append (front ++ before)]
    exact Nat.le_add_right _ _
  · exact (position_eq_of_offset? hother).symm.trans hposition

/-- Behind a letter of two bytes, in front of a line end of two characters. -/
theorem position_of_offset?_twoBytes :
    (ofText ['é', '\r', '\n', 'b']).offset? ['é', '\r', '\n', 'b'] ⟨1, 2⟩ = some 2 ∧
      Text.IsBoundary ['é', '\r', '\n', 'b'] 2 ∧
      (ofText ['é', '\r', '\n', 'b']).position ['é', '\r', '\n', 'b'] 2 = ⟨1, 2⟩ := by
  have h : (ofText ['é', '\r', '\n', 'b']).offset? ['é', '\r', '\n', 'b'] ⟨1, 2⟩ = some 2 := by
    decide
  exact ⟨h, (position_of_offset? h).1, (position_of_offset? h).2.2.1⟩

/-! ## From offsets to positions -/

/-- The position of a place gives the offset of the place, with one exception: behind a carriage return
that stands at the end of the text or in front of a line feed, it does not exist. -/
theorem offset?_position (front back : Text) :
    (ofText (front ++ back)).offset? (front ++ back)
        ((ofText (front ++ back)).position (front ++ back) front.byteSize) =
      if front.getLast? = some '\r' ∧ back.head?.all (· == '\n') then none
      else some front.byteSize := by
  obtain ⟨start, before, behind, rest, rfl, rfl, hline⟩ := exists_isLine_around front back
  rw [hline.position_place, hline.offset?_place]
  refine ite_congr ?_ (fun _ => rfl) fun _ => rfl
  exact propext (and_congr hline.getLast?_eq_return hline.head?_behind).symm

/-- A text that ends with a carriage return: its end has a position, but the position has no offset. -/
theorem end_behind_return_has_no_offset :
    Text.IsBoundary ['a', '\r'] 2 ∧ Text.byteSize ['a', '\r'] = 2 ∧
      (ofText ['a', '\r']).position ['a', '\r'] 2 = ⟨1, 3⟩ ∧
      (ofText ['a', '\r']).offset? ['a', '\r'] ⟨1, 3⟩ = none := by
  refine ⟨⟨['a', '\r'], [], rfl, rfl⟩, rfl, by decide, by decide⟩

end LineIndex

end Justfile
