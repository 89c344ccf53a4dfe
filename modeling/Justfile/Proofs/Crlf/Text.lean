import Justfile.Token.Scanner

/-!
# Lines that end in two characters

A text without carriage returns, and the same text with one in front of every line feed (`crlf`).
Offsets of the first text lie in the second where `crlfPlace` says: further back by the number of
lines before them.

Every measure finds the same in the two texts. What holds no line break has the same size in both;
other stretches grow by their line breaks (`stretch`).
-/

set_option autoImplicit false

namespace Justfile

namespace Text

/-- The text with a carriage return in front of every line feed. -/
def crlf (text : Text) : Text := text.flatMap fun c => if c = '\n' then ['\r', '\n'] else [c]

/-- Where an offset of the text lies in the text with carriage returns. -/
def crlfPlace : Text → Nat → Nat
  | [], offset => offset
  | c :: rest, offset =>
    if offset < c.utf8Size then offset
    else byteSize (crlf [c]) + crlfPlace rest (offset - c.utf8Size)

/-- The number of characters that the first ones have in the text with carriage returns. -/
def stretch (text : Text) (size : Nat) : Nat := (crlf (text.take size)).length

section Crlf

variable {text rest : Text} {c : Char} {size : Nat}

@[simp] theorem crlf_nil : crlf [] = [] := rfl

@[simp] theorem crlf_newline (rest : Text) : crlf ('\n' :: rest) = '\r' :: '\n' :: crlf rest := rfl

theorem crlf_cons (h : c ≠ '\n') (rest : Text) : crlf (c :: rest) = c :: crlf rest := by
  simp [crlf, h]

@[simp] theorem crlf_append (front back : Text) : crlf (front ++ back) = crlf front ++ crlf back :=
  List.flatMap_append

theorem crlf_of_not_mem (h : '\n' ∉ text) : crlf text = text := by
  induction text with
  | nil => rfl
  | cons c rest ih =>
    rw [crlf_cons (fun hc => h (by rw [hc]; exact List.mem_cons_self))]
    rw [ih fun hmem => h (List.mem_cons_of_mem _ hmem)]

theorem length_le_length_crlf (text : Text) : text.length ≤ (crlf text).length := by
  induction text with
  | nil => exact Nat.le_refl _
  | cons c rest ih =>
    by_cases hc : c = '\n'
    · subst hc
      simp only [crlf_newline, List.length_cons]
      omega
    · rw [crlf_cons hc, List.length_cons, List.length_cons]
      omega

theorem crlf_eq_nil_iff : crlf text = [] ↔ text = [] := by
  constructor
  · intro h
    have hle := length_le_length_crlf text
    rw [h] at hle
    exact List.length_eq_zero_iff.1 (Nat.le_zero.1 hle)
  · rintro rfl
    rfl

@[simp] theorem isEmpty_crlf (text : Text) : (crlf text).isEmpty = text.isEmpty := by
  rw [Bool.eq_iff_iff, List.isEmpty_iff, List.isEmpty_iff, crlf_eq_nil_iff]

/-- The last character stays the last. -/
theorem getLast?_crlf (text : Text) : (crlf text).getLast? = text.getLast? := by
  induction text with
  | nil => rfl
  | cons c rest ih =>
    by_cases hc : c = '\n'
    · subst hc
      rw [crlf_newline, List.getLast?_cons_cons, List.getLast?_cons, List.getLast?_cons, ih]
    · rw [crlf_cons hc, List.getLast?_cons, List.getLast?_cons, ih]

/-- A text without carriage returns is empty, or it starts with a line feed, or with another
character that is the same in both texts. -/
theorem plain_cases (h : '\r' ∉ text) :
    text = [] ∨ (∃ rest, text = '\n' :: rest ∧ '\r' ∉ rest) ∨
      ∃ c rest, text = c :: rest ∧ c ≠ '\n' ∧ c ≠ '\r' ∧ '\r' ∉ rest := by
  cases text with
  | nil => exact .inl rfl
  | cons c rest =>
    have hrest : '\r' ∉ rest := fun hmem => h (List.mem_cons_of_mem _ hmem)
    by_cases hc : c = '\n'
    · subst hc
      exact .inr (.inl ⟨rest, rfl, hrest⟩)
    · refine .inr (.inr ⟨c, rest, rfl, hc, ?_, hrest⟩)
      rintro rfl
      exact h List.mem_cons_self

theorem not_mem_drop (h : '\r' ∉ text) (size : Nat) : '\r' ∉ text.drop size :=
  fun hmem => h (List.mem_of_mem_drop hmem)

/-! ## Stretches -/

theorem take_crlf (text : Text) (size : Nat) :
    (crlf text).take (stretch text size) = crlf (text.take size) := by
  have happend := crlf_append (text.take size) (text.drop size)
  rw [List.take_append_drop] at happend
  rw [happend]
  exact List.take_left' rfl

theorem drop_crlf (text : Text) (size : Nat) :
    (crlf text).drop (stretch text size) = crlf (text.drop size) := by
  have happend := crlf_append (text.take size) (text.drop size)
  rw [List.take_append_drop] at happend
  rw [happend]
  exact List.drop_left' rfl

@[simp] theorem stretch_zero (text : Text) : stretch text 0 = 0 := rfl

@[simp] theorem stretch_nil (size : Nat) : stretch [] size = 0 := by
  simp [stretch]

@[simp] theorem stretch_newline (rest : Text) (size : Nat) :
    stretch ('\n' :: rest) (size + 1) = stretch rest size + 2 := rfl

theorem stretch_cons (h : c ≠ '\n') (rest : Text) (size : Nat) :
    stretch (c :: rest) (size + 1) = stretch rest size + 1 := by
  simp [stretch, crlf_cons h]

theorem stretch_succ_ne_zero (h : text ≠ []) (size : Nat) : stretch text (size + 1) ≠ 0 := by
  intro hzero
  have htake := crlf_eq_nil_iff.1 (List.length_eq_zero_iff.1 hzero)
  cases text with
  | nil => exact h rfl
  | cons c rest => cases htake

theorem stretch_length (text : Text) : stretch text text.length = (crlf text).length := by
  simp [stretch]

theorem stretch_add (text : Text) (first second : Nat) :
    stretch text (first + second) = stretch text first + stretch (text.drop first) second := by
  simp [stretch, List.take_add]

/-- What holds no line break has its size in both texts. -/
theorem stretch_of_not_mem (h : '\n' ∉ text.take size) (hle : size ≤ text.length) :
    stretch text size = size := by
  unfold stretch
  rw [crlf_of_not_mem h, List.length_take, Nat.min_eq_left hle]

/-! ## Offsets -/

@[simp] theorem crlfPlace_zero (text : Text) : crlfPlace text 0 = 0 := by
  cases text with
  | nil => rfl
  | cons c rest => rw [crlfPlace, if_pos c.utf8Size_pos]

/-- The end of a front of the text is the end of what became of it. -/
theorem crlfPlace_append (front back : Text) (offset : Nat) :
    crlfPlace (front ++ back) (byteSize front + offset) =
      byteSize (crlf front) + crlfPlace back offset := by
  induction front with
  | nil => simp
  | cons c front ih =>
    rw [List.cons_append, crlfPlace, byteSize_cons, if_neg (by omega)]
    have hsub : c.utf8Size + byteSize front + offset - c.utf8Size = byteSize front + offset := by
      omega
    have hone : crlf (c :: front) = crlf [c] ++ crlf front := crlf_append [c] front
    rw [hsub, ih, hone, byteSize_append, Nat.add_assoc]

theorem crlfPlace_byteSize (front back : Text) :
    crlfPlace (front ++ back) (byteSize front) = byteSize (crlf front) := by
  have happend := crlfPlace_append front back 0
  simpa using happend

theorem utf8Size_le_byteSize_crlf (c : Char) : c.utf8Size ≤ byteSize (crlf [c]) := by
  by_cases hc : c = '\n'
  · subst hc
    decide
  · rw [crlf_cons hc]
    exact Nat.le_refl _

theorem crlfPlace_lt (text : Text) {first second : Nat} (h : first < second) :
    crlfPlace text first < crlfPlace text second := by
  induction text generalizing first second with
  | nil => exact h
  | cons c rest ih =>
    have hsize := utf8Size_le_byteSize_crlf c
    unfold crlfPlace
    by_cases hsecond : second < c.utf8Size
    · rw [if_pos (Nat.lt_trans h hsecond), if_pos hsecond]
      exact h
    · by_cases hfirst : first < c.utf8Size
      · rw [if_pos hfirst, if_neg hsecond]
        omega
      · rw [if_neg hfirst, if_neg hsecond]
        have hmore := ih (Nat.sub_lt_sub_right (Nat.le_of_not_lt hfirst) h)
        omega

theorem crlfPlace_lt_iff (text : Text) (first second : Nat) :
    crlfPlace text first < crlfPlace text second ↔ first < second := by
  constructor
  · intro h
    apply Nat.lt_of_not_le
    intro hle
    rcases Nat.lt_or_eq_of_le hle with hlt | rfl
    · exact Nat.lt_asymm h (crlfPlace_lt text hlt)
    · exact Nat.lt_irrefl _ h
  · exact crlfPlace_lt text

theorem crlfPlace_le_iff (text : Text) (first second : Nat) :
    crlfPlace text first ≤ crlfPlace text second ↔ first ≤ second := by
  rw [← Nat.not_lt, ← Nat.not_lt, crlfPlace_lt_iff]

theorem crlfPlace_inj (text : Text) (first second : Nat) :
    crlfPlace text first = crlfPlace text second ↔ first = second := by
  constructor
  · intro h
    apply Nat.le_antisymm
    · exact (crlfPlace_le_iff text first second).1 (Nat.le_of_eq h)
    · exact (crlfPlace_le_iff text second first).1 (Nat.le_of_eq h.symm)
  · rintro rfl
    rfl

end Crlf

end Text

/-! ## Words and prefixes -/

section Prefixes

variable {text : Text}

/-- A word without line breaks stands at the front of both texts, or of none. -/
theorem Text.isPrefixOf_crlf {word : Text} (hword : '\n' ∉ word ∧ '\r' ∉ word) (h : '\r' ∉ text) :
    word.isPrefixOf (crlf text) = word.isPrefixOf text := by
  induction word generalizing text with
  | nil => simp
  | cons w word ih =>
    obtain ⟨hnew, hreturn⟩ := hword
    have hw : w ≠ '\n' ∧ w ≠ '\r' := by
      refine ⟨?_, ?_⟩
      · rintro rfl
        exact hnew List.mem_cons_self
      · rintro rfl
        exact hreturn List.mem_cons_self
    have hmore : '\n' ∉ word ∧ '\r' ∉ word :=
      ⟨fun hmem => hnew (List.mem_cons_of_mem _ hmem),
        fun hmem => hreturn (List.mem_cons_of_mem _ hmem)⟩
    rcases plain_cases h with rfl | ⟨rest, rfl, -⟩ | ⟨c, rest, rfl, hc, -, hrest⟩
    · rfl
    · simp [List.isPrefixOf, beq_eq_false_iff_ne.2 hw.1, beq_eq_false_iff_ne.2 hw.2]
    · rw [crlf_cons hc, List.isPrefixOf, List.isPrefixOf, ih hmore hrest]

/-- Characters that are no line breaks are followed by the same characters in both texts. -/
theorem Text.takeWhile_crlf {holds : Char → Bool} (hnew : holds '\n' = false)
    (hreturn : holds '\r' = false) (text : Text) :
    (crlf text).takeWhile holds = text.takeWhile holds := by
  induction text with
  | nil => rfl
  | cons c rest ih =>
    by_cases hc : c = '\n'
    · subst hc
      simp [hnew, hreturn]
    · rw [crlf_cons hc, List.takeWhile_cons, List.takeWhile_cons, ih]

theorem Text.not_mem_takeWhile {holds : Char → Bool} (hnew : holds '\n' = false) (text : Text) :
    '\n' ∉ text.takeWhile holds := by
  intro hmem
  have hholds := List.all_eq_true.1 (List.all_takeWhile (p := holds) (l := text)) _ hmem
  rw [hnew] at hholds
  cases hholds

/-- A front that is taken while a condition holds has the same size in both texts. -/
theorem Text.stretch_takeWhile {holds : Char → Bool} (hnew : holds '\n' = false) (text : Text) :
    stretch text (text.takeWhile holds).length = (text.takeWhile holds).length := by
  apply stretch_of_not_mem
  · rw [← List.prefix_iff_eq_take.1 (List.takeWhile_prefix holds)]
    exact not_mem_takeWhile hnew text
  · exact (List.takeWhile_sublist holds).length_le

end Prefixes

end Justfile
