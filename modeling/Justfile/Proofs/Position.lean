import Justfile.LineIndex
import Justfile.Proofs.Text

/-!
# Positions read one after the other

A reader keeps the place where it stopped, so that the next offset need not be counted from the
start of its line. The shortcut does not show: as long as the reader stands on the way from the
start of its line (`Reader.OnWay`), reading on gives what reading from the start of the line gives
(`read_eq`), and leaves it on the way.

So the position of an offset is what counting the characters in front of it gives
(`position_eq_after`).
-/

set_option autoImplicit false

namespace Justfile.LineIndex

namespace Reader

/-- A reader at the start of a line. -/
def atLine (index : LineIndex) (line : Nat) : Reader := ⟨line, (index.starts[line]?).getD 0, 0⟩

/-- What stands after a byte offset, if the text can be cut there. -/
def restAt (text : Text) (byte : Nat) : Text := (text.dropBytes? byte).getD []

/-! ## Walks -/

/-- Stepping over characters leads from one place to another. -/
inductive Walks : Nat → Nat → Text → Nat → Nat → Text → Prop
  | refl (byte column : Nat) (rest : Text) : Walks byte column rest byte column rest
  | step {byte column byte' column' : Nat} {c : Char} {rest rest' : Text} :
      Walks (byte + c.utf8Size) (column + 1) rest byte' column' rest' →
      Walks byte column (c :: rest) byte' column' rest'

theorem Walks.byte_le {byte column byte' column' : Nat} {rest rest' : Text}
    (h : Walks byte column rest byte' column' rest') : byte ≤ byte' := by
  induction h with
  | refl => exact Nat.le_refl _
  | step _ ih => omega

/-- Walking to a target can start from any place on the way. -/
theorem Walks.walk_eq {byte column byte' column' target : Nat} {rest rest' : Text}
    (h : Walks byte column rest byte' column' rest') (hle : byte' ≤ target) :
    walk target byte column rest = walk target byte' column' rest' := by
  induction h with
  | refl => rfl
  | @step byte column _ _ c rest _ hwalks ih =>
    have hbyte := hwalks.byte_le
    have hsize := c.utf8Size_pos
    rw [walk, if_neg (by omega)]
    exact ih hle

/-- A walk leads to the place where it stops. -/
theorem walks_walk (target byte column : Nat) (rest : Text) :
    ∃ rest', Walks byte column rest (walk target byte column rest).1
      (walk target byte column rest).2 rest' := by
  induction rest generalizing byte column with
  | nil => exact ⟨[], .refl byte column []⟩
  | cons c rest ih =>
    unfold walk
    split
    · exact ⟨c :: rest, .refl byte column (c :: rest)⟩
    · obtain ⟨rest', hwalks⟩ := ih (byte + c.utf8Size) (column + 1)
      exact ⟨rest', .step hwalks⟩

/-- What is left after a walk is what stands after the place it leads to. -/
theorem Walks.restAt_eq {text : Text} {byte column byte' column' : Nat} {rest rest' : Text}
    (h : Walks byte column rest byte' column' rest') (hrest : restAt text byte = rest) :
    restAt text byte' = rest' := by
  induction h with
  | refl => exact hrest
  | @step byte _ _ _ c rest _ _ ih =>
    apply ih
    unfold restAt at hrest ⊢
    cases hdrop : text.dropBytes? byte with
    | none =>
      rw [hdrop] at hrest
      cases hrest
    | some after =>
      rw [hdrop] at hrest
      change after = c :: rest at hrest
      subst hrest
      rw [Text.dropBytes?_utf8Size hdrop]
      rfl

/-! ## Readers -/

/-- The reader stands on the way from the start of its line. -/
def OnWay (index : LineIndex) (text : Text) (reader : Reader) : Prop :=
  Walks (atLine index reader.line).byte 0 (restAt text (atLine index reader.line).byte)
    reader.byte reader.column (restAt text reader.byte)

/-- The place of an offset, counted from the start of its line. -/
def locate (index : LineIndex) (text : Text) (offset : Nat) : Nat × Nat :=
  let target := min offset text.byteSize
  let start := atLine index (index.lineOf target)
  walk target start.byte 0 (restAt text start.byte)

/-- The reader at the place of an offset. -/
def located (index : LineIndex) (text : Text) (offset : Nat) : Reader :=
  ⟨index.lineOf (min offset text.byteSize), (locate index text offset).1,
    (locate index text offset).2⟩

theorem onWay_located (index : LineIndex) (text : Text) (offset : Nat) :
    OnWay index text (located index text offset) := by
  obtain ⟨rest, hwalks⟩ := walks_walk (min offset text.byteSize)
    (atLine index (index.lineOf (min offset text.byteSize))).byte 0
    (restAt text (atLine index (index.lineOf (min offset text.byteSize))).byte)
  have hrest := hwalks.restAt_eq rfl
  subst hrest
  exact hwalks

/-- A reader on the way finds the place of an offset, wherever it stands. -/
theorem read_eq {index : LineIndex} {text : Text} {reader : Reader} (h : OnWay index text reader)
    (offset : Nat) :
    read index text reader offset =
      (⟨index.lineOf (min offset text.byteSize) + 1, (locate index text offset).2 + 1⟩,
        located index text offset) := by
  unfold read
  dsimp only
  split
  · rfl
  · next hstay =>
    simp only [ne_eq, Bool.or_eq_true, decide_eq_true_eq, not_or, Decidable.not_not,
      Nat.not_lt] at hstay
    obtain ⟨hline, hbyte⟩ := hstay
    have hwalk : walk (min offset text.byteSize) reader.byte reader.column
        (restAt text reader.byte) = locate index text offset := by
      rw [← h.walk_eq hbyte, ← hline]
      rfl
    unfold restAt at hwalk
    rw [hwalk, ← hline]
    rfl

end Reader

open Reader

/-- A fresh reader is on the way, if the first line starts at zero. -/
theorem onWay_default {index : LineIndex} (h : index.starts[0]? = some 0) (text : Text) :
    OnWay index text {} := by
  have hbyte : (atLine index 0).byte = 0 := by
    unfold atLine
    rw [h]
    rfl
  unfold OnWay
  rw [hbyte]
  exact .refl 0 0 _

/-- Reading several offsets gives the position of each. -/
theorem readAll_eq_map {index : LineIndex} (h : index.starts[0]? = some 0) (text : Text)
    (offsets : List Nat) :
    readAll index text {} offsets = offsets.map (index.position text) := by
  have hall : ∀ reader, OnWay index text reader →
      readAll index text reader offsets = offsets.map (index.position text) := by
    induction offsets with
    | nil => exact fun _ _ => rfl
    | cons offset offsets ih =>
      intro reader hreader
      have hposition : index.position text offset = (read index text reader offset).1 := by
        unfold position
        rw [read_eq (onWay_default h text), read_eq hreader]
      rw [readAll, List.map_cons, hposition]
      dsimp only
      rw [ih _ (by rw [read_eq hreader]; exact onWay_located index text offset)]
  exact hall {} (onWay_default h text)

/-- What a reader was asked before does not show, whatever the order of the offsets, and also when the
index is that of another text: each answer is the position of its offset alone. -/
theorem readAll_ofText (indexed text : Text) (offsets : List Nat) :
    readAll (ofText indexed) text {} offsets = offsets.map ((ofText indexed).position text) :=
  readAll_eq_map rfl text offsets

end Justfile.LineIndex

namespace Justfile

/-! ## Positions by counting -/

/-- The position behind a character at the position. -/
def Position.advance (p : Position) (c : Char) : Position :=
  if c = '\n' then ⟨p.line + 1, 1⟩ else ⟨p.line, p.column + 1⟩

/-- The position of an offset in a text that starts at the position. -/
def Position.after (p : Position) : Text → Nat → Position
  | [], _ => p
  | c :: rest, offset => if offset = 0 then p else (p.advance c).after rest (offset - c.utf8Size)

@[simp] theorem Position.after_zero (p : Position) (text : Text) : p.after text 0 = p := by
  cases text <;> rfl

/-- An offset beyond the end counts as the end. -/
theorem Position.after_min (p : Position) (text : Text) (offset : Nat) :
    p.after text (min offset (Text.byteSize text)) = p.after text offset := by
  induction text generalizing p offset with
  | nil => rfl
  | cons c rest ih =>
    have hsize := c.utf8Size_pos
    rw [Position.after, Position.after, Text.byteSize_cons]
    by_cases hzero : offset = 0
    · rw [if_pos hzero, if_pos (by omega)]
    · have hsub : min offset (c.utf8Size + Text.byteSize rest) - c.utf8Size =
          min (offset - c.utf8Size) (Text.byteSize rest) := by
        omega
      rw [if_neg hzero, if_neg (by omega), hsub, ih]

namespace LineIndex

open Reader

theorem lt_of_mem_startsFrom {text : Text} {offset start : Nat}
    (h : start ∈ startsFrom offset text) : offset < start := by
  induction text generalizing offset with
  | nil => cases h
  | cons c rest ih =>
    have hsize := c.utf8Size_pos
    unfold startsFrom at h
    split at h
    · rcases List.mem_cons.1 h with rfl | h
      · exact Nat.lt_succ_self offset
      · have := ih h
        omega
    · have := ih h
      omega

/-- What stands behind the first character of a text. -/
theorem restAt_cons (c : Char) (rest : Text) (offset : Nat) :
    restAt (c :: rest) (c.utf8Size + offset) = restAt rest offset := by
  have hone : Text.dropBytes? (c :: rest) c.utf8Size = some rest := Text.dropBytes?_append [c] rest
  unfold restAt
  rw [Text.dropBytes?_add hone]

/-- Counting finds the line that starts last before the target, and the column in it. The text
starts at an offset, in some line and column. -/
theorem after_eq_walk (text : Text) (target offset line column : Nat) :
    (Position.mk line (column + 1)).after text (target - offset) =
      match ((startsFrom offset text).takeWhile (· ≤ target)).getLast? with
      | none => ⟨line, (walk target offset column text).2 + 1⟩
      | some start =>
        ⟨line + ((startsFrom offset text).takeWhile (· ≤ target)).length,
          (walk target start 0 (restAt text (start - offset))).2 + 1⟩ := by
  induction text generalizing offset line column with
  | nil => rfl
  | cons c rest ih =>
    have hsize := c.utf8Size_pos
    by_cases hreached : target ≤ offset
    · -- The target is reached, and every further line starts behind it.
      have hnone : (startsFrom offset (c :: rest)).takeWhile (· ≤ target) = [] := by
        cases hstarts : startsFrom offset (c :: rest) with
        | nil => rfl
        | cons start starts =>
          have hlt := lt_of_mem_startsFrom (hstarts ▸ List.mem_cons_self)
          rw [List.takeWhile_cons, if_neg]
          simp only [decide_eq_true_eq]
          omega
      rw [hnone, Nat.sub_eq_zero_of_le hreached, Position.after_zero, walk, if_pos hreached]
      rfl
    · have hbehind : ∀ start, offset + c.utf8Size ≤ start →
          restAt (c :: rest) (start - offset) = restAt rest (start - (offset + c.utf8Size)) := by
        intro start hle
        rw [← restAt_cons c rest]
        congr 1
        omega
      rw [Position.after, if_neg (by omega), Nat.sub_sub, walk, if_neg hreached]
      by_cases hc : c = '\n'
      · -- A line starts behind the line feed, and is the last one if no other starts in time.
        subst hc
        have hle : decide (offset + 1 ≤ target) = true := decide_eq_true (Nat.lt_of_not_le hreached)
        have hmore := ih (offset + 1) (line + 1) 0
        rw [startsFrom, if_pos rfl, List.takeWhile_cons, if_pos hle]
        refine hmore.trans ?_
        cases hlast : ((startsFrom (offset + 1) rest).takeWhile (· ≤ target)).getLast? with
        | none =>
          have hnext : restAt ('\n' :: rest) (offset + 1 - offset) = rest := by
            rw [hbehind (offset + 1) (Nat.le_refl _)]
            change restAt rest (offset + 1 - (offset + 1)) = rest
            rw [Nat.sub_self]
            cases rest <;> rfl
          rw [List.getLast?_eq_none_iff.1 hlast]
          dsimp only [List.getLast?_singleton, List.length_singleton]
          rw [hnext]
        | some start =>
          have hmem := List.mem_of_getLast? hlast
          have hlt := lt_of_mem_startsFrom ((List.takeWhile_sublist _).subset hmem)
          rw [List.getLast?_cons, hlast]
          dsimp only [Option.getD_some, List.length_cons]
          rw [hbehind _ (Nat.le_of_lt hlt), Nat.add_assoc, Nat.add_comm 1]
          rfl
      · have hmore := ih (offset + c.utf8Size) line (column + 1)
        rw [startsFrom, if_neg hc, Position.advance, if_neg hc]
        refine hmore.trans ?_
        cases hlast : ((startsFrom (offset + c.utf8Size) rest).takeWhile (· ≤ target)).getLast? with
        | none => rfl
        | some start =>
          have hmem := List.mem_of_getLast? hlast
          have hlt := lt_of_mem_startsFrom ((List.takeWhile_sublist _).subset hmem)
          dsimp only
          rw [hbehind _ (Nat.le_of_lt hlt)]

/-- The position of an offset is what counting the characters in front of it gives. -/
theorem position_eq_after (text : Text) (offset : Nat) :
    (ofText text).position text offset = (Position.mk 1 1).after text offset := by
  have hfirst : (ofText text).starts[0]? = some 0 := rfl
  have hcount := after_eq_walk text (min offset (Text.byteSize text)) 0 1 0
  rw [Nat.sub_zero, Position.after_min] at hcount
  rw [hcount, position, read_eq (onWay_default hfirst text)]
  unfold locate
  generalize min offset (Text.byteSize text) = target
  have hline : (ofText text).lineOf target =
      ((startsFrom 0 text).takeWhile (· ≤ target)).length := by
    simp [lineOf, ofText]
  dsimp only
  rw [hline]
  cases hlast : ((startsFrom 0 text).takeWhile (· ≤ target)).getLast? with
  | none =>
    rw [List.getLast?_eq_none_iff.1 hlast]
    cases text <;> rfl
  | some start =>
    have hstart : (atLine (ofText text)
        ((startsFrom 0 text).takeWhile (· ≤ target)).length).byte = start := by
      obtain ⟨starts, hstarts⟩ := List.getLast?_eq_some_iff.1 hlast
      obtain ⟨more, hmore⟩ := List.takeWhile_prefix (· ≤ target) (l := startsFrom 0 text)
      have hget : (startsFrom 0 text)[starts.length]? = some start := by
        rw [← hmore, hstarts]
        simp
      simp [atLine, ofText, hstarts, hget]
    dsimp only
    rw [hstart, Nat.sub_zero, Nat.add_comm 1]

end LineIndex

end Justfile
