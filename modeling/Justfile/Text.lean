/-!
# Source text

A source is a list of characters. Offsets into it count the bytes of its UTF-8 form, so the list
comes with a measure (`byteSize`) and with cuts at byte offsets, which exist only on character
boundaries inside the text.
-/

set_option autoImplicit false

namespace Justfile

/-- A piece of source, character by character. -/
abbrev Text := List Char

namespace Text

/-- The number of bytes of the UTF-8 form. -/
def byteSize : Text → Nat
  | [] => 0
  | c :: rest => c.utf8Size + byteSize rest

@[simp] theorem byteSize_nil : byteSize [] = 0 := rfl

@[simp] theorem byteSize_cons (c : Char) (rest : Text) :
    byteSize (c :: rest) = c.utf8Size + byteSize rest := rfl

@[simp] theorem byteSize_append (a b : Text) : byteSize (a ++ b) = byteSize a + byteSize b := by
  induction a with
  | nil => simp
  | cons c a ih => simp [ih, Nat.add_assoc]

/-- What stands after the first `n` bytes, unless they end inside a character or beyond the
text. -/
def dropBytes? : Text → Nat → Option Text
  | rest, 0 => some rest
  | [], _ + 1 => none
  | c :: rest, n + 1 =>
    if c.utf8Size ≤ n + 1 then dropBytes? rest (n + 1 - c.utf8Size) else none

/-- The first `n` bytes, unless they end inside a character or beyond the text. -/
def takeBytes? : Text → Nat → Option Text
  | _, 0 => some []
  | [], _ + 1 => none
  | c :: rest, n + 1 =>
    if c.utf8Size ≤ n + 1 then (takeBytes? rest (n + 1 - c.utf8Size)).map (c :: ·) else none

/-- The bytes from `start` to `stop`, unless the two are out of order, or one of them lies inside
a character or beyond the text. -/
def slice? (text : Text) (start stop : Nat) : Option Text :=
  if start ≤ stop then (text.dropBytes? start).bind (takeBytes? · (stop - start)) else none

/-- The text without the ending `tail`, when it has that ending. -/
def dropTail? (text tail : Text) : Option Text :=
  if tail.isSuffixOf text then some (text.take (text.length - tail.length)) else none

/-- The pieces between the characters that satisfy `separates`; a text without any is one
piece. -/
def splitBy (separates : Char → Bool) : Text → List Text
  | [] => [[]]
  | c :: rest =>
    match splitBy separates rest with
    | [] => [[]]
    | piece :: pieces =>
      if separates c then [] :: piece :: pieces else (c :: piece) :: pieces

/-- The text as a string. -/
def toString (text : Text) : String := String.ofList text

end Text

end Justfile
