import Justfile.Text

/-!
# JSON

The values that trees, diagnostics and tokens are written as, and their two written forms: without
any space, and with one entry on each line. The entries of a record keep their order.
-/

set_option autoImplicit false

namespace Justfile

/-- A JSON value; only what is needed here. -/
inductive Json where
  | number (n : Nat)
  | string (s : String)
  | list (items : List Json)
  | record (entries : List (String × Json))

namespace Json

/-- A number with four hexadecimal digits. -/
def fourDigits (n : Nat) : Text :=
  let digits := Nat.toDigits 16 n
  List.replicate (4 - digits.length) '0' ++ digits

/-- A character inside a string: quotes, backslashes and control characters are escaped. -/
def escape (c : Char) : Text :=
  if c = '"' then ['\\', '"']
  else if c = '\\' then ['\\', '\\']
  else if c = '\n' then ['\\', 'n']
  else if c = '\r' then ['\\', 'r']
  else if c = '\t' then ['\\', 't']
  else if c.toNat = 0x08 then ['\\', 'b']
  else if c.toNat = 0x0c then ['\\', 'f']
  else if c.toNat < 0x20 then ['\\', 'u'] ++ fourDigits c.toNat
  else [c]

/-- A string in quotes. -/
def quote (s : String) : String := Text.toString ('"' :: s.toList.flatMap escape ++ ['"'])

/-! ## Written forms

Each form is written behind the text that is already there, so that a long value is written in one
pass. -/

mutual
/-- Writes a value without any space. -/
def compactOnto (out : String) : Json → String
  | number n => out ++ Nat.repr n
  | string s => out ++ quote s
  | list items => compactItemsOnto (out ++ "[") items ++ "]"
  | record entries => compactEntriesOnto (out ++ "\x7b") entries ++ "\x7d"
/-- Writes the items of a list, with commas between them. -/
def compactItemsOnto (out : String) : List Json → String
  | [] => out
  | [item] => compactOnto out item
  | item :: rest => compactItemsOnto (compactOnto out item ++ ",") rest
/-- Writes the entries of a record, with commas between them. -/
def compactEntriesOnto (out : String) : List (String × Json) → String
  | [] => out
  | [(key, value)] => compactOnto (out ++ quote key ++ ":") value
  | (key, value) :: rest =>
    compactEntriesOnto (compactOnto (out ++ quote key ++ ":") value ++ ",") rest
end

/-- A value without any space. -/
def compact (value : Json) : String := compactOnto "" value

/-- A line break and two spaces for each level. -/
def newLine (depth : Nat) : String := Text.toString ('\n' :: List.replicate (2 * depth) ' ')

mutual
/-- Writes a value at a depth, with one entry on each line. -/
def prettyOnto (depth : Nat) (out : String) : Json → String
  | number n => out ++ Nat.repr n
  | string s => out ++ quote s
  | list [] => out ++ "[]"
  | list items => prettyItemsOnto (depth + 1) (out ++ "[") items ++ newLine depth ++ "]"
  | record [] => out ++ "\x7b\x7d"
  | record entries =>
    prettyEntriesOnto (depth + 1) (out ++ "\x7b") entries ++ newLine depth ++ "\x7d"
/-- Writes the items of a list, each on its own line. -/
def prettyItemsOnto (depth : Nat) (out : String) : List Json → String
  | [] => out
  | [item] => prettyOnto depth (out ++ newLine depth) item
  | item :: rest =>
    prettyItemsOnto depth (prettyOnto depth (out ++ newLine depth) item ++ ",") rest
/-- Writes the entries of a record, each on its own line. -/
def prettyEntriesOnto (depth : Nat) (out : String) : List (String × Json) → String
  | [] => out
  | [(key, value)] => prettyOnto depth (out ++ newLine depth ++ quote key ++ ": ") value
  | (key, value) :: rest =>
    prettyEntriesOnto depth
      (prettyOnto depth (out ++ newLine depth ++ quote key ++ ": ") value ++ ",") rest
end

/-- A value with one entry on each line. -/
def pretty (value : Json) : String := prettyOnto 0 "" value

end Json

end Justfile
