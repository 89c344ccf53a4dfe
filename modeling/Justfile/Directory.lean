import Justfile.Text

/-!
# Directories

Files by name, as far as the command line needs them: a file is read as text or not at all.
-/

set_option autoImplicit false

namespace Justfile

/-- Why a file cannot be read as text. -/
inductive ReadError where
  /-- There is no such file. -/
  | absent
  /-- Its bytes are no UTF-8. -/
  | notText
  /-- Any other reason, in the words of the system. -/
  | other (reason : String)
  deriving DecidableEq, Repr

namespace ReadError

/-- The reason in words. -/
def message : ReadError → String
  | absent => "No such file or directory (os error 2)"
  | notText => "stream did not contain valid UTF-8"
  | other reason => reason

end ReadError

/-- The bytes of a file as text. -/
def decode (bytes : ByteArray) : Except ReadError Text :=
  match String.fromUTF8? bytes with
  | some text => .ok text.toList
  | none => .error .notText

/-- Files by name. -/
abbrev Directory := List (String × ByteArray)

namespace Directory

/-- The name that a path means: `./` in front of it changes nothing. -/
def baseName : Text → Text
  | '.' :: '/' :: rest => baseName rest
  | path => path

/-- Reads a file by its path. -/
def read (directory : Directory) (path : String) : Except ReadError Text :=
  match directory.find? (·.1.toList == baseName path.toList) with
  | some (_, bytes) => decode bytes
  | none => .error .absent

end Directory

end Justfile
