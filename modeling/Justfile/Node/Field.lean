/-!
# Fields

The part that a node plays in its parent.
-/

set_option autoImplicit false

namespace Justfile

/-- The part that a node plays in its parent. -/
inductive Field where
  | alternative | argument | arguments | body | consequence | defaultValue | element | kleene
  | left | name | right | shebang | value
  deriving DecidableEq, Repr

namespace Field

/-- A stable name. -/
def label : Field → String
  | alternative => "alternative"
  | argument => "argument"
  | arguments => "arguments"
  | body => "body"
  | consequence => "consequence"
  | defaultValue => "default"
  | element => "element"
  | kleene => "kleene"
  | left => "left"
  | name => "name"
  | right => "right"
  | shebang => "shebang"
  | value => "value"

/-- Every field. -/
def all : List Field :=
  [alternative, argument, arguments, body, consequence, defaultValue, element, kleene, left, name,
    right, shebang, value]

/-- The field with a name. -/
def ofLabel? (text : String) : Option Field := all.find? (·.label == text)

end Field

end Justfile
