import Justfile.View

/-!
# Views of attributes

A group of attributes is a list of entries. An entry without a name is left out.
-/

set_option autoImplicit false

namespace Justfile

/-- An argument of an attribute. -/
inductive AttributeArgument where
  | string (literal : StringLiteral)
  | named (name : Text) (value : Option StringLiteral)

namespace AttributeArgument

/-- The argument that a node stands for. -/
def of? (c : Cursor) : Option AttributeArgument :=
  match View.of? [.string] c with
  | some literal => some (.string literal)
  | none =>
    if c.kind = .attributeNamedParam then
      (c.nameByField? .name).map (.named · (c.viewByField? .value [.string]))
    else none

end AttributeArgument

/-- An entry of a group of attributes. -/
inductive AttributeEntry where
  | flag (name : Text)
  | call (name : Text) (arguments : List AttributeArgument)
  | keyValue (name : Text) (value : Option StringLiteral)

namespace AttributeEntry

/-- The name of the entry. -/
def name : AttributeEntry → Text
  | flag name | call name _ | keyValue name _ => name

/-- The entry that a node stands for. -/
def of? (c : Cursor) : Option AttributeEntry := do
  let name ← c.nameByField? .name
  match c.kind with
  | .attributeFlag => some (.flag name)
  | .attributeCall =>
    some (.call name ((c.childrenByField .argument).filterMap AttributeArgument.of?))
  | .attributeKeyValue => some (.keyValue name (c.viewByField? .argument [.string]))
  | _ => none

end AttributeEntry

namespace AttributeGroup

/-- The entries, in order. -/
def entries (a : AttributeGroup) : List AttributeEntry :=
  a.cursor.namedChildren.filterMap AttributeEntry.of?

/-- The first entry with a name. -/
def entry? (a : AttributeGroup) (name : Text) : Option AttributeEntry :=
  a.entries.find? (·.name == name)

end AttributeGroup

end Justfile
