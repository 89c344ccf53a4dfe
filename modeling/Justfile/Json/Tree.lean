import Justfile.Json
import Justfile.Tree

/-!
# Trees, diagnostics and tokens as JSON

The entries that a reader of the JSON relies on, and their order. A node without children has no
entry for them, and neither has a child without a field one for it.
-/

set_option autoImplicit false

namespace Justfile

/-- A span as a record of its two ends. -/
def Span.toJson (s : Span) : Json := .record [("start", .number s.start), ("end", .number s.stop)]

namespace Token

/-- A token by its kind, span and, if it has one, width. -/
def toJson (token : Token) : Json :=
  .record ([("kind", .string token.kind.name), ("span", token.span.toJson)] ++
    (token.indent.map fun width => ("indent", Json.number width)).toList)

end Token

namespace Diagnostic

/-- A diagnostic by its code, message and place. -/
def toJson (d : Diagnostic) : Json :=
  .record
    [("code", .string d.cause.code), ("message", .string d.cause.message),
      ("span", d.span.toJson), ("line", .number d.position.line),
      ("column", .number d.position.column)]

/-- Several diagnostics. -/
def listToJson (diagnostics : List Diagnostic) : Json := .list (diagnostics.map toJson)

end Diagnostic

namespace Node

/-- The entry for a field, if there is one. -/
def fieldEntry (field : Option Field) : List (String × Json) :=
  (field.map fun f => ("field", Json.string f.label)).toList

mutual
/-- A node, without the part it plays. -/
def toJson : Node → Json
  | ⟨_, kind, span, children⟩ =>
    .record ([("kind", .string kind.name), ("span", span.toJson)] ++
      (match children with
      | [] => []
      | _ => [("children", .list (childrenToJson children))]))
/-- Siblings, each with the part it plays. -/
def childrenToJson : Forest → List Json
  | [] => []
  | node :: rest => .record (fieldEntry node.field ++ [("node", toJson node)]) :: childrenToJson rest
end

end Node

namespace Tree

/-- A tree by its root and diagnostics. -/
def toJson (tree : Tree) : Json :=
  .record [("root", tree.root.toJson), ("diagnostics", Diagnostic.listToJson tree.diagnostics)]

end Tree

/-- Several tokens. -/
def Token.listToJson (tokens : List Token) : Json := .list (tokens.map Token.toJson)

end Justfile
