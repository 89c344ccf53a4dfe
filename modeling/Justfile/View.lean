import Justfile.Cursor

/-!
# Typed views

A view is a cursor whose node is of a kind known from its type. What a view offers are the parts of
the construct by their meaning; a part that a fault in the source has removed is absent.
-/

set_option autoImplicit false

namespace Justfile

/-- A cursor at a node of one of the given kinds. -/
structure View (kinds : List Node.Kind) where
  cursor : Cursor
  kind_mem : cursor.kind ∈ kinds

namespace View

variable {kinds : List Node.Kind}

/-- The view of a cursor, if its node is of one of the kinds. -/
def of? (kinds : List Node.Kind) (c : Cursor) : Option (View kinds) :=
  if h : c.kind ∈ kinds then some ⟨c, h⟩ else none

/-- The text of the construct. -/
def text (view : View kinds) : Text := view.cursor.text

end View

namespace Cursor

/-- The children of given kinds. -/
def views (c : Cursor) (kinds : List Node.Kind) : List (View kinds) :=
  c.children.filterMap (View.of? kinds)

/-- The first child of given kinds. -/
def view? (c : Cursor) (kinds : List Node.Kind) : Option (View kinds) :=
  c.children.findSome? (View.of? kinds)

/-- The child that plays a part, if it is of one of the kinds. -/
def viewByField? (c : Cursor) (field : Field) (kinds : List Node.Kind) : Option (View kinds) :=
  (c.childByField? field).bind (View.of? kinds)

/-- Whether a token of a kind is among the children. -/
def hasToken (c : Cursor) (kind : Token.Kind) : Bool := c.children.any (·.kind == .token kind)

/-- The name that plays a part, if it is an identifier. -/
def nameByField? (c : Cursor) (field : Field) : Option Text :=
  ((c.childByField? field).filter (·.kind == .identifier)).map text

/-- The name or the module path that plays a part. -/
def pathByField? (c : Cursor) (field : Field) : Option Text :=
  (c.viewByField? field [.identifier, .modulePath]).map (·.text)

end Cursor

/-! ## The constructs -/

/-- A whole file. -/
abbrev SourceFile := View [.sourceFile]

/-- A shebang line. -/
abbrev ShebangLine := View [.shebang]

/-- A string literal. -/
abbrev StringLiteral := View [.string]

/-- A backtick command. -/
abbrev CommandLiteral := View [.externalCommand]

/-- An expression between double braces. -/
abbrev Interpolation := View [.interpolation]

/-- An expression. -/
abbrev Expression := View [.expression]

/-- A value inside an expression. -/
abbrev Value := View [.value]

/-- A call of a function. -/
abbrev FunctionCall := View [.functionCall]

/-- A conditional. -/
abbrev Conditional := View [.ifExpression]

/-- The condition of a conditional. -/
abbrev Condition := View [.condition]

/-- Entries in square brackets in front of an item. -/
abbrev AttributeGroup := View [.attributeGroup]

/-- A recipe. -/
abbrev Recipe := View [.recipe]

/-- A parameter of a recipe, variadic or not. -/
abbrev Parameter := View [.parameter, .variadicParameter]

/-- A dependency of a recipe. -/
abbrev Dependency := View [.dependency]

/-- The body of a recipe. -/
abbrev RecipeBody := View [.recipeBody]

/-- A line of a recipe body. -/
abbrev RecipeLine := View [.recipeLine]

/-- An assignment. -/
abbrev Assignment := View [.assignment]

/-- An assignment behind `export` or `unexport`. -/
abbrev ExportItem := View [.exportItem, .unexportItem]

/-- Another name for a recipe. -/
abbrev AliasItem := View [.aliasItem]

/-- The items of another file. -/
abbrev ImportItem := View [.importItem]

/-- A module. -/
abbrev ModuleItem := View [.moduleItem]

/-- A setting. -/
abbrev Setting := View [.setting]

end Justfile
