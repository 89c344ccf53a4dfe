import Justfile.View.Attribute
import Justfile.View.Literal

/-!
# Views of recipes

The header of a recipe, its parameters and dependencies, and the lines of its body.
-/

set_option autoImplicit false

namespace Justfile

/-! ## Parameters -/

/-- How many values a variadic parameter takes. -/
inductive Variadic where
  /-- The sign `*`. -/
  | zeroOrMore
  /-- The sign `+`. -/
  | oneOrMore
  deriving DecidableEq, Repr

namespace Parameter

/-- The parameter without its variadic sign. -/
def inner? (p : Parameter) : Option Cursor :=
  if p.cursor.kind = .parameter then some p.cursor else p.cursor.childOfKind? .parameter

/-- The name. -/
def name? (p : Parameter) : Option Text := p.inner?.bind (·.nameByField? .name)

/-- The default. -/
def default? (p : Parameter) : Option Value :=
  p.inner?.bind (·.viewByField? .defaultValue [.value])

/-- Whether the argument is exported as an environment variable. -/
def isExported (p : Parameter) : Bool :=
  match p.inner? with
  | some inner => inner.hasToken (.mark .dollar)
  | none => false

/-- How many values the parameter takes, if it is variadic. -/
def variadic? (p : Parameter) : Option Variadic :=
  (p.cursor.childByField? .kleene).bind fun sign =>
    match sign.kind with
    | .token (.mark .star) => some .zeroOrMore
    | .token (.mark .plus) => some .oneOrMore
    | _ => none

end Parameter

/-! ## Dependencies -/

namespace Dependency

/-- The part in parentheses, if there is one. -/
def call? (d : Dependency) : Option Cursor := d.cursor.childOfKind? .dependencyExpression

/-- The name of the recipe, with the modules it is in. -/
def name? (d : Dependency) : Option Text := (d.call?.getD d.cursor).pathByField? .name

/-- The arguments given to the recipe. -/
def arguments (d : Dependency) : List Expression :=
  match d.call? with
  | some call => call.views [.expression]
  | none => []

/-- Whether the dependency runs after the body: a `&&` stands before it, and no other dependency
between the two. -/
def isSubsequent (d : Dependency) : Bool :=
  let decides (c : Cursor) : Bool := c.kind == .token (.mark .ampAmp) || c.kind == .dependency
  match d.cursor.siblingsBefore.find? decides with
  | some nearest => nearest.kind != .dependency
  | none => false

end Dependency

/-! ## Bodies -/

/-- A piece of a body line. -/
inductive Fragment where
  | text (contents : Text)
  | interpolation (inner : Interpolation)

namespace Fragment

/-- The piece that a node stands for. -/
def of? (c : Cursor) : Option Fragment :=
  if c.kind = .text then some (.text c.text)
  else (View.of? [.interpolation] c).map .interpolation

end Fragment

namespace RecipeLine

/-- The signs in front of the line. -/
def sign? (l : RecipeLine) : Option Text :=
  (l.cursor.childOfKind? .recipeLinePrefix).map (·.text)

/-- Whether a sign is in front of the line. -/
def hasSign (l : RecipeLine) (c : Char) : Bool :=
  match l.sign? with
  | some sign => sign.contains c
  | none => false

/-- Whether the line flips echoing. -/
def isQuiet (l : RecipeLine) : Bool := l.hasSign '@'

/-- Whether a failure of the line is ignored. -/
def ignoresErrors (l : RecipeLine) : Bool := l.hasSign '-'

/-- The pieces of the line. -/
def fragments (l : RecipeLine) : List Fragment := l.cursor.children.filterMap Fragment.of?

end RecipeLine

namespace RecipeBody

/-- The shebang line of the body. -/
def shebang? (b : RecipeBody) : Option ShebangLine := b.cursor.viewByField? .shebang [.shebang]

/-- The lines of the body. -/
def lines (b : RecipeBody) : List RecipeLine := b.cursor.views [.recipeLine]

end RecipeBody

/-! ## Recipes -/

namespace Recipe

/-- The header. -/
def header? (r : Recipe) : Option Cursor := r.cursor.childOfKind? .recipeHeader

/-- The name. -/
def name? (r : Recipe) : Option Text := r.header?.bind (·.nameByField? .name)

/-- Whether no line is echoed. -/
def isQuiet (r : Recipe) : Bool :=
  match r.header? with
  | some header => header.hasToken (.mark .atSign)
  | none => false

/-- The attributes in front of the recipe. -/
def attributes (r : Recipe) : List AttributeGroup := r.cursor.views [.attributeGroup]

/-- Whether there is an attribute with a name. -/
def hasAttribute (r : Recipe) (name : Text) : Bool :=
  r.attributes.any fun group => (group.entry? name).isSome

/-- The parameters. -/
def parameters (r : Recipe) : List Parameter :=
  match r.header?.bind (·.childOfKind? .parameters) with
  | some list => list.views [.parameter, .variadicParameter]
  | none => []

/-- The dependencies. -/
def dependencies (r : Recipe) : List Dependency :=
  match r.header?.bind (·.childOfKind? .dependencies) with
  | some list => list.views [.dependency]
  | none => []

/-- The body. -/
def body? (r : Recipe) : Option RecipeBody := r.cursor.viewByField? .body [.recipeBody]

end Recipe

end Justfile
