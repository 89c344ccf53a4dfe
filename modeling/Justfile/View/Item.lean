import Justfile.Grammar.File
import Justfile.View.Expression
import Justfile.View.Recipe

/-!
# Views of items

The items of a file by their kinds, and the file itself.
-/

set_option autoImplicit false

namespace Justfile

/-! ## Assignments -/

namespace Assignment

/-- The name on the left. -/
def name? (a : Assignment) : Option Text := a.cursor.nameByField? .left

/-- The expression on the right. -/
def value? (a : Assignment) : Option Expression := a.cursor.viewByField? .right [.expression]

/-- Whether the assignment stands behind `export`. -/
def isExported (a : Assignment) : Bool :=
  match a.cursor.parent? with
  | some parent => parent.kind == .exportItem
  | none => false

end Assignment

namespace ExportItem

/-- The assignment behind the keyword. -/
def assignment? (e : ExportItem) : Option Assignment := e.cursor.view? [.assignment]

/-- Whether the keyword is `unexport`. -/
def isUnexport (e : ExportItem) : Bool := e.cursor.kind == .unexportItem

end ExportItem

/-! ## Aliases, imports and modules -/

namespace AliasItem

/-- The new name. -/
def name? (a : AliasItem) : Option Text := a.cursor.nameByField? .left

/-- The recipe that is meant, with the modules it is in. -/
def target? (a : AliasItem) : Option Text := a.cursor.pathByField? .right

end AliasItem

namespace ImportItem

/-- The path of the other file. -/
def path? (i : ImportItem) : Option StringLiteral := i.cursor.view? [.string]

/-- Whether the other file may be absent. -/
def isOptional (i : ImportItem) : Bool := i.cursor.hasToken (.mark .question)

end ImportItem

namespace ModuleItem

/-- The name of the module. -/
def name? (m : ModuleItem) : Option Text := m.cursor.nameByField? .name

/-- The path of the module's file. -/
def path? (m : ModuleItem) : Option StringLiteral := m.cursor.view? [.string]

/-- Whether the file may be absent. -/
def isOptional (m : ModuleItem) : Bool := m.cursor.hasToken (.mark .question)

end ModuleItem

/-! ## Settings -/

/-- The value of a setting. -/
inductive SettingValue where
  | boolean (value : Bool)
  | string (literal : StringLiteral)
  | array (elements : List StringLiteral)

namespace SettingValue

/-- The value that a node stands for. -/
def of? (c : Cursor) : Option SettingValue :=
  match c.kind with
  | .boolean => some (.boolean (c.hasToken (.keyword .trueWord)))
  | .array => some (.array ((c.childrenByField .element).filterMap (View.of? [.string])))
  | _ => (View.of? [.string] c).map .string

end SettingValue

namespace Setting

/-- The name of the setting. -/
def name? (s : Setting) : Option Text := s.cursor.nameByField? .left

/-- The value; a setting without one is switched on. -/
def value? (s : Setting) : Option SettingValue :=
  (s.cursor.childByField? .right).bind SettingValue.of?

end Setting

/-! ## Items -/

/-- An item of a file. -/
inductive Item where
  | aliasItem (view : AliasItem)
  | assignment (view : Assignment)
  | exportItem (view : ExportItem)
  | importItem (view : ImportItem)
  | moduleItem (view : ModuleItem)
  | setting (view : Setting)
  | recipe (view : Recipe)

namespace Item

/-- The item that a node stands for. -/
def of? (c : Cursor) : Option Item :=
  ((View.of? [.aliasItem] c).map aliasItem).or <|
  ((View.of? [.assignment] c).map assignment).or <|
  ((View.of? [.exportItem, .unexportItem] c).map exportItem).or <|
  ((View.of? [.importItem] c).map importItem).or <|
  ((View.of? [.moduleItem] c).map moduleItem).or <|
  ((View.of? [.setting] c).map setting).or <|
  (View.of? [.recipe] c).map recipe

/-- The node of the item. -/
def cursor : Item → Cursor
  | aliasItem view => view.cursor
  | assignment view => view.cursor
  | exportItem view => view.cursor
  | importItem view => view.cursor
  | moduleItem view => view.cursor
  | setting view => view.cursor
  | recipe view => view.cursor

/-- The attributes in front of the item. -/
def attributes (item : Item) : List AttributeGroup := item.cursor.views [.attributeGroup]

/-- The assignment that the item is or holds. -/
def assignment? : Item → Option Assignment
  | assignment view => some view
  | exportItem view => view.assignment?
  | _ => none

end Item

/-! ## Files -/

namespace SourceFile

/-- The items, in order. -/
def items (f : SourceFile) : List Item := f.cursor.children.filterMap Item.of?

/-- The recipes, in order. -/
def recipes (f : SourceFile) : List Recipe := f.cursor.views [.recipe]

/-- The assignments, in order, those behind `export` and `unexport` included. -/
def assignments (f : SourceFile) : List Assignment := f.items.filterMap Item.assignment?

/-- The shebang line at the top. -/
def shebang? (f : SourceFile) : Option ShebangLine := f.cursor.view? [.shebang]

/-- The first recipe with a name. -/
def recipe? (f : SourceFile) (name : Text) : Option Recipe :=
  f.recipes.find? (·.name? == some name)

end SourceFile

/-- The view of a parsed file. -/
def sourceFile (limit : Nat) (source : Text) : SourceFile :=
  ⟨(parse limit source).rootCursor, List.mem_singleton.2 (kind_root_parse limit source)⟩

end Justfile
