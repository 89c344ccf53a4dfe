import Justfile.Grammar.Recipe

/-!
# Items

A file is a list of items: aliases, assignments, exports, imports, modules, settings and recipes,
each with attributes in front of it. Which item it is shows in its first tokens.
-/

set_option autoImplicit false

namespace Justfile.Grammar

variable (rules : Rules)

/-! ## Attributes -/

/-- An argument with a name and, after `=`, a value. -/
def namedArgument (field : Field) : Parse Forest :=
  branch (some field) .attributeNamedParam do
    let name ← bump (some .name)
    if ← isAtMark .equals then
      let sign ← bump
      let value ← stringOr rules (some .value) .string
      return name ++ sign ++ value
    else return name

/-- One argument of an attribute. -/
def attributeArgument : Parse Forest := do
  match ← peek with
  | .stringOpen dialect => string rules (some .argument) dialect
  | .identifier => namedArgument rules .argument
  | _ => errorToken rules none .attributeArgument

/-- A further argument of an attribute, with the comma after it. -/
def attributeArgumentStep (_ : Unit) : Parse (Forest × Option Unit) := do
  match ← peek with
  | .mark .parenR | .endOfInput => done []
  | _ =>
    let argument ← attributeArgument rules
    if ← isAtMark .comma then
      let comma ← bump
      again (argument ++ comma)
    else done argument

/-- One entry of an attribute: a flag, a call, or a key with a value. -/
def attributeEntry : Parse Forest := do
  match ← peekAt 1 with
  | .mark .parenL =>
    branch none .attributeCall do
      let name ← bump (some .name)
      let opened ← openBracket
      let arguments ← loop (attributeArgumentStep rules) rules.budget ()
      let closed ← closeBracket .parenR
      return name ++ opened ++ arguments ++ closed
  | .mark .colon =>
    branch none .attributeKeyValue do
      let name ← bump (some .name)
      let colon ← bump
      let value ← stringOr rules (some .argument) .string
      return name ++ colon ++ value
  | _ => branch none .attributeFlag (bump (some .name))

/-- A further entry of an attribute, with the comma after it. -/
def attributeEntryStep (_ : Unit) : Parse (Forest × Option Unit) := do
  match ← peek with
  | .mark .bracketR | .endOfInput => done (← missing none .attributeName)
  | kind =>
    let entry ←
      if kind = .identifier then attributeEntry rules else errorToken rules none .attributeName
    if ← isAtMark .comma then
      let comma ← bump
      again (entry ++ comma)
    else done entry

/-- Entries in square brackets, and the end of their line. -/
def attributeGroup : Parse Forest :=
  branch none .attributeGroup do
    let opened ← openBracket
    let entries ← loop (attributeEntryStep rules) rules.budget ()
    let closed ← closeBracket .bracketR
    let newline ← bumpIf .newline
    return opened ++ entries ++ closed ++ newline

/-- A further attribute in front of an item. Once there is one, empty lines may follow. -/
def attributesStep (attributed : Bool) : Parse (Forest × Option Bool) := do
  if ← isAtMark .bracketL then
    let nodes ← attributeGroup rules
    return (nodes, some true)
  else if attributed && (← isAt .newline) then
    let nodes ← bump
    return (nodes, some true)
  else done []

/-- The attributes in front of an item. -/
def attributes : Parse Forest := loop (attributesStep rules) rules.budget false

/-! ## Single items -/

/-- A name, `:=` and an expression. -/
def assignment (adopted : Forest) : Parse Forest :=
  enclose .assignment adopted do
    let name ← expectIdentifier .left .variableName
    let sign ← expectMark .colonEquals
    let value ← rules.expression (some .right)
    let ending ← lineEnd rules
    return name ++ sign ++ value ++ ending

/-- A keyword in front of an assignment. -/
def exported (kind : Node.Kind) (word : Keyword) (adopted : Forest) : Parse Forest :=
  enclose kind adopted do
    let first ← bumpKeyword word
    let before ← trivia
    let inner ← assignment rules []
    return first ++ before ++ inner

/-- Another name for a recipe. -/
def aliasItem (adopted : Forest) : Parse Forest :=
  enclose .aliasItem adopted do
    let word ← bumpKeyword .aliasWord
    let name ← expectIdentifier .left .aliasName
    let sign ← expectMark .colonEquals
    let target ←
      if ← isAt .identifier then namePath rules .right else missing (some .right) .aliasTarget
    let ending ← lineEnd rules
    return word ++ name ++ sign ++ target ++ ending

/-- The items of another file. -/
def importItem (adopted : Forest) : Parse Forest :=
  enclose .importItem adopted do
    let word ← bumpKeyword .importWord
    let sign ← bumpIf (.mark .question)
    let path ← stringOr rules none .importPath
    let ending ← lineEnd rules
    return word ++ sign ++ path ++ ending

/-- The path of a module, if it is given. -/
def modulePath : Parse Forest := do
  match ← peek with
  | .stringOpen dialect => string rules none dialect
  | _ => return []

/-- A module. -/
def moduleItem (adopted : Forest) : Parse Forest :=
  enclose .moduleItem adopted do
    let word ← bumpKeyword .modWord
    let sign ← bumpIf (.mark .question)
    let name ← expectIdentifier .name .moduleName
    let path ← modulePath rules
    let ending ← lineEnd rules
    return word ++ sign ++ name ++ path ++ ending

/-! ## Settings -/

/-- A further element of an array, with the comma after it. Between two strings the comma may be
left out. -/
def arrayStep (_ : Unit) : Parse (Forest × Option Unit) := do
  match ← peek with
  | .mark .bracketR | .endOfInput => done []
  | kind =>
    let element ← match kind with
      | .stringOpen dialect => string rules (some .element) dialect
      | _ => errorToken rules none .string
    if ← isAtMark .comma then
      let comma ← bump
      again (element ++ comma)
    else if (← peek).isStringOpen then again element
    else done element

/-- Strings in square brackets. -/
def array (field : Field) : Parse Forest :=
  branch (some field) .array do
    let opened ← openBracket
    let elements ← loop (arrayStep rules) rules.budget ()
    let closed ← closeBracket .bracketR
    return opened ++ elements ++ closed

/-- A truth value; the next token is one of the two words. -/
def boolean (field : Field) : Parse Forest :=
  branch (some field) .boolean do
    if ← isKeywordAt 0 .trueWord then bumpKeyword .trueWord else bumpKeyword .falseWord

/-- The settings whose value is an array. -/
def wantsArray (name : Text) : Bool :=
  name == "shell".toList || name == "windows-shell".toList || name == "script-interpreter".toList

/-- The value of a setting. -/
def settingValue (arrayOnly : Bool) : Parse Forest := do
  match ← peek with
  | .mark .bracketL => array rules .right
  | kind =>
    if arrayOnly then recoverLine rules .array
    else
      match kind with
      | .stringOpen dialect => string rules (some .right) dialect
      | _ =>
        if (← isKeywordAt 0 .trueWord) || (← isKeywordAt 0 .falseWord) then boolean .right
        else recoverLine rules .settingValue

/-- A setting; a value may be left out. -/
def setting (adopted : Forest) : Parse Forest :=
  enclose .setting adopted do
    let word ← bumpKeyword .setWord
    let token ← peekToken 0
    let name ← bump (some .left)
    let value ←
      if ← isAtMark .colonEquals then do
        let sign ← bump
        let nodes ← settingValue rules (wantsArray token.text)
        pure (sign ++ nodes)
      else pure []
    let ending ← lineEnd rules
    return word ++ name ++ value ++ ending

/-! ## All items -/

/-- The items there are. -/
inductive ItemKind where
  | aliasItem | assignment | exportItem | unexportItem | importItem | moduleItem | setting | recipe
  deriving DecidableEq, Repr

/-- Which item starts with a token, by the kinds of the two tokens after it. A keyword that is not
followed by what it needs is an ordinary name. -/
def ItemKind.detect? (first : Token) (second third : Token.Kind) : Option ItemKind :=
  match first.kind with
  | .mark .atSign => some .recipe
  | .identifier =>
    let isWord (word : Keyword) : Bool := first.text == word.spelling
    let isNamed := second == .identifier
    let isAssigned := isNamed && third == .mark .colonEquals
    let isOptional := second == .mark .question
    -- The words are tried before the signs: `set := 1` falls through to an assignment.
    some
      (if isWord .aliasWord && isNamed then .aliasItem
      else if isWord .exportWord && isAssigned then .exportItem
      else if isWord .unexportWord && isAssigned then .unexportItem
      else if isWord .importWord && (second.isStringOpen || isOptional) then .importItem
      else if isWord .modWord && (isNamed || isOptional) then .moduleItem
      else if isWord .setWord && isNamed then .setting
      else if second == .mark .colonEquals then .assignment
      else .recipe)
  | _ => none

/-- An item of a kind, around the attributes in front of it. -/
def itemOfKind (kind : ItemKind) (adopted : Forest) : Parse Forest :=
  match kind with
  | .aliasItem => aliasItem rules adopted
  | .assignment => assignment rules adopted
  | .exportItem => exported rules .exportItem .exportWord adopted
  | .unexportItem => exported rules .unexportItem .unexportWord adopted
  | .importItem => importItem rules adopted
  | .moduleItem => moduleItem rules adopted
  | .setting => setting rules adopted
  | .recipe => recipe rules adopted

/-- A line that starts no item is wrapped. Attributes in front of it stay as they are, and then the
end of the line is left for the next item. -/
def noItem (attributes : Forest) : Parse Forest := do
  if attributes.isEmpty then
    let wrapped ← recoverLine rules .item
    let newline ← bumpIf .newline
    return wrapped ++ newline
  else
    let wrapped ← recoverLine rules .attributedItem
    return attributes ++ wrapped

/-- An item with its attributes. -/
def attributedItem : Parse Forest := do
  let before ← trivia
  let adopted ← attributes rules
  let kind := ItemKind.detect? (← peekToken 0) (← peekAt 1) (← peekAt 2)
  let nodes ← match kind with
    | some kind => itemOfKind rules kind adopted
    | none => noItem rules adopted
  return before ++ nodes

/-- An item, or a token between items. -/
def item : Parse Forest := do
  match ← peek with
  | .newline | .indent | .dedent | .errorRecovery _ => bump
  | _ => attributedItem rules

end Justfile.Grammar
