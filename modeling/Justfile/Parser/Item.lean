import Justfile.Grammar.Item
import Justfile.Parser.Recipe

/-!
# Building items

A file is a list of items, each with attributes in front of it. They are read before it shows which item
it is; its node is opened at a checkpoint in front of them.
-/

set_option autoImplicit false

namespace Justfile.Parser

open Grammar (peek peekAt peekToken isAt isAtMark isKeywordAt wantsArray ItemKind)

variable (rules : Rules)

/-! ## Attributes -/

/-- The value of an argument with a name, if it has one. -/
def argumentValue : Action Unit := do
  if ← isAtMark .equals then
    bump
    setField .value
    stringOr rules .string

/-- An argument with a name and, after `=`, a value. -/
def namedArgument : Action Unit := do
  startNode .attributeNamedParam
  bumpField .name
  argumentValue rules
  let _ ← finishNode

/-- One argument of an attribute. -/
def attributeArgument : Action Unit := do
  match ← peek with
  | .stringOpen dialect =>
    setField .argument
    string rules dialect
  | .identifier =>
    setField .argument
    namedArgument rules
  | _ => errorToken rules .attributeArgument

/-- A further argument of an attribute, with the comma after it. -/
def attributeArgumentStep (_ : Unit) : Action (Option Unit) := do
  match ← peek with
  | .mark .parenR | .endOfInput => done
  | _ =>
    attributeArgument rules
    if ← isAtMark .comma then
      bump
      again
    else done

/-- One entry of an attribute: a flag, a call, or a key with a value. -/
def attributeEntry : Action Unit := do
  match ← peekAt 1 with
  | .mark .parenL =>
    startNode .attributeCall
    bumpField .name
    openBracket
    loop (attributeArgumentStep rules) rules.budget ()
    closeBracket .parenR
  | .mark .colon =>
    startNode .attributeKeyValue
    bumpField .name
    bump
    setField .argument
    stringOr rules .string
  | _ =>
    startNode .attributeFlag
    bumpField .name
  let _ ← finishNode

/-- A further entry of an attribute, with the comma after it. -/
def attributeEntryStep (_ : Unit) : Action (Option Unit) := do
  match ← peek with
  | .mark .bracketR | .endOfInput =>
    missing .attributeName
    done
  | kind =>
    if kind = .identifier then attributeEntry rules else errorToken rules .attributeName
    if ← isAtMark .comma then
      bump
      again
    else done

/-- Entries in square brackets, and the end of their line. -/
def attributeGroup : Action Unit := do
  startNode .attributeGroup
  openBracket
  loop (attributeEntryStep rules) rules.budget ()
  closeBracket .bracketR
  bumpIf .newline
  let _ ← finishNode

/-- A further attribute in front of an item. Once there is one, empty lines may follow. -/
def attributesStep (attributed : Bool) : Action (Option Bool) := do
  if ← isAtMark .bracketL then
    attributeGroup rules
    return some true
  else if attributed && (← isAt .newline) then
    bump
    return some true
  else done

/-- The attributes in front of an item; says whether there are any. -/
def attributes : Action Bool := loop (attributesStep rules) rules.budget false

/-! ## Single items -/

/-- A name, `:=` and an expression. -/
def assignment (checkpoint : Nat) : Action Unit := do
  startNodeAt checkpoint .assignment none
  expectIdentifier .left .variableName
  let _ ← expectMark .colonEquals
  setField .right
  rules.expression
  lineEnd rules
  let _ ← finishNode

/-- A keyword in front of an assignment. -/
def exported (kind : Node.Kind) (word : Keyword) (outer : Nat) : Action Unit := do
  startNodeAt outer kind none
  bumpKeyword word
  let inner ← checkpoint
  assignment rules inner
  let _ ← finishNode

/-- Another name for a recipe. -/
def aliasItem (checkpoint : Nat) : Action Unit := do
  startNodeAt checkpoint .aliasItem none
  bumpKeyword .aliasWord
  expectIdentifier .left .aliasName
  let _ ← expectMark .colonEquals
  namePathOr rules .right .aliasTarget
  lineEnd rules
  let _ ← finishNode

/-- The items of another file. -/
def importItem (checkpoint : Nat) : Action Unit := do
  startNodeAt checkpoint .importItem none
  bumpKeyword .importWord
  bumpIf (.mark .question)
  stringOr rules .importPath
  lineEnd rules
  let _ ← finishNode

/-- The path of a module, if it is given. -/
def modulePath : Action Unit := do
  match ← peek with
  | .stringOpen dialect => string rules dialect
  | _ => return

/-- A module. -/
def moduleItem (checkpoint : Nat) : Action Unit := do
  startNodeAt checkpoint .moduleItem none
  bumpKeyword .modWord
  bumpIf (.mark .question)
  expectIdentifier .name .moduleName
  modulePath rules
  lineEnd rules
  let _ ← finishNode

/-! ## Settings -/

/-- A further element of an array, with the comma after it. Between two strings the comma may be
left out. -/
def arrayStep (_ : Unit) : Action (Option Unit) := do
  match ← peek with
  | .mark .bracketR | .endOfInput => done
  | kind =>
    match kind with
    | .stringOpen dialect =>
      setField .element
      string rules dialect
    | _ => errorToken rules .string
    if ← isAtMark .comma then
      bump
      again
    else if (← peek).isStringOpen then again
    else done

/-- Strings in square brackets. -/
def array : Action Unit := do
  startNode .array
  openBracket
  loop (arrayStep rules) rules.budget ()
  closeBracket .bracketR
  let _ ← finishNode

/-- A truth value; the next token is one of the two words. -/
def boolean : Action Unit := do
  startNode .boolean
  if ← isKeywordAt 0 .trueWord then bumpKeyword .trueWord else bumpKeyword .falseWord
  let _ ← finishNode

/-- The value of a setting. -/
def settingValue (arrayOnly : Bool) : Action Unit := do
  match ← peek with
  | .mark .bracketL =>
    setField .right
    array rules
  | kind =>
    if arrayOnly then recoverLine rules .array
    else
      match kind with
      | .stringOpen dialect =>
        setField .right
        string rules dialect
      | _ =>
        if (← isKeywordAt 0 .trueWord) || (← isKeywordAt 0 .falseWord) then
          setField .right
          boolean
        else recoverLine rules .settingValue

/-- The value of a setting, if there is one. -/
def settingValueOpt (arrayOnly : Bool) : Action Unit := do
  if ← isAtMark .colonEquals then
    bump
    settingValue rules arrayOnly

/-- A setting; a value may be left out. -/
def setting (checkpoint : Nat) : Action Unit := do
  startNodeAt checkpoint .setting none
  bumpKeyword .setWord
  let token ← peekToken 0
  bumpField .left
  settingValueOpt rules (wantsArray token.text)
  lineEnd rules
  let _ ← finishNode

/-! ## All items -/

/-- An item of a kind, around the attributes behind the checkpoint. -/
def itemOfKind (kind : ItemKind) (checkpoint : Nat) : Action Unit :=
  match kind with
  | .aliasItem => aliasItem rules checkpoint
  | .assignment => assignment rules checkpoint
  | .exportItem => exported rules .exportItem .exportWord checkpoint
  | .unexportItem => exported rules .unexportItem .unexportWord checkpoint
  | .importItem => importItem rules checkpoint
  | .moduleItem => moduleItem rules checkpoint
  | .setting => setting rules checkpoint
  | .recipe => recipe rules checkpoint

/-- A line that starts no item is wrapped. Attributes in front of it stay as they are, and then the
end of the line is left for the next item. -/
def noItem (attributed : Bool) : Action Unit := do
  if attributed then recoverLine rules .attributedItem
  else
    recoverLine rules .item
    bumpIf .newline

/-- An item with its attributes. -/
def attributedItem : Action Unit := do
  let checkpoint ← checkpoint
  let attributed ← attributes rules
  match ItemKind.detect? (← peekToken 0) (← peekAt 1) (← peekAt 2) with
  | some kind => itemOfKind rules kind checkpoint
  | none => noItem rules attributed

/-- An item, or a token between items. -/
def item : Action Unit := do
  match ← peek with
  | .newline | .indent | .dedent | .errorRecovery _ => bump
  | _ => attributedItem rules

end Justfile.Parser
