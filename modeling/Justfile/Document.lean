import Justfile.Grammar.File

/-!
# Documents

A document is a text that is edited by positions and always has the tree of its current text.
Several edits are applied together: each to the text that the one before it left, and either all of
them or none. Documents are kept and changed by actions (`Document.Action`); the state of an action
outlives its failure.
-/

set_option autoImplicit false

namespace Justfile

/-- Puts a text in the place of what stands between two positions. -/
structure Edit where
  start : Position
  stop : Position
  text : Text
  deriving DecidableEq, Repr

/-- Puts a text in at a position. -/
def Edit.insertion (position : Position) (text : Text) : Edit := ⟨position, position, text⟩

/-- Why an edit cannot be applied. -/
inductive EditFault where
  /-- There is no such position in the text. -/
  | outOfBounds (position : Position)
  /-- The range ends before it starts. -/
  | reversedRange
  deriving DecidableEq, Repr

/-- An edit that could not be applied, and the version of the document it was meant for. -/
structure EditError where
  fault : EditFault
  version : Nat
  deriving DecidableEq, Repr

namespace EditError

/-- The error in words. -/
def message (error : EditError) : String :=
  (match error.fault with
    | .outOfBounds position => "position " ++ position.render ++ " is outside the document"
    | .reversedRange => "range ends before it starts") ++
    s!" (document version {error.version})"

end EditError

namespace Edit

/-- The two offsets between which an edit puts its text. -/
def resolve (edit : Edit) (text : Text) : Except EditFault (Nat × Nat) := do
  let lines := LineIndex.ofText text
  let offset (position : Position) : Except EditFault Nat :=
    match lines.offset? text position with
    | some offset => .ok offset
    | none => .error (.outOfBounds position)
  let start ← offset edit.start
  let stop ← offset edit.stop
  if stop < start then .error .reversedRange else .ok (start, stop)

/-- The text after an edit. -/
def apply (edit : Edit) (text : Text) : Except EditFault Text := do
  let (start, stop) ← edit.resolve text
  return (text.takeBytes? start).getD [] ++ edit.text ++ (text.dropBytes? stop).getD []

end Edit

/-- A text with its tree, and the number of changes so far. -/
structure Document where
  text : Text
  tree : Tree
  version : Nat
  limit : Nat

namespace Document

/-- A document that has not been changed. -/
def ofText (limit : Nat) (text : Text) : Document := ⟨text, parse limit text, 0, limit⟩

/-! ## Actions on a document -/

/-- What is done with a document that is kept. An action can fail, and what it has changed by then
stays changed: that a failure leaves the document as it was lies in the order of the steps. -/
abbrev Action := ExceptT EditError (StateM Document)

namespace Action

/-- Makes the tree anew after a change of the text, and counts the change. -/
def reparse : Action Unit :=
  modify fun document =>
    { document with
      tree := parse document.limit document.text, version := document.version + 1 }

/-- Puts another text in the place of the whole. -/
def replace (text : Text) : Action Unit := do
  modify ({ · with text })
  reparse

/-- The text after an edit. An edit that cannot be applied is reported with the version. -/
def edited (text : Text) (edit : Edit) : Action Text := do
  match edit.apply text with
  | .ok changed => return changed
  | .error fault => throw ⟨fault, (← get).version⟩

/-- Applies edits to a copy of the text, which becomes the text of the document after the last of
them. -/
def applyAll (edits : List Edit) : Action Unit := do
  let document ← get
  let text ← edits.foldlM edited document.text
  replace text

/-- Applies one edit. -/
def apply (edit : Edit) : Action Unit := applyAll [edit]

/-- The outcome of an action, and the document that is kept after it. -/
def runOn (action : Action Unit) (document : Document) : Except EditError Unit × Document :=
  action.run.run document

end Action

/-- The document after its text is replaced. -/
def replace (document : Document) (text : Text) : Document := ((Action.replace text).runOn document).2

/-- The document after an action, unless that fails. -/
def after (document : Document) (action : Action Unit) : Except EditError Document :=
  match action.runOn document with
  | (.ok (), changed) => .ok changed
  | (.error error, _) => .error error

/-- The document after several edits, which apply all or none. -/
def applyAll (document : Document) (edits : List Edit) : Except EditError Document :=
  document.after (Action.applyAll edits)

/-- The document after one edit. -/
def apply (document : Document) (edit : Edit) : Except EditError Document :=
  document.after (Action.apply edit)

/-! ## Calls -/

/-- What is asked of a document that is kept. -/
inductive Call where
  | replace (text : Text)
  | edit (edit : Edit)
  | edits (edits : List Edit)
  deriving DecidableEq, Repr

/-- The action that answers a call. -/
def Action.answer : Call → Action Unit
  | .replace text => replace text
  | .edit edit => apply edit
  | .edits edits => applyAll edits

/-- A call, with its outcome and the document that is kept after it. -/
def perform (document : Document) (call : Call) : Except EditError Unit × Document :=
  (Action.answer call).runOn document

/-- Calls one after the other, with their outcomes and the document after them. -/
def performAll (document : Document) : List Call → List (Except EditError Unit) × Document
  | [] => ([], document)
  | call :: calls =>
    let (outcome, next) := document.perform call
    let (outcomes, last) := next.performAll calls
    (outcome :: outcomes, last)

end Document

end Justfile
