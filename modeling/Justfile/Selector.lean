import Justfile.Cursor
import Justfile.Text.Space

/-!
# Selectors

A selector is a short text that picks nodes below a node by the names of their kinds.

| selector   | picks                                            |
|------------|--------------------------------------------------|
| `kind`     | the node itself and all below it, of the kind    |
| `kind[i]`  | the one of those with `i` others before it       |
| `^kind`    | the children of the kind; `^kind[i]` one of them |
| `@i`       | the child with `i` others before it, trivia apart |
| `a > b`    | the children `b` of what `a` picks               |
| `a b`      | the nodes `b` below what `a` picks               |
| `a, b`     | what `a` picks, then what `b` picks              |
-/

set_option autoImplicit false

namespace Justfile.Selector

/-- The name of a kind, and which of the matches is meant. -/
structure Pick where
  name : Text
  index : Option Nat
  deriving DecidableEq, Repr

/-- A selector without commas. -/
inductive Clause where
  /-- The child at an index; a text that is no index picks nothing. -/
  | position (index : Option Nat)
  /-- Children of a kind. -/
  | children (pick : Pick)
  /-- Nodes of a kind, from them nodes below, and from those children, step by step. -/
  | path (first : Pick) (inner : List Text) (direct : List Text)
  deriving DecidableEq, Repr

/-! ## Reading -/

/-- The value of decimal digits. -/
def decimal (digits : Text) : Nat := digits.foldl (fun n c => 10 * n + (c.toNat - '0'.toNat)) 0

/-- An index: decimal digits, with an optional `+` in front, that fit in 64 bits. -/
def index? (text : Text) : Option Nat :=
  let digits := match text with
    | '+' :: rest => rest
    | _ => text
  if digits.isEmpty || !digits.all Char.isDigit then none
  else
    let n := decimal digits
    if n < UInt64.size then some n else none

/-- The name and the text between the brackets of `kind[i]`. -/
def bracketed? (text : Text) : Option (Text × Text) := do
  let inner ← text.dropTail? [']']
  match inner.dropWhile (· != '[') with
  | '[' :: index => some (inner.takeWhile (· != '['), index)
  | _ => none

/-- A kind with an optional index. A text in brackets that is no index belongs to the name. -/
def Pick.ofText (text : Text) : Pick :=
  match bracketed? text with
  | some (name, inner) =>
    match index? inner.trim with
    | some index => ⟨name.trim, some index⟩
    | none => ⟨text, none⟩
  | none => ⟨text, none⟩

/-- Names with blanks between them, of which the first may have an index, and the names of the
children to go on to. -/
def Clause.ofPath (text : Text) (direct : List Text) : Clause :=
  if text.any Text.isSpace then
    match text.words with
    | first :: inner => .path (.ofText first) inner direct
    | [] => .path (.ofText []) [] direct
  else .path (.ofText text) [] direct

/-- A selector without commas. -/
def Clause.ofText (text : Text) : Clause :=
  match text.trim with
  | '@' :: rest => .position (index? rest)
  | '^' :: rest => .children (.ofText rest)
  | trimmed =>
    match (trimmed.splitBy (· == '>')).map Text.trim with
    | first :: direct => .ofPath first direct
    | [] => .ofPath [] []

/-- The clauses of a selector. -/
def clauses (text : Text) : List Clause := (text.splitBy (· == ',')).map Clause.ofText

/-! ## Picking -/

/-- Whether the kind of a node has a name. -/
def isNamed (name : Text) (c : Cursor) : Bool := c.kind.name.toList == name

/-- The matches that are meant: all of them, or the one at an index. -/
def Pick.choose (pick : Pick) (candidates : List Cursor) : List Cursor :=
  let found := candidates.filter (isNamed pick.name)
  match pick.index with
  | none => found
  | some index => found[index]?.toList

/-- From each node, those below it with a name. -/
def stepBelow (found : List Cursor) (name : Text) : List Cursor :=
  found.flatMap fun c => (c.descendants.drop 1).filter (isNamed name)

/-- From each node, its children with a name. -/
def stepChildren (found : List Cursor) (name : Text) : List Cursor :=
  found.flatMap fun c => c.children.filter (isNamed name)

/-- What a clause picks. -/
def Clause.select (clause : Clause) (c : Cursor) : List Cursor :=
  match clause with
  | .position none => []
  | .position (some index) => (c.children.filter (!·.kind.isTrivia))[index]?.toList
  | .children pick => pick.choose c.children
  | .path first inner direct =>
    direct.foldl stepChildren (inner.foldl stepBelow (first.choose c.descendants))

end Justfile.Selector

namespace Justfile.Cursor

/-- All that a selector picks, clause by clause and each in document order. -/
def select (c : Cursor) (selector : Text) : List Cursor :=
  (Selector.clauses selector).flatMap (·.select c)

/-- The first node that a selector picks. -/
def select? (c : Cursor) (selector : Text) : Option Cursor := (c.select selector).head?

end Justfile.Cursor
