import Justfile.Proofs.Printed.Layout

/-!
# Files as they are printed

A printed file is a list of entries. An entry is an assignment or a recipe, the indentation that the
body of a recipe is written with, and the number of empty lines after it. The conditions on names
and body lines are part of their types: a name is no keyword, a body line has neither signs in front
nor interpolations, and the first line of a body is neither deeper than the indentation nor a
shebang line.

As for expressions, the second half gives the layouts. Empty lines after a recipe with a body belong
to the body, which ends only where the next entry starts.
-/

set_option autoImplicit false

namespace Justfile.Printed

/-! ## Syntax -/

/-- An identifier that is no keyword. -/
@[ext]
structure Label extends Word where
  not_keyword : ∀ word : Keyword, text ≠ word.spelling

/-- A body line without its indentation. -/
@[ext]
structure Line where
  text : Text
  nonblank : ∃ c ∈ text, Measure.isBlank c = false
  plain : ∀ c ∈ text, c ≠ '\n' ∧ c ≠ '\r' ∧ c ≠ '\\'
  no_braces : ¬['{', '{'] <:+: text
  no_sign : text.head? ≠ some '@' ∧ text.head? ≠ some '-'

/-- Whether a body can start with the line. -/
def Line.Opens (l : Line) : Prop :=
  (∀ c ∈ l.text.head?, Measure.isBlank c = false) ∧ ¬['#', '!'] <+: l.text

/-- The lines of a body, which may have none. -/
@[ext]
structure Lines where
  list : List Line
  opens : ∀ l ∈ list.head?, l.Opens

/-- Blanks in front of body lines. -/
structure Indent where
  text : Text
  nonempty : text ≠ []
  blank : ∀ c ∈ text, Measure.isBlank c = true

/-- An assignment or a recipe. -/
inductive Decl where
  | assignment (name : Label) (value : Expr)
  | recipe (name : Label) (parameters dependencies : List Label) (lines : Lines)

/-- A declaration with the blanks it is written with: those in front of its body lines, and the
empty lines after it. -/
structure Entry where
  decl : Decl
  indent : Indent
  empty : Nat

/-! ## Printing -/

/-- How names are written behind another one. -/
def printNames (names : List Label) : Text := names.flatMap fun name => ' ' :: name.text

/-- How body lines are written. -/
def printLines (indent : Indent) (lines : List Line) : Text :=
  lines.flatMap fun line => indent.text ++ line.text ++ ['\n']

/-- How a declaration is written. -/
def Decl.print (indent : Indent) : Decl → Text
  | .assignment name value => name.text ++ [' ', ':', '=', ' '] ++ value.print ++ ['\n']
  | .recipe name parameters dependencies lines =>
    name.text ++ printNames parameters ++ [':'] ++ printNames dependencies ++ ['\n'] ++
      printLines indent lines.list

/-- How an entry is written. -/
def Entry.print (entry : Entry) : Text :=
  entry.decl.print entry.indent ++ List.replicate entry.empty '\n'

/-- How a file is written. -/
def printFile (entries : List Entry) : Text := entries.flatMap Entry.print

/-- The number of expressions and signs of a declaration. -/
def Decl.size : Decl → Nat
  | .assignment _ value => value.size
  | .recipe .. => 0

/-! ## Layouts -/

open Layout

/-- A line break. -/
def newline : Layout := leaf none .newline ['\n']

/-- Several line breaks. -/
def newlines (count : Nat) : Layout := concat (List.replicate count newline)

/-- A node of a kind around a name. -/
def named (kind : Node.Kind) (name : Label) : Layout :=
  group none kind (leaf (some .name) .identifier name.text)

/-- Nodes around names, each behind a blank. -/
def series (kind : Node.Kind) (names : List Label) : Layout :=
  concat (names.map fun name => blank ++ named kind name)

/-- Nodes around names, in a node of their own if there are any. -/
def listed (outer inner : Node.Kind) : List Label → Layout
  | [] => empty
  | name :: names => blank ++ group none outer (named inner name ++ series inner names)

/-- The layout of a recipe header. -/
def headerLayout (name : Label) (parameters dependencies : List Label) : Layout :=
  group none .recipeHeader (leaf (some .name) .identifier name.text ++
    (listed .parameters .parameter parameters ++
      (mark .colon ++ listed .dependencies .dependency dependencies)))

/-- The layout of a body line. -/
def lineLayout (indent : Indent) (line : Line) : Layout :=
  gap indent.text ++ group none .recipeLine (leaf none .text line.text) ++ newline

/-- The layout of body lines. -/
def linesLayout (indent : Indent) (lines : List Line) : Layout :=
  concat (lines.map (lineLayout indent))

/-- The layout of a body with the empty lines at its end. -/
def bodyLayout (indent : Indent) (lines : List Line) (count : Nat) : Layout :=
  group (some .body) .recipeBody
    (leaf none .indent [] ++ (linesLayout indent lines ++ (newlines count ++ leaf none .dedent [])))

/-- The layout of an assignment. -/
def assignmentLayout (name : Label) (value : Expr) : Layout :=
  group none .assignment (leaf (some .left) .identifier name.text ++
    (blank ++ (mark .colonEquals ++ (blank ++ (value.layout (some .right) ++ newline)))))

/-- The layout of a value that is assigned to a name. -/
def assigned (name : Label) (value : Layout) : Layout :=
  group none .assignment (leaf (some .left) .identifier name.text ++
    (blank ++ (mark .colonEquals ++ (blank ++ (value ++ newline)))))

theorem assignmentLayout_eq (name : Label) (value : Expr) :
    assignmentLayout name value = assigned name (value.layout (some .right)) := rfl

/-- The layout of a recipe with a body or without one. -/
def recipeLayout (header body : Layout) : Layout := group none .recipe (header ++ (newline ++ body))

/-- The layout of the item of an entry; empty lines after body lines belong to the body. -/
def Entry.item (entry : Entry) : Layout :=
  match entry.decl with
  | .assignment name value => assignmentLayout name value
  | .recipe name parameters dependencies ⟨[], _⟩ =>
    recipeLayout (headerLayout name parameters dependencies) Layout.empty
  | .recipe name parameters dependencies ⟨line :: lines, _⟩ =>
    recipeLayout (headerLayout name parameters dependencies)
      (bodyLayout entry.indent (line :: lines) entry.empty)

/-- The number of empty lines between an entry and the next one. -/
def Entry.trailing (entry : Entry) : Nat :=
  match entry.decl with
  | .recipe _ _ _ ⟨_ :: _, _⟩ => 0
  | _ => entry.empty

/-- The layout of an entry. -/
def Entry.layout (entry : Entry) : Layout := entry.item ++ newlines entry.trailing

/-- The layout of a file. -/
def fileLayout (entries : List Entry) : Layout := concat (entries.map Entry.layout)

/-! ## Their texts -/

theorem flatMap_replicate_newline (count : Nat) :
    (List.replicate count newline).flatMap Layout.text = List.replicate count '\n' := by
  induction count with
  | zero => rfl
  | succ count ih => rw [List.replicate_succ, List.flatMap_cons, ih, List.replicate_succ]; rfl

@[simp] theorem text_newlines (count : Nat) : (newlines count).text = List.replicate count '\n' := by
  rw [newlines, text_concat, flatMap_replicate_newline]

@[simp] theorem text_series (kind : Node.Kind) (names : List Label) :
    (series kind names).text = printNames names := by
  rw [series, text_concat, List.flatMap_map]
  rfl

@[simp] theorem text_listed (outer inner : Node.Kind) (names : List Label) :
    (listed outer inner names).text = printNames names := by
  cases names with
  | nil => rfl
  | cons name names => simp [listed, named, printNames]

@[simp] theorem text_lineLayout (indent : Indent) (line : Line) :
    (lineLayout indent line).text = indent.text ++ line.text ++ ['\n'] := by
  simp [lineLayout, newline]

/-- The lines of a body are laid out as they are printed. -/
@[simp] theorem text_linesLayout (indent : Indent) (lines : List Line) :
    (linesLayout indent lines).text = printLines indent lines := by
  rw [linesLayout, text_concat, List.flatMap_map]
  exact congrFun (congrArg List.flatMap (funext (text_lineLayout indent))) lines

/-- An entry is laid out as it is printed. -/
theorem Entry.text_layout (entry : Entry) : entry.layout.text = entry.print := by
  obtain ⟨decl, indent, count⟩ := entry
  match decl with
  | .assignment name value =>
    simp [Entry.layout, Entry.item, Entry.trailing, Entry.print, Decl.print, assignmentLayout,
      newline, Mark.name, value.text_layout]
  | .recipe name parameters dependencies ⟨[], _⟩ =>
    simp [Entry.layout, Entry.item, Entry.trailing, Entry.print, Decl.print, recipeLayout,
      headerLayout, newline, Mark.name, printLines]
  | .recipe name parameters dependencies ⟨line :: lines, _⟩ =>
    simp [Entry.layout, Entry.item, Entry.trailing, Entry.print, Decl.print, recipeLayout,
      headerLayout, bodyLayout, newline, Mark.name]

/-- **A file is laid out as it is printed.** -/
theorem text_fileLayout (entries : List Entry) : (fileLayout entries).text = printFile entries := by
  rw [fileLayout, text_concat, List.flatMap_map]
  exact congrFun (congrArg List.flatMap (funext Entry.text_layout)) entries

end Justfile.Printed
