import Justfile.Dialect
import Justfile.Node
import Justfile.Proofs.Printed.Syntax

/-!
# Layouts

A layout is a text together with the nodes that it should be read as; the nodes depend on where the
text starts. Layouts are joined like texts, so the layout of a construct is put together from the
layouts of its tokens and parts, as the construct is written.

The second half gives the layout of each expression: which nodes it consists of, and which blanks
stand between them. That the text of the layout is what `Expr.print` writes is `Expr.text_layout`.
-/

set_option autoImplicit false

namespace Justfile

/-- A text, and the nodes it is read as when it starts at an offset. -/
@[ext]
structure Layout where
  text : Text
  nodes : Nat → Forest

namespace Layout

/-- Nothing at all. -/
def empty : Layout := ⟨[], fun _ => []⟩

/-- One layout after another. -/
def append (first second : Layout) : Layout :=
  ⟨first.text ++ second.text, fun start =>
    first.nodes start ++ second.nodes (start + first.text.byteSize)⟩

instance : Append Layout := ⟨append⟩

/-- A token. -/
def leaf (field : Option Field) (kind : Token.Kind) (text : Text) : Layout :=
  ⟨text, fun start => [.leaf field (.ofToken kind) ⟨start, start + text.byteSize⟩]⟩

/-- A node around a layout. -/
def group (field : Option Field) (kind : Node.Kind) (inner : Layout) : Layout :=
  ⟨inner.text, fun start =>
    [.branch field kind (inner.nodes start) (start + inner.text.byteSize)]⟩

/-- A punctuation mark. -/
def mark (sign : Mark) : Layout := leaf none (.mark sign) sign.name.toList

/-- A word that is read as a keyword. -/
def keyword (word : Keyword) : Layout := leaf none (.keyword word) word.spelling

/-- White space, if there is any. -/
def gap : Text → Layout
  | [] => empty
  | c :: rest => leaf none .whitespace (c :: rest)

/-- One blank. -/
abbrev blank : Layout := gap [' ']

/-- Several layouts one after another. -/
def concat : List Layout → Layout
  | [] => empty
  | first :: more => first ++ concat more

/-! ## Small facts -/

@[simp] theorem text_empty : empty.text = [] := rfl

@[simp] theorem nodes_empty (start : Nat) : empty.nodes start = [] := rfl

@[simp] theorem text_append (first second : Layout) :
    (first ++ second).text = first.text ++ second.text := rfl

/-- The nodes of the second part start behind the text of the first. -/
@[simp] theorem nodes_append (first second : Layout) (start : Nat) :
    (first ++ second).nodes start =
      first.nodes start ++ second.nodes (start + first.text.byteSize) := rfl

@[simp] theorem text_leaf (field : Option Field) (kind : Token.Kind) (text : Text) :
    (leaf field kind text).text = text := rfl

@[simp] theorem nodes_leaf (field : Option Field) (kind : Token.Kind) (text : Text) (start : Nat) :
    (leaf field kind text).nodes start =
      [.leaf field (.ofToken kind) ⟨start, start + text.byteSize⟩] := rfl

@[simp] theorem text_group (field : Option Field) (kind : Node.Kind) (inner : Layout) :
    (group field kind inner).text = inner.text := rfl

/-- A group is one node that ends where its text ends. -/
@[simp] theorem nodes_group (field : Option Field) (kind : Node.Kind) (inner : Layout)
    (start : Nat) :
    (group field kind inner).nodes start =
      [.branch field kind (inner.nodes start) (start + inner.text.byteSize)] := rfl

@[simp] theorem text_mark (sign : Mark) : (mark sign).text = sign.name.toList := rfl

@[simp] theorem text_keyword (word : Keyword) : (keyword word).text = word.spelling := rfl

@[simp] theorem text_gap (text : Text) : (gap text).text = text := by
  cases text <;> rfl

@[simp] theorem text_concat (layouts : List Layout) :
    (concat layouts).text = layouts.flatMap Layout.text := by
  induction layouts with
  | nil => rfl
  | cons first more ih => rw [concat, text_append, ih, List.flatMap_cons]

theorem append_assoc (first second third : Layout) :
    first ++ second ++ third = first ++ (second ++ third) := by
  have hnodes : (first ++ second ++ third).nodes = (first ++ (second ++ third)).nodes := by
    funext start
    simp [Nat.add_assoc]
  have htext : (first ++ second ++ third).text = (first ++ (second ++ third)).text := by
    simp
  exact Layout.ext htext hnodes

@[simp] theorem empty_append (layout : Layout) : empty ++ layout = layout := rfl

@[simp] theorem append_empty (layout : Layout) : layout ++ empty = layout := by
  have hnodes : (layout ++ empty).nodes = layout.nodes := by
    funext start
    simp
  have htext : (layout ++ empty).text = layout.text := by
    simp
  exact Layout.ext htext hnodes

end Layout

namespace Printed

open Layout

/-! ## Layouts of expressions -/

/-- The dialect of printed strings. -/
def quotes : Dialect := ⟨.plain, .single, false⟩

/-- The contents of a string; an empty string has none. -/
def Quoted.inner (s : Quoted) : Layout :=
  if s.contents = [] then empty else leaf none .stringContent s.contents

/-- A string with its quotes. -/
def Quoted.layout (s : Quoted) : Layout :=
  group none .string
    (leaf none (.stringOpen quotes) ['\''] ++ (s.inner ++ leaf none (.stringClose quotes) ['\'']))

/-- Something in braces, with blanks around it and in front of the braces. -/
def inBraces (inner : Layout) : Layout :=
  blank ++ (mark .braceL ++ (blank ++ (inner ++ (blank ++ mark .braceR))))

/-- The sign of a comparison. -/
def equality (equal : Bool) : Mark := if equal then .equalsEquals else .bangEquals

/-- Two sides with a sign between them, each side an expression of its own. -/
def joined (left : Layout) (sign : Mark) (right : Layout) : Layout :=
  group (some .left) .expression left ++
    (blank ++ (mark sign ++ (blank ++ group (some .right) .expression right)))

mutual
/-- The layout of an expression. -/
def Expr.layout (field : Option Field) : Expr → Layout
  | .mk true sum => group field .expression (mark .slash ++ (blank ++ sum.layout))
  | .mk false sum => group field .expression sum.layout
/-- The layout of a sum. -/
def Sum.layout : Sum → Layout
  | .term only => only.layout
  | .plus left right => joined left.layout .plus right.layout
/-- The layout of a term. -/
def Term.layout : Term → Layout
  | .operand only => only.layout
  | .slash left right => joined left.layout .slash right.layout
/-- The layout of an operand. -/
def Operand.layout : Operand → Layout
  | .value atom => group none .value atom.layout
  | .conditional test consequence more =>
    group none .ifExpression
      (keyword .ifWord ++ (blank ++ (test.layout ++
        (inBraces (consequence.layout (some .consequence)) ++ more.layout))))
/-- The layout of further branches. -/
def Else.layout : Else → Layout
  | .none => empty
  | .otherwise body =>
    blank ++ group (some .alternative) .elseClause
      (keyword .elseWord ++ inBraces (body.layout (some .body)))
  | .elseIf test body more =>
    blank ++ (group (some .alternative) .elseIfClause
      (keyword .elseWord ++ (blank ++ (keyword .ifWord ++
        (blank ++ (test.layout ++ inBraces (body.layout (some .body))))))) ++ more.layout)
/-- The layout of a condition. -/
def Test.layout : Test → Layout
  | .alone left => group none .condition (left.layout (some .left))
  | .compare left equal right =>
    group none .condition (left.layout (some .left) ++
      (blank ++ (mark (equality equal) ++ (blank ++ right.layout (some .right)))))
  | .pattern left right =>
    group none .condition (left.layout (some .left) ++
      (blank ++ (mark .equalsTilde ++ (blank ++ group (some .right) .regexLiteral right.layout))))
/-- The layout of what a value consists of. -/
def Atom.layout : Atom → Layout
  | .name name => leaf none .identifier name.text
  | .string string => string.layout
  | .call function arguments =>
    group none .functionCall (leaf (some .name) .identifier function.text ++
      (mark .parenL ++ (arguments.layout ++ mark .parenR)))
  | .group inner => mark .parenL ++ (inner.layout none ++ mark .parenR)
/-- The layout of arguments. -/
def Args.layout : Args → Layout
  | .nil => empty
  | .cons first more => group (some .arguments) .sequence (first.layout none ++ more.layoutMore)
/-- The layout of arguments after another one. -/
def Args.layoutMore : Args → Layout
  | .nil => empty
  | .cons first more => mark .comma ++ (blank ++ (first.layout none ++ more.layoutMore))
end

/-! ## Conditions in two parts -/

/-- The left side of a condition. -/
def Test.left : Test → Expr
  | .alone left => left
  | .compare left _ _ => left
  | .pattern left _ => left

/-- What a condition has after its left side. -/
def Test.comparison : Test → Layout
  | .alone _ => empty
  | .compare _ equal right =>
    blank ++ (mark (equality equal) ++ (blank ++ right.layout (some .right)))
  | .pattern _ right =>
    blank ++ (mark .equalsTilde ++ (blank ++ group (some .right) .regexLiteral right.layout))

/-- A condition is its left side and the comparison behind it. -/
theorem Test.layout_eq (c : Test) :
    c.layout = group none .condition (c.left.layout (some .left) ++ c.comparison) := by
  cases c with
  | alone left => rw [Test.layout, Test.left, Test.comparison, append_empty]
  | compare left equal right => rfl
  | pattern left right => rfl

/-! ## Their texts -/

@[simp] theorem Quoted.text_inner (s : Quoted) : s.inner.text = s.contents := by
  rw [Quoted.inner]
  split
  · next h => rw [h]; rfl
  · rfl

@[simp] theorem Quoted.text_layout (s : Quoted) : s.layout.text = s.print := by
  simp [Quoted.layout, Quoted.print]

@[simp] theorem text_inBraces (inner : Layout) :
    (inBraces inner).text = [' ', '{', ' '] ++ inner.text ++ [' ', '}'] := by
  simp [inBraces, Mark.name]

/-- Two sides are written with the sign between them. -/
@[simp] theorem text_joined (left : Layout) (sign : Mark) (right : Layout) :
    (joined left sign right).text = left.text ++ ' ' :: sign.name.toList ++ ' ' :: right.text := by
  simp [joined]

mutual
/-- The text of a layout is the printed form. -/
theorem Expr.text_layout (field : Option Field) : (e : Expr) → (e.layout field).text = e.print
  | .mk true sum => by simp [Expr.layout, Expr.print, Mark.name, sum.text_layout]
  | .mk false sum => by simp [Expr.layout, Expr.print, sum.text_layout]
/-- A sum is laid out as it is printed. -/
theorem Sum.text_layout : (s : Sum) → s.layout.text = s.print
  | .term only => by simp [Sum.layout, Sum.print, only.text_layout]
  | .plus left right => by
    simp [Sum.layout, Sum.print, Mark.name, left.text_layout, right.text_layout]
/-- A term is laid out as it is printed. -/
theorem Term.text_layout : (t : Term) → t.layout.text = t.print
  | .operand only => by simp [Term.layout, Term.print, only.text_layout]
  | .slash left right => by
    simp [Term.layout, Term.print, Mark.name, left.text_layout, right.text_layout]
/-- An operand is laid out as it is printed. -/
theorem Operand.text_layout : (o : Operand) → o.layout.text = o.print
  | .value atom => by simp [Operand.layout, Operand.print, atom.text_layout]
  | .conditional test consequence more => by
    simp [Operand.layout, Operand.print, Keyword.spelling, Keyword.name, test.text_layout,
      consequence.text_layout, more.text_layout]
theorem Else.text_layout : (b : Else) → b.layout.text = b.print
  | .none => by simp [Else.layout, Else.print]
  | .otherwise body => by
    simp [Else.layout, Else.print, Keyword.spelling, Keyword.name, body.text_layout]
  | .elseIf test body more => by
    simp [Else.layout, Else.print, Keyword.spelling, Keyword.name, test.text_layout,
      body.text_layout, more.text_layout]
theorem Test.text_layout : (c : Test) → c.layout.text = c.print
  | .alone left => by simp [Test.layout, Test.print, left.text_layout]
  | .compare left true right => by
    simp [Test.layout, Test.print, equality, Mark.name, left.text_layout, right.text_layout]
  | .compare left false right => by
    simp [Test.layout, Test.print, equality, Mark.name, left.text_layout, right.text_layout]
  | .pattern left right => by
    simp [Test.layout, Test.print, Mark.name, left.text_layout]
theorem Atom.text_layout : (v : Atom) → v.layout.text = v.print
  | .name name => by simp [Atom.layout, Atom.print]
  | .string string => by simp [Atom.layout, Atom.print]
  | .call function arguments => by
    simp [Atom.layout, Atom.print, Mark.name, arguments.text_layout]
  | .group inner => by simp [Atom.layout, Atom.print, Mark.name, inner.text_layout]
theorem Args.text_layout : (a : Args) → a.layout.text = a.print
  | .nil => by simp [Args.layout, Args.print]
  | .cons first more => by
    simp [Args.layout, Args.print, first.text_layout, more.text_layoutMore]
theorem Args.text_layoutMore : (a : Args) → a.layoutMore.text = a.printMore
  | .nil => by simp [Args.layoutMore, Args.printMore]
  | .cons first more => by
    simp [Args.layoutMore, Args.printMore, Mark.name, first.text_layout, more.text_layoutMore]
end

end Printed

end Justfile
