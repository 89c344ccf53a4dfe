import Justfile.Token.Keyword
import Justfile.Token.Measure
import Mathlib.Data.List.Induction
import Mathlib.Logic.ExistsUnique

/-!
# Expressions as they are printed

The syntax of expressions, apart from any source: what an expression consists of, and how it is
written with one blank between its tokens. The sign `/` binds tighter than `+`, and both associate
to the left, so an expression is a sum of terms and a term is a path of operands. What stands in a
text is a chain of operands and signs, and each expression is what the signs make of exactly one
chain (`Expr.existsUnique_chain`).

The size of an expression counts the expressions in it, itself included, and the signs between
operands.
-/

set_option autoImplicit false

namespace Justfile.Printed

/-! ## Words and strings -/

/-- An identifier. -/
@[ext]
structure Word where
  text : Text
  nonempty : text ≠ []
  whole : Measure.identifier text = text.length

/-- An identifier that starts no conditional. -/
@[ext]
structure Name extends Word where
  not_if : text ≠ Keyword.ifWord.spelling

/-- What can stand between single quotes. -/
@[ext]
structure Quoted where
  contents : Text
  no_quote : '\'' ∉ contents

/-! ## Syntax -/

mutual
/-- An expression: a sum, with a `/` in front of it or not. -/
inductive Expr where
  | mk (rooted : Bool) (sum : Sum)
/-- Terms that are joined by `+`. -/
inductive Sum where
  | term (only : Term)
  | plus (left : Sum) (right : Term)
/-- Operands that are joined by `/`. -/
inductive Term where
  | operand (only : Operand)
  | slash (left : Term) (right : Operand)
/-- A value or a conditional. -/
inductive Operand where
  | value (atom : Atom)
  | conditional (test : Test) (consequence : Expr) (more : Else)
/-- The further branches of a conditional. -/
inductive Else where
  | none
  | otherwise (body : Expr)
  | elseIf (test : Test) (body : Expr) (more : Else)
/-- A condition. -/
inductive Test where
  | alone (left : Expr)
  /-- Two sides that should be equal, or should differ. -/
  | compare (left : Expr) (equal : Bool) (right : Expr)
  | pattern (left : Expr) (right : Quoted)
/-- A value. -/
inductive Atom where
  | name (name : Name)
  | string (string : Quoted)
  | call (function : Name) (arguments : Args)
  | group (inner : Expr)
/-- The arguments of a call. -/
inductive Args where
  | nil
  | cons (first : Expr) (more : Args)
end

/-! ## Printing -/

/-- A string is written between quotes. -/
def Quoted.print (s : Quoted) : Text := '\'' :: s.contents ++ ['\'']

mutual
/-- How an expression is written. -/
def Expr.print : Expr → Text
  | .mk true sum => '/' :: ' ' :: sum.print
  | .mk false sum => sum.print
/-- How a sum is written. -/
def Sum.print : Sum → Text
  | .term only => only.print
  | .plus left right => left.print ++ ' ' :: '+' :: ' ' :: right.print
/-- How a term is written. -/
def Term.print : Term → Text
  | .operand only => only.print
  | .slash left right => left.print ++ ' ' :: '/' :: ' ' :: right.print
/-- How an operand is written. -/
def Operand.print : Operand → Text
  | .value atom => atom.print
  | .conditional test consequence more =>
    'i' :: 'f' :: ' ' :: test.print ++ [' ', '{', ' '] ++ consequence.print ++ [' ', '}'] ++
      more.print
/-- How the further branches of a conditional are written. -/
def Else.print : Else → Text
  | .none => []
  | .otherwise body =>
    [' ', 'e', 'l', 's', 'e', ' ', '{', ' '] ++ body.print ++ [' ', '}']
  | .elseIf test body more =>
    [' ', 'e', 'l', 's', 'e', ' ', 'i', 'f', ' '] ++ test.print ++ [' ', '{', ' '] ++
      body.print ++ [' ', '}'] ++ more.print
/-- How a condition is written. -/
def Test.print : Test → Text
  | .alone left => left.print
  | .compare left true right => left.print ++ [' ', '=', '=', ' '] ++ right.print
  | .compare left false right => left.print ++ [' ', '!', '=', ' '] ++ right.print
  | .pattern left right => left.print ++ [' ', '=', '~', ' '] ++ right.print
/-- How a value is written. -/
def Atom.print : Atom → Text
  | .name name => name.text
  | .string string => string.print
  | .call function arguments => function.text ++ '(' :: arguments.print ++ [')']
  | .group inner => '(' :: inner.print ++ [')']
/-- How arguments are written. -/
def Args.print : Args → Text
  | .nil => []
  | .cons first more => first.print ++ more.printMore
/-- How arguments after another one are written. -/
def Args.printMore : Args → Text
  | .nil => []
  | .cons first more => ',' :: ' ' :: first.print ++ more.printMore
end

/-! ## Size -/

mutual
/-- The number of expressions and signs of an expression. -/
def Expr.size : Expr → Nat
  | .mk _ sum => sum.size + 1
/-- The number of expressions and signs of a sum. -/
def Sum.size : Sum → Nat
  | .term only => only.size
  | .plus left right => left.size + 1 + right.size
/-- The number of expressions and signs of a term. -/
def Term.size : Term → Nat
  | .operand only => only.size
  | .slash left right => left.size + 1 + right.size
/-- The number of expressions and signs of an operand. -/
def Operand.size : Operand → Nat
  | .value atom => atom.size
  | .conditional test consequence more => test.size + consequence.size + more.size
/-- The number of expressions and signs of further branches. -/
def Else.size : Else → Nat
  | .none => 0
  | .otherwise body => body.size
  | .elseIf test body more => test.size + body.size + more.size
/-- The number of expressions and signs of a condition. -/
def Test.size : Test → Nat
  | .alone left => left.size
  | .compare left _ right => left.size + right.size
  | .pattern left _ => left.size
/-- The number of expressions and signs of a value. -/
def Atom.size : Atom → Nat
  | .name _ => 0
  | .string _ => 0
  | .call _ arguments => arguments.size
  | .group inner => inner.size
/-- The number of expressions and signs of arguments. -/
def Args.size : Args → Nat
  | .nil => 0
  | .cons first more => first.size + more.size
end

/-! ## Chains -/

/-- The number of signs `/` between the operands of a term. -/
def Term.signs : Term → Nat
  | .operand _ => 0
  | .slash left _ => left.signs + 1

/-- The number of signs that a chain of the sum reads at its own level. -/
def Sum.signs : Sum → Nat
  | .term only => only.signs
  | .plus left _ => left.signs + 1

/-- The sum with a further operand, behind `+` or behind `/`. -/
def Sum.snoc : Sum → Bool → Operand → Sum
  | left, true, right => .plus left (.operand right)
  | .term only, false, right => .term (.slash only right)
  | .plus left last, false, right => .plus left (.slash last right)

/-- A further operand is written behind its sign, whatever stands before it: every chain of
operands is the printed form of a sum. -/
theorem Sum.print_snoc (left : Sum) (plus : Bool) (right : Operand) :
    (left.snoc plus right).print =
      left.print ++ ' ' :: (if plus then '+' else '/') :: ' ' :: right.print := by
  cases plus with
  | true => simp [Sum.snoc, Sum.print, Term.print]
  | false => cases left <;> simp [Sum.snoc, Sum.print, Term.print]

/-- The sum that a chain is: each operand goes behind its sign, one after another. -/
def Sum.ofChain (first : Operand) (more : List (Bool × Operand)) : Sum :=
  more.foldl (fun left next => left.snoc next.1 next.2) (.term (.operand first))

theorem Sum.ofChain_append (first : Operand) (front back : List (Bool × Operand)) :
    ofChain first (front ++ back) =
      back.foldl (fun left next => left.snoc next.1 next.2) (ofChain first front) :=
  List.foldl_append

/-- A chain is written operand by operand, whatever the signs bind. -/
theorem Sum.print_ofChain (first : Operand) (more : List (Bool × Operand)) :
    (ofChain first more).print = first.print ++
      more.flatMap fun next => ' ' :: (if next.1 then '+' else '/') :: ' ' :: next.2.print := by
  have hfold : ∀ left : Sum, (more.foldl (fun left next => left.snoc next.1 next.2) left).print =
      left.print ++ more.flatMap fun next =>
        ' ' :: (if next.1 then '+' else '/') :: ' ' :: next.2.print := by
    induction more with
    | nil => simp
    | cons next more ih =>
      intro left
      rw [List.foldl_cons, ih, print_snoc, List.flatMap_cons, List.append_assoc]
  exact hfold _

theorem Term.exists_ofChain (t : Term) : ∃ first more, Sum.term t = .ofChain first more := by
  match t with
  | .operand only => exact ⟨only, [], rfl⟩
  | .slash left right =>
    obtain ⟨first, more, hleft⟩ := left.exists_ofChain
    refine ⟨first, more ++ [(false, right)], ?_⟩
    rw [Sum.ofChain_append, ← hleft]
    rfl

theorem Term.exists_ofChain_plus {left : Sum}
    (hleft : ∃ first more, left = .ofChain first more) (t : Term) :
    ∃ first more, Sum.plus left t = .ofChain first more := by
  match t with
  | .operand only =>
    obtain ⟨first, more, rfl⟩ := hleft
    refine ⟨first, more ++ [(true, only)], ?_⟩
    rw [Sum.ofChain_append]
    rfl
  | .slash last right =>
    obtain ⟨first, more, hlast⟩ := last.exists_ofChain_plus hleft
    refine ⟨first, more ++ [(false, right)], ?_⟩
    rw [Sum.ofChain_append, ← hlast]
    rfl

/-- Every sum is a chain: the operands of its last term join the terms before it one by one. -/
theorem Sum.exists_ofChain (s : Sum) : ∃ first more, s = .ofChain first more := by
  match s with
  | .term only => exact only.exists_ofChain
  | .plus left right => exact right.exists_ofChain_plus left.exists_ofChain

/-- The last operand of a chain, its sign and what stands before it can be told from the sum. -/
theorem Sum.snoc_inj {left left' : Sum} {plus plus' : Bool} {right right' : Operand}
    (h : left.snoc plus right = left'.snoc plus' right') :
    left = left' ∧ plus = plus' ∧ right = right' := by
  cases plus <;> cases plus' <;> cases left <;> cases left' <;> simp_all [snoc]

theorem Sum.ofChain_concat (first : Operand) (more : List (Bool × Operand)) (plus : Bool)
    (right : Operand) :
    ofChain first (more ++ [(plus, right)]) = (ofChain first more).snoc plus right :=
  ofChain_append first more [(plus, right)]

/-- A sum with a further operand is not a single operand. -/
theorem Sum.snoc_ne_operand (left : Sum) (plus : Bool) (right only : Operand) :
    left.snoc plus right ≠ .term (.operand only) := by
  cases plus <;> cases left <;> simp [snoc]

/-- Different chains make different sums. -/
theorem Sum.ofChain_inj {first first' : Operand} {more more' : List (Bool × Operand)}
    (h : ofChain first more = ofChain first' more') : first = first' ∧ more = more' := by
  induction more using List.reverseRecOn generalizing more' with
  | nil =>
    induction more' using List.reverseRecOn with
    | nil =>
      cases h
      exact ⟨rfl, rfl⟩
    | append_singleton front' last' =>
      rw [ofChain_concat] at h
      exact absurd h.symm (snoc_ne_operand _ _ _ _)
  | append_singleton front last ih =>
    rw [ofChain_concat] at h
    induction more' using List.reverseRecOn with
    | nil => exact absurd h (snoc_ne_operand _ _ _ _)
    | append_singleton front' last' =>
      rw [ofChain_concat] at h
      obtain ⟨hfront, hsign, hright⟩ := snoc_inj h
      obtain ⟨rfl, rfl⟩ := ih hfront
      exact ⟨rfl, by rw [Prod.ext hsign hright]⟩

/-- An expression as it stands in a text: operands behind signs, with a `/` in front or not. -/
structure Chain where
  rooted : Bool
  first : Operand
  /-- The further operands; true is the sign `+`, and false is `/`. -/
  more : List (Bool × Operand)

/-- How a chain is written: one part after the other, whatever the signs bind. -/
def Chain.print (c : Chain) : Text :=
  (if c.rooted then ['/', ' '] else []) ++ (c.first.print ++
    c.more.flatMap fun next => ' ' :: (if next.1 then '+' else '/') :: ' ' :: next.2.print)

/-- The expression that the signs make of a chain. -/
def Chain.bound (c : Chain) : Expr := .mk c.rooted (.ofChain c.first c.more)

theorem Chain.print_bound (c : Chain) : c.bound.print = c.print := by
  unfold bound print
  cases c.rooted <;> simp [Expr.print, Sum.print_ofChain]

/-- **Expressions are exactly the chains of operands and signs**, and are written as these. -/
theorem Expr.existsUnique_chain (e : Expr) : ∃! c : Chain, c.bound = e ∧ c.print = e.print := by
  obtain ⟨rooted, sum⟩ := e
  obtain ⟨first, more, rfl⟩ := sum.exists_ofChain
  let chain : Chain := ⟨rooted, first, more⟩
  refine ⟨chain, ⟨rfl, chain.print_bound.symm⟩, ?_⟩
  rintro ⟨rooted', first', more'⟩ ⟨hbound, -⟩
  obtain ⟨rfl, hsum⟩ := Expr.mk.inj hbound
  obtain ⟨rfl, rfl⟩ := Sum.ofChain_inj hsum
  rfl

theorem Term.signs_le_size (t : Term) : t.signs ≤ t.size := by
  match t with
  | .operand only =>
    simp only [Term.signs]
    exact Nat.zero_le _
  | .slash left right =>
    have hleft := left.signs_le_size
    simp only [Term.signs, Term.size]
    omega

theorem Sum.signs_le_size (s : Sum) : s.signs ≤ s.size := by
  match s with
  | .term only => exact only.signs_le_size
  | .plus left right =>
    have hleft := left.signs_le_size
    simp only [Sum.signs, Sum.size]
    omega

theorem Expr.size_pos (e : Expr) : 0 < e.size := by
  obtain ⟨rooted, sum⟩ := e
  simp [Expr.size]

mutual
/-- Every expression and every sign has a character of its own. -/
theorem Expr.size_le : (e : Expr) → e.size ≤ e.print.length
  | .mk true sum => by
    have := sum.size_lt
    simp only [Expr.size, Expr.print, List.length_cons]
    omega
  | .mk false sum => sum.size_lt
theorem Sum.size_lt : (s : Sum) → s.size < s.print.length
  | .term only => only.size_lt
  | .plus left right => by
    have := left.size_lt
    have := right.size_lt
    simp only [Sum.size, Sum.print, List.length_append, List.length_cons]
    omega
theorem Term.size_lt : (t : Term) → t.size < t.print.length
  | .operand only => only.size_lt
  | .slash left right => by
    have := left.size_lt
    have := right.size_lt
    simp only [Term.size, Term.print, List.length_append, List.length_cons]
    omega
theorem Operand.size_lt : (o : Operand) → o.size < o.print.length
  | .value atom => atom.size_lt
  | .conditional test consequence more => by
    have := test.size_le
    have := consequence.size_le
    have := more.size_le
    simp only [Operand.size, Operand.print, List.length_append, List.length_cons]
    omega
theorem Else.size_le : (b : Else) → b.size ≤ b.print.length
  | .none => Nat.le_refl _
  | .otherwise body => by
    have := body.size_le
    simp only [Else.size, Else.print, List.length_append]
    omega
  | .elseIf test body more => by
    have := test.size_le
    have := body.size_le
    have := more.size_le
    simp only [Else.size, Else.print, List.length_append]
    omega
theorem Test.size_le : (c : Test) → c.size ≤ c.print.length
  | .alone left => left.size_le
  | .compare left true right => by
    have := left.size_le
    have := right.size_le
    simp only [Test.size, Test.print, List.length_append]
    omega
  | .compare left false right => by
    have := left.size_le
    have := right.size_le
    simp only [Test.size, Test.print, List.length_append]
    omega
  | .pattern left right => by
    have := left.size_le
    simp only [Test.size, Test.print, List.length_append]
    omega
theorem Atom.size_lt : (v : Atom) → v.size < v.print.length
  | .name name => List.length_pos_iff.2 name.nonempty
  | .string string => by
    simp only [Atom.size, Atom.print, Quoted.print, List.length_append, List.length_cons]
    omega
  | .call function arguments => by
    have := arguments.size_le
    simp only [Atom.size, Atom.print, List.length_append, List.length_cons]
    omega
  | .group inner => by
    have := inner.size_le
    simp only [Atom.size, Atom.print, List.length_append, List.length_cons]
    omega
theorem Args.size_le : (a : Args) → a.size ≤ a.print.length
  | .nil => Nat.le_refl _
  | .cons first more => by
    have := first.size_le
    have := more.size_le_more
    simp only [Args.size, Args.print, List.length_append]
    omega
theorem Args.size_le_more : (a : Args) → a.size ≤ a.printMore.length
  | .nil => Nat.le_refl _
  | .cons first more => by
    have := first.size_le
    have := more.size_le_more
    simp only [Args.size, Args.printMore, List.length_append, List.length_cons]
    omega
end

end Justfile.Printed
