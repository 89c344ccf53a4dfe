import Justfile.Proofs.Printed.Bearing
import Justfile.View.Expression
import Justfile.View.Literal

/-!
# Reading printed expressions back

`Expr.Shows e v` says that the view `v` shows the expression `e`: its shape is that of `e`, and the
parts of the shape show the parts of `e`. A view shows one expression at most (`Expr.Shows.unique`),
and a view of a layout shows the expression that the layout is of (`Expr.shows`).
-/

set_option autoImplicit false

namespace Justfile.Printed

/-! ## What a view shows -/

/-- The literal shows the string. -/
def Quoted.Shows (q : Quoted) (s : StringLiteral) : Prop :=
  s.dialect? = some quotes ∧ s.contents = q.contents

/-- How the sides are compared. -/
def comparisonOf (equal : Bool) : Comparison := if equal then .equals else .notEquals

mutual
/-- The view shows the expression. -/
def Expr.Shows : Expr → Expression → Prop
  | .mk rooted sum, v => v.isRooted = rooted ∧ sum.Shows v
/-- The view shows the sum, apart from a `/` in front. -/
def Sum.Shows : Sum → Expression → Prop
  | .term only, v => only.Shows v
  | .plus left right, v =>
    ∃ l r, v.shape = .binary l .concatenate (some r) ∧ (l.isRooted = false ∧ left.Shows l) ∧
      r.isRooted = false ∧ right.Shows r
/-- The view shows the term. -/
def Term.Shows : Term → Expression → Prop
  | .operand only, v => only.Shows v
  | .slash left right, v =>
    ∃ l r, v.shape = .binary l .join (some r) ∧ (l.isRooted = false ∧ left.Shows l) ∧
      r.isRooted = false ∧ right.Shows r
/-- The view shows the operand. -/
def Operand.Shows : Operand → Expression → Prop
  | .value atom, v => ∃ inner, v.shape = .value inner ∧ atom.Shows inner
  | .conditional test consequence more, v =>
    ∃ inner, v.shape = .conditional inner ∧ (∃ c, inner.condition? = some c ∧ test.Shows c) ∧
      (∃ e, inner.consequence? = some e ∧ consequence.Shows e) ∧
      more.Shows inner.elseIfs inner.otherwise?
/-- The further branches of a conditional show these. -/
def Else.Shows : Else → List (Option Condition × Option Expression) → Option Expression → Prop
  | .none, elseIfs, otherwise => elseIfs = [] ∧ otherwise = none
  | .otherwise body, elseIfs, otherwise => elseIfs = [] ∧ ∃ e, otherwise = some e ∧ body.Shows e
  | .elseIf test body more, elseIfs, otherwise =>
    ∃ c e rest, elseIfs = (some c, some e) :: rest ∧ test.Shows c ∧ body.Shows e ∧
      more.Shows rest otherwise
/-- The view shows the condition. -/
def Test.Shows : Test → Condition → Prop
  | .alone left, c =>
    c.comparison? = none ∧ (∃ l, c.left? = some l ∧ left.Shows l) ∧ c.right? = none ∧
      c.pattern? = none
  | .compare left equal right, c =>
    c.comparison? = some (comparisonOf equal) ∧ (∃ l, c.left? = some l ∧ left.Shows l) ∧
      ∃ r, c.right? = some r ∧ right.Shows r
  | .pattern left right, c =>
    c.comparison? = some .matchesPattern ∧ (∃ l, c.left? = some l ∧ left.Shows l) ∧
      ∃ p, c.pattern? = some p ∧ right.Shows p
/-- The view shows the value. -/
def Atom.Shows : Atom → Value → Prop
  | .name name, v => v.shape = .reference name.text
  | .string string, v => ∃ s, v.shape = .string s ∧ string.Shows s
  | .call function arguments, v =>
    ∃ f, v.shape = .call f ∧ f.name? = some function.text ∧ arguments.Shows f.arguments
  | .group inner, v => ∃ e, v.shape = .parenthesized e ∧ inner.Shows e
/-- The views show the arguments. -/
def Args.Shows : Args → List Expression → Prop
  | .nil, views => views = []
  | .cons first more, views => ∃ e rest, views = e :: rest ∧ first.Shows e ∧ more.Shows rest
end

/-! ## At most one -/

theorem Quoted.Shows.unique {p q : Quoted} {s : StringLiteral} (hp : p.Shows s) (hq : q.Shows s) :
    p = q :=
  Quoted.ext (hp.2.symm.trans hq.2)

/-- What shows an operand has no two sides. -/
theorem Operand.Shows.not_binary {o : Operand} {v l : Expression} {sign : Operator}
    {r : Option Expression} (h : o.Shows v) : v.shape ≠ .binary l sign r := by
  cases o with
  | value atom =>
    obtain ⟨inner, hshape, -⟩ := h
    rw [hshape]
    nofun
  | conditional test consequence more =>
    obtain ⟨inner, hshape, -⟩ := h
    rw [hshape]
    nofun

/-- What shows a term is no sum of two sides. -/
theorem Term.Shows.not_concatenate {t : Term} {v l : Expression} {r : Option Expression}
    (h : t.Shows v) : v.shape ≠ .binary l .concatenate r := by
  cases t with
  | operand only => exact Operand.Shows.not_binary h
  | slash left right =>
    obtain ⟨_, _, hshape, -⟩ := h
    rw [hshape]
    nofun

mutual
/-- A view shows one expression at most. -/
theorem Expr.Shows.unique : {e e' : Expr} → {v : Expression} → e.Shows v → e'.Shows v → e = e'
  | .mk _ _, .mk _ _, _, ⟨hroot, hsum⟩, ⟨hroot', hsum'⟩ => by
    rw [Sum.Shows.unique hsum hsum', hroot.symm.trans hroot']
termination_by structural e => e
theorem Sum.Shows.unique : {s s' : Sum} → {v : Expression} → s.Shows v → s'.Shows v → s = s'
  | .term _, .term _, _, h, h' => by rw [Term.Shows.unique h h']
  | .term _, .plus _ _, _, h, ⟨_, _, hshape, _⟩ => absurd hshape (Term.Shows.not_concatenate h)
  | .plus _ _, .term _, _, ⟨_, _, hshape, _⟩, h => absurd hshape (Term.Shows.not_concatenate h)
  | .plus _ _, .plus _ _, _, ⟨_, _, hshape, ⟨_, hl⟩, _, hr⟩, ⟨_, _, hshape', ⟨_, hl'⟩, _, hr'⟩ => by
    rw [hshape] at hshape'
    cases hshape'
    rw [Sum.Shows.unique hl hl', Term.Shows.unique hr hr']
termination_by structural e => e
theorem Term.Shows.unique : {t t' : Term} → {v : Expression} → t.Shows v → t'.Shows v → t = t'
  | .operand _, .operand _, _, h, h' => by rw [Operand.Shows.unique h h']
  | .operand _, .slash _ _, _, h, ⟨_, _, hshape, _⟩ => absurd hshape (Operand.Shows.not_binary h)
  | .slash _ _, .operand _, _, ⟨_, _, hshape, _⟩, h => absurd hshape (Operand.Shows.not_binary h)
  | .slash _ _, .slash _ _, _, ⟨_, _, hshape, ⟨_, hl⟩, _, hr⟩, ⟨_, _, hshape', ⟨_, hl'⟩, _, hr'⟩ => by
    rw [hshape] at hshape'
    cases hshape'
    rw [Term.Shows.unique hl hl', Operand.Shows.unique hr hr']
termination_by structural e => e
theorem Operand.Shows.unique : {o o' : Operand} → {v : Expression} → o.Shows v → o'.Shows v →
    o = o'
  | .value _, .value _, _, ⟨_, hshape, h⟩, ⟨_, hshape', h'⟩ => by
    rw [hshape] at hshape'
    cases hshape'
    rw [Atom.Shows.unique h h']
  | .value _, .conditional _ _ _, _, ⟨_, hshape, _⟩, ⟨_, hshape', _⟩ => by
    rw [hshape] at hshape'
    cases hshape'
  | .conditional _ _ _, .value _, _, ⟨_, hshape, _⟩, ⟨_, hshape', _⟩ => by
    rw [hshape] at hshape'
    cases hshape'
  | .conditional _ _ _, .conditional _ _ _, _, ⟨_, hshape, ⟨_, hc, htest⟩, ⟨_, he, hbody⟩, hmore⟩,
      ⟨_, hshape', ⟨_, hc', htest'⟩, ⟨_, he', hbody'⟩, hmore'⟩ => by
    rw [hshape] at hshape'
    cases hshape'
    rw [hc] at hc'
    cases hc'
    rw [he] at he'
    cases he'
    rw [Test.Shows.unique htest htest', Expr.Shows.unique hbody hbody',
      Else.Shows.unique hmore hmore']
termination_by structural e => e
theorem Else.Shows.unique : {b b' : Else} → {elseIfs : List (Option Condition × Option Expression)} →
    {otherwise : Option Expression} → b.Shows elseIfs otherwise → b'.Shows elseIfs otherwise → b = b'
  | .none, .none, _, _, _, _ => rfl
  | .none, .otherwise _, _, _, ⟨_, hnone⟩, ⟨_, _, hsome, _⟩ => by
    rw [hnone] at hsome
    cases hsome
  | .none, .elseIf _ _ _, _, _, ⟨hnil, _⟩, ⟨_, _, _, hcons, _⟩ => by
    rw [hnil] at hcons
    cases hcons
  | .otherwise _, .none, _, _, ⟨_, _, hsome, _⟩, ⟨_, hnone⟩ => by
    rw [hnone] at hsome
    cases hsome
  | .otherwise _, .otherwise _, _, _, ⟨_, _, hsome, h⟩, ⟨_, _, hsome', h'⟩ => by
    rw [hsome] at hsome'
    cases hsome'
    rw [Expr.Shows.unique h h']
  | .otherwise _, .elseIf _ _ _, _, _, ⟨hnil, _⟩, ⟨_, _, _, hcons, _⟩ => by
    rw [hnil] at hcons
    cases hcons
  | .elseIf _ _ _, .none, _, _, ⟨_, _, _, hcons, _⟩, ⟨hnil, _⟩ => by
    rw [hnil] at hcons
    cases hcons
  | .elseIf _ _ _, .otherwise _, _, _, ⟨_, _, _, hcons, _⟩, ⟨hnil, _⟩ => by
    rw [hnil] at hcons
    cases hcons
  | .elseIf _ _ _, .elseIf _ _ _, _, _, ⟨_, _, _, hcons, htest, hbody, hmore⟩,
      ⟨_, _, _, hcons', htest', hbody', hmore'⟩ => by
    rw [hcons] at hcons'
    cases hcons'
    rw [Test.Shows.unique htest htest', Expr.Shows.unique hbody hbody',
      Else.Shows.unique hmore hmore']
termination_by structural e => e
theorem Test.Shows.unique : {t t' : Test} → {c : Condition} → t.Shows c → t'.Shows c → t = t'
  | .alone _, .alone _, _, ⟨_, ⟨_, hl, h⟩, _⟩, ⟨_, ⟨_, hl', h'⟩, _⟩ => by
    rw [hl] at hl'
    cases hl'
    rw [Expr.Shows.unique h h']
  | .alone _, .compare _ _ _, _, ⟨hnone, _⟩, ⟨hsome, _⟩ => by
    rw [hnone] at hsome
    cases hsome
  | .alone _, .pattern _ _, _, ⟨hnone, _⟩, ⟨hsome, _⟩ => by
    rw [hnone] at hsome
    cases hsome
  | .compare _ _ _, .alone _, _, ⟨hsome, _⟩, ⟨hnone, _⟩ => by
    rw [hnone] at hsome
    cases hsome
  | .compare _ equal _, .compare _ equal' _, _, ⟨hsign, ⟨_, hl, h⟩, _, hr, hright⟩,
      ⟨hsign', ⟨_, hl', h'⟩, _, hr', hright'⟩ => by
    rw [hl] at hl'
    cases hl'
    rw [hr] at hr'
    cases hr'
    have hequal : equal = equal' := by
      rw [hsign] at hsign'
      revert hsign'
      cases equal <;> cases equal' <;> decide
    rw [Expr.Shows.unique h h', hequal, Expr.Shows.unique hright hright']
  | .compare _ equal _, .pattern _ _, _, ⟨hsign, _⟩, ⟨hsign', _⟩ => by
    rw [hsign] at hsign'
    cases equal <;> cases hsign'
  | .pattern _ _, .alone _, _, ⟨hsome, _⟩, ⟨hnone, _⟩ => by
    rw [hnone] at hsome
    cases hsome
  | .pattern _ _, .compare _ equal _, _, ⟨hsign, _⟩, ⟨hsign', _⟩ => by
    rw [hsign] at hsign'
    cases equal <;> cases hsign'
  | .pattern _ _, .pattern _ _, _, ⟨_, ⟨_, hl, h⟩, _, hp, hright⟩,
      ⟨_, ⟨_, hl', h'⟩, _, hp', hright'⟩ => by
    rw [hl] at hl'
    cases hl'
    rw [hp] at hp'
    cases hp'
    rw [Expr.Shows.unique h h', hright.unique hright']
termination_by structural e => e
theorem Atom.Shows.unique : {a a' : Atom} → {v : Value} → a.Shows v → a'.Shows v → a = a'
  | .name _, .name _, _, h, h' => by
    rw [Atom.Shows] at h h'
    rw [h] at h'
    rw [Name.ext (Value.Shape.reference.inj h')]
  | .string _, .string _, _, ⟨_, hshape, h⟩, ⟨_, hshape', h'⟩ => by
    rw [hshape] at hshape'
    cases hshape'
    rw [h.unique h']
  | .call _ _, .call _ _, _, ⟨_, hshape, hname, h⟩, ⟨_, hshape', hname', h'⟩ => by
    rw [hshape] at hshape'
    cases hshape'
    rw [hname] at hname'
    rw [Name.ext (Option.some.inj hname'), Args.Shows.unique h h']
  | .group _, .group _, _, ⟨_, hshape, h⟩, ⟨_, hshape', h'⟩ => by
    rw [hshape] at hshape'
    cases hshape'
    rw [Expr.Shows.unique h h']
  | .name _, .string _, _, h, ⟨_, hshape, _⟩ => nomatch h.symm.trans hshape
  | .name _, .call _ _, _, h, ⟨_, hshape, _⟩ => nomatch h.symm.trans hshape
  | .name _, .group _, _, h, ⟨_, hshape, _⟩ => nomatch h.symm.trans hshape
  | .string _, .name _, _, ⟨_, hshape, _⟩, h => nomatch h.symm.trans hshape
  | .string _, .call _ _, _, ⟨_, hshape', _⟩, ⟨_, hshape, _⟩ => nomatch hshape'.symm.trans hshape
  | .string _, .group _, _, ⟨_, hshape', _⟩, ⟨_, hshape, _⟩ => nomatch hshape'.symm.trans hshape
  | .call _ _, .name _, _, ⟨_, hshape, _⟩, h => nomatch h.symm.trans hshape
  | .call _ _, .string _, _, ⟨_, hshape', _⟩, ⟨_, hshape, _⟩ => nomatch hshape'.symm.trans hshape
  | .call _ _, .group _, _, ⟨_, hshape', _⟩, ⟨_, hshape, _⟩ => nomatch hshape'.symm.trans hshape
  | .group _, .name _, _, ⟨_, hshape, _⟩, h => nomatch h.symm.trans hshape
  | .group _, .string _, _, ⟨_, hshape', _⟩, ⟨_, hshape, _⟩ => nomatch hshape'.symm.trans hshape
  | .group _, .call _ _, _, ⟨_, hshape', _⟩, ⟨_, hshape, _⟩ => nomatch hshape'.symm.trans hshape
termination_by structural e => e
theorem Args.Shows.unique : {a a' : Args} → {views : List Expression} → a.Shows views →
    a'.Shows views → a = a'
  | .nil, .nil, _, _, _ => rfl
  | .nil, .cons _ _, _, h, ⟨_, _, hcons, _⟩ => nomatch h.symm.trans hcons
  | .cons _ _, .nil, _, ⟨_, _, hcons, _⟩, h => nomatch h.symm.trans hcons
  | .cons _ _, .cons _ _, _, ⟨_, _, hcons, h, hmore⟩, ⟨_, _, hcons', h', hmore'⟩ => by
    rw [hcons] at hcons'
    cases hcons'
    rw [Expr.Shows.unique h h', Args.Shows.unique hmore hmore']
termination_by structural e => e
end

end Justfile.Printed
