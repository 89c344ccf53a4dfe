import Justfile.Proofs.Cursor
import Justfile.Proofs.Printed.Enclosed
import Justfile.Proofs.Printed.View

/-!
# Views of layouts

A view of a layout shows the expression that the layout is of (`Expr.shows`). The cursors below the
view are known from the layout (`Bears`), so each lemma takes the siblings of one construct apart and
runs the accessors of its view on them.
-/

set_option autoImplicit false

namespace Justfile.Printed

open Layout

section Strings

variable {tree : Tree} {cs : List Cursor} {d : Dialect} {after : Text} {count : Nat} {x : Layout}

/-- Contents and delimiters hold neither strings nor characters that form no token. -/
def IsQuiet (nodes : Forest) : Prop :=
  ∀ node ∈ Node.preorderList nodes, node.kind ≠ .string ∧ node.kind ≠ .errorRecovery

theorem IsQuiet.append {front back : Forest} (hfront : IsQuiet front) (hback : IsQuiet back) :
    IsQuiet (front ++ back) := by
  intro node hmem
  rw [Node.preorderList_append] at hmem
  rcases List.mem_append.1 hmem with hmem | hmem
  · exact hfront node hmem
  · exact hback node hmem

theorem isQuiet_leaf {kind : Token.Kind} (hkind : kind.isErrorRecovery = false) (text : Text)
    (start : Nat) : IsQuiet ((leaf none kind text).nodes start) := by
  intro node hmem
  rw [nodes_leaf, Node.preorderList_leaf, List.mem_singleton] at hmem
  subst hmem
  change Node.Kind.ofToken kind ≠ .string ∧ Node.Kind.ofToken kind ≠ .errorRecovery
  cases kind
  case errorRecovery => cases hkind
  all_goals exact ⟨nofun, nofun⟩

theorem isQuiet_inner (h : d.Inner after count x) (start : Nat) : IsQuiet (x.nodes start) := by
  induction h generalizing start with
  | nil => exact fun _ hmem => by cases hmem
  | @cons _ kind word more hkind _ _ ih =>
    rw [nodes_append]
    refine (isQuiet_leaf ?_ word start).append (ih _)
    rcases hkind with rfl | rfl <;> rfl

/-- A node around quiet ones is quiet, unless it is a string or a fault itself. -/
theorem IsQuiet.branch {nodes : Forest} (h : IsQuiet nodes) (field : Option Field)
    {kind : Node.Kind} (hkind : kind ≠ .string ∧ kind ≠ .errorRecovery) (offset : Nat) :
    IsQuiet [.branch field kind nodes offset] := by
  intro node hmem
  rw [Node.preorderList_branch] at hmem
  rcases List.mem_cons.1 hmem with rfl | hmem
  · exact hkind
  · exact h node hmem

/-- Between two leaves a layout spans its whole text. -/
theorem spanOf_between (first last : Token.Kind) (front back : Text) (x : Layout)
    (start offset : Nat) :
    Node.spanOf ((leaf none first front ++ (x ++ leaf none last back)).nodes start) offset =
      ⟨start, start + (leaf none first front ++ (x ++ leaf none last back)).text.byteSize⟩ := by
  rw [nodes_append, nodes_append, ← List.append_assoc, Node.spanOf, List.getLast?_append,
    nodes_leaf, nodes_leaf]
  simp [Node.leaf, Nat.add_assoc]

/-- The node of a string spans the whole text, from the opening delimiter to the closing one, and
there is no other string in it. -/
theorem nodes_string (h : d.Inner after count x) (start : Nat) :
    ∃ node : Node, (d.layout x).nodes start = [node] ∧ node.kind = .string ∧ node.field = none ∧
      node.span = ⟨start, start + (d.layout x).text.byteSize⟩ ∧ IsQuiet node.children := by
  have hspan := spanOf_between (.stringOpen d) (.stringClose d) d.opening d.closing x start
  have hparts : IsQuiet ((leaf none (.stringOpen d) d.opening ++
      (x ++ leaf none (.stringClose d) d.closing)).nodes start) :=
    (isQuiet_leaf rfl _ _).append ((isQuiet_inner h _).append (isQuiet_leaf rfl _ _))
  rw [Dialect.layout]
  cases d.isFormat with
  | false => exact ⟨_, rfl, rfl, rfl, hspan start, hparts⟩
  | true =>
    have hformat : Node.Kind.formatString ≠ .string ∧ Node.Kind.formatString ≠ .errorRecovery := by
      decide
    exact ⟨_, rfl, rfl, rfl, hspan start, hparts.branch none hformat _⟩

/-- A string reads back as it was written. -/
theorem shows_string (h : d.Inner after count x)
    (hdialect : Dialect.detect? (d.layout x).text = some d) (hbears : Bears tree cs (d.layout x)) :
    ∃ s : StringLiteral, cs = [s.cursor] ∧ s.cursor.field = none ∧ s.text = (d.layout x).text ∧
      s.dialect? = some d ∧ s.isTerminated = true ∧ s.contents = x.text := by
  obtain ⟨pre, post, rank, hsource, rfl⟩ := hbears
  obtain ⟨node, hnodes, hkind, hfield, hspan, hquiet⟩ := nodes_string h pre.byteSize
  let s : StringLiteral := ⟨⟨tree, rank, node⟩, List.mem_singleton.2 hkind⟩
  have htext : s.text = (d.layout x).text := by
    change (tree.source.slice? node.span.start node.span.stop).getD [] = _
    rw [hspan, hsource, Text.slice?_append]
    rfl
  have hself : s.dialect? = some d := by
    rw [StringLiteral.dialect?, htext]
    exact hdialect
  have hterminated : s.isTerminated = true := by
    rw [StringLiteral.isTerminated, Bool.not_eq_true', List.any_eq_false]
    intro c hmem
    obtain ⟨-, hnode⟩ := Cursor.of_mem_descendants hmem
    rw [Node.preorder_eq_cons] at hnode
    rw [beq_iff_eq]
    rcases List.mem_cons.1 hnode with hroot | hbelow
    · rw [Cursor.kind, hroot, hkind]
      exact nofun
    · exact (hquiet c.node hbelow).2
  refine ⟨s, ?_, hfield, htext, hself, hterminated, ?_⟩
  · rw [hnodes]
    rfl
  · rw [StringLiteral.contents, hself]
    dsimp only
    rw [htext, if_pos hterminated, Dialect.text_layout, List.drop_left, Text.dropTail?,
      if_pos (List.isSuffixOf_iff_suffix.2 (List.suffix_append ..)), List.length_append,
      Nat.add_sub_cancel, List.take_left]
    rfl

/-- A printed string reads back as it was written. -/
theorem Quoted.shows {q : Quoted} (h : Bears tree cs q.layout) :
    ∃ s : StringLiteral, cs = [s.cursor] ∧ s.cursor.field = none ∧ q.Shows s := by
  obtain ⟨count, -, hinner⟩ := q.exists_inner []
  have hdialect : Dialect.detect? (quotes.layout q.inner).text = some quotes := by
    rw [Dialect.text_layout, q.text_inner]
    exact q.encloses.detect?_self
  obtain ⟨s, hcs, hfield, -, hself, -, hcontents⟩ := shows_string hinner hdialect h
  exact ⟨s, hcs, hfield, hself, hcontents.trans q.text_inner⟩

end Strings

/-! ## Siblings of an expression -/

section Siblings

variable {tree : Tree} {front cs : List Cursor} {v : Expression}

theorem isMeaningful_of_kind {c : Cursor} {kind : Node.Kind} (h : c.kind = kind) :
    c.node.isMeaningful = (kind.isNamed && !kind.isTrivia) := by
  rw [← h]
  rfl

/-- Siblings that decide nothing about the shape: a `/` in front, and blanks. -/
def Idle (front : List Cursor) : Prop :=
  ∀ c ∈ front, c.field = none ∧ c.node.isMeaningful = false ∧ c.kind ≠ .token (.mark .plus)

theorem idle_nil : Idle [] := by
  intro c hmem
  cases hmem

/-- Nothing that is idle plays a part. -/
theorem Idle.find?_field (h : Idle front) (field : Field) :
    (front ++ cs).find? (·.field == some field) = cs.find? (·.field == some field) := by
  rw [List.find?_append]
  have hnone : front.find? (·.field == some field) = none := by
    rw [List.find?_eq_none]
    intro c hmem
    simp [(h c hmem).1]
  rw [hnone, Option.none_or]

theorem Idle.filter_meaningful (h : Idle front) :
    (front ++ cs).filter (·.node.isMeaningful) = cs.filter (·.node.isMeaningful) := by
  rw [List.filter_append]
  have hnil : front.filter (·.node.isMeaningful) = [] := by
    rw [List.filter_eq_nil_iff]
    intro c hmem
    simp [(h c hmem).2.1]
  rw [hnil, List.nil_append]

theorem Idle.any_plus (h : Idle front) :
    (front ++ cs).any (·.kind == .token (.mark .plus)) =
      cs.any (·.kind == .token (.mark .plus)) := by
  rw [List.any_append]
  have hnone : front.any (·.kind == .token (.mark .plus)) = false := by
    rw [List.any_eq_false]
    intro c hmem
    simp [(h c hmem).2.2]
  rw [hnone, Bool.false_or]

/-- Two sides with a sign between them. -/
theorem shape_joined {left right : Layout} {sign : Mark} (hv : v.cursor.children = front ++ cs)
    (hfront : Idle front) (h : Bears tree cs (joined left sign right)) :
    ∃ l r : Expression,
      v.shape = .binary l (if sign = .plus then .concatenate else .join) (some r) ∧
      Bears tree l.cursor.children left ∧ Bears tree r.cursor.children right := by
  obtain ⟨_, _, rfl, hl, h⟩ := h.append
  obtain ⟨_, _, rfl, hb, h⟩ := h.append
  obtain ⟨_, _, rfl, hs, h⟩ := h.append
  obtain ⟨_, _, rfl, hb', hr⟩ := h.append
  obtain ⟨l, rfl, hlkind, hlfield, hleft⟩ := hl.group
  obtain ⟨b, rfl, hbkind, hbfield⟩ := hb.blank
  obtain ⟨s, rfl, hskind, hsfield⟩ := hs.mark
  obtain ⟨b', rfl, hbkind', hbfield'⟩ := hb'.blank
  obtain ⟨r, rfl, hrkind, hrfield, hright⟩ := hr.group
  refine ⟨⟨l, List.mem_singleton.2 hlkind⟩, ⟨r, List.mem_singleton.2 hrkind⟩, ?_, hleft, hright⟩
  unfold Expression.shape Cursor.viewByField? Cursor.childByField? Cursor.hasToken
  rw [hv, hfront.find?_field, hfront.find?_field, hfront.any_plus]
  simp [hlfield, hbfield, hsfield, hbfield', hrfield, View.of?_of_kind hlkind,
    View.of?_of_kind hrkind, hlkind, hbkind, hskind, hbkind', hrkind]

/-- A single operand. -/
theorem shape_single {c : Cursor} (hv : v.cursor.children = front ++ [c]) (hfront : Idle front)
    (hfield : c.field = none) (hmeaning : c.node.isMeaningful = true) :
    v.shape = (Expression.operandOf c).getD .invalid := by
  unfold Expression.shape Cursor.viewByField? Cursor.childByField? Cursor.namedChildren
  rw [hv, hfront.find?_field, hfront.filter_meaningful]
  simp [hfield, hmeaning]

/-- An expression whose first sibling is an expression or an operand has no `/` in front. -/
theorem isRooted_eq_false {c : Cursor} (hv : v.cursor.children = c :: cs)
    (hkind : c.kind = .expression ∨ c.kind = .value ∨ c.kind = .ifExpression) :
    v.isRooted = false := by
  unfold Expression.isRooted
  rw [hv]
  rcases hkind with hkind | hkind | hkind <;> simp [hkind, Node.Kind.isTrivia]

end Siblings

/-! ## Parts in braces, and tokens among the siblings -/

section Braces

variable {tree : Tree} {cs : List Cursor} {x : Layout}

/-- A token that plays no part. -/
def Silent (c : Cursor) : Prop := (∃ kind, c.kind = .token kind) ∧ c.field = none

theorem Silent.of? {c : Cursor} (h : Silent c) (kind : Node.Kind) (hkind : kind.isNamed = true) :
    View.of? [kind] c = none := by
  obtain ⟨⟨token, htoken⟩, -⟩ := h
  refine View.of?_of_ne ?_
  rintro rfl
  rw [htoken] at hkind
  cases hkind

theorem Silent.kind_beq {c : Cursor} (h : Silent c) {kind : Node.Kind} (hkind : kind.isNamed = true) :
    (c.kind == kind) = false := by
  obtain ⟨⟨token, htoken⟩, -⟩ := h
  rw [beq_eq_false_iff_ne]
  rintro rfl
  rw [htoken] at hkind
  cases hkind

theorem Silent.field_beq {c : Cursor} (h : Silent c) (field : Field) :
    (c.field == some field) = false := by
  rw [h.2]
  rfl

theorem Silent.not_isMeaningful {c : Cursor} (h : Silent c) : c.node.isMeaningful = false := by
  obtain ⟨⟨token, htoken⟩, -⟩ := h
  rw [isMeaningful_of_kind htoken]
  rfl

theorem silent_mark {sign : Mark} (h : Bears tree cs (mark sign)) :
    ∃ c, cs = [c] ∧ Silent c ∧ c.kind = .token (.mark sign) := by
  obtain ⟨c, rfl, hkind, hfield⟩ := h.mark
  exact ⟨c, rfl, ⟨⟨_, hkind⟩, hfield⟩, hkind⟩

theorem silent_keyword {word : Keyword} (h : Bears tree cs (keyword word)) :
    ∃ c, cs = [c] ∧ Silent c := by
  obtain ⟨c, rfl, hkind, hfield⟩ := h.keyword
  exact ⟨c, rfl, ⟨_, hkind⟩, hfield⟩

theorem silent_blank (h : Bears tree cs blank) : ∃ c, cs = [c] ∧ Silent c := by
  obtain ⟨c, rfl, hkind, hfield⟩ := h.blank
  exact ⟨c, rfl, ⟨_, hkind⟩, hfield⟩

/-- What stands in braces, between tokens that play no part. -/
theorem bears_inBraces (h : Bears tree cs (inBraces x)) :
    ∃ opened inner closed, cs = opened ++ (inner ++ closed) ∧ (∀ c ∈ opened, Silent c) ∧
      Bears tree inner x ∧ ∀ c ∈ closed, Silent c := by
  obtain ⟨_, _, rfl, h₁, h⟩ := h.append
  obtain ⟨_, _, rfl, h₂, h⟩ := h.append
  obtain ⟨_, _, rfl, h₃, h⟩ := h.append
  obtain ⟨inner, _, rfl, hinner, h⟩ := h.append
  obtain ⟨_, _, rfl, h₄, h₅⟩ := h.append
  obtain ⟨b₁, rfl, hb₁⟩ := silent_blank h₁
  obtain ⟨lb, rfl, hlb, -⟩ := silent_mark h₂
  obtain ⟨b₂, rfl, hb₂⟩ := silent_blank h₃
  obtain ⟨b₃, rfl, hb₃⟩ := silent_blank h₄
  obtain ⟨rb, rfl, hrb, -⟩ := silent_mark h₅
  refine ⟨[b₁, lb, b₂], inner, [b₃, rb], rfl, ?_, hinner, ?_⟩
  · simp [hb₁, hlb, hb₂]
  · simp [hb₃, hrb]

/-! Looking for a part passes over the tokens that play none. -/

variable {quiet rest : List Cursor}

theorem find?_field_of_silent (h : ∀ c ∈ quiet, Silent c) (field : Field) :
    (quiet ++ rest).find? (·.field == some field) = rest.find? (·.field == some field) := by
  rw [List.find?_append, List.find?_eq_none.2 fun c hmem => by simp [(h c hmem).field_beq field],
    Option.none_or]

theorem find?_kind_of_silent (h : ∀ c ∈ quiet, Silent c) {kind : Node.Kind}
    (hkind : kind.isNamed = true) :
    (quiet ++ rest).find? (·.kind == kind) = rest.find? (·.kind == kind) := by
  rw [List.find?_append, List.find?_eq_none.2 fun c hmem => by simp [(h c hmem).kind_beq hkind],
    Option.none_or]

theorem filter_kind_of_silent (h : ∀ c ∈ quiet, Silent c) {kind : Node.Kind}
    (hkind : kind.isNamed = true) :
    (quiet ++ rest).filter (·.kind == kind) = rest.filter (·.kind == kind) := by
  rw [List.filter_append, List.filter_eq_nil_iff.2 fun c hmem => by
    simp [(h c hmem).kind_beq hkind], List.nil_append]

theorem findSome?_view_of_silent (h : ∀ c ∈ quiet, Silent c) {kind : Node.Kind}
    (hkind : kind.isNamed = true) :
    (quiet ++ rest).findSome? (View.of? [kind]) = rest.findSome? (View.of? [kind]) := by
  rw [List.findSome?_append, List.findSome?_eq_none_iff.2 fun c hmem => (h c hmem).of? _ hkind,
    Option.none_or]

end Braces

/-! ## Conditionals and conditions -/

section Conditional

variable {quiet opened closed more : List Cursor} {kind : Node.Kind} {t : Condition} {e : Expression}

/-- The view of a cursor that is known to have its kind. -/
theorem of?_cursor (v : View [kind]) : View.of? [kind] v.cursor = some v :=
  View.of?_of_kind (List.mem_singleton.1 v.kind_mem)

/-- A part behind tokens that play none. -/
theorem viewByField?_of_silent {c : Cursor} {field : Field} {v : View [kind]}
    (hc : c.children = quiet ++ (v.cursor :: more)) (hquiet : ∀ c ∈ quiet, Silent c)
    (hfield : v.cursor.field = some field) : c.viewByField? field [kind] = some v := by
  unfold Cursor.viewByField? Cursor.childByField?
  rw [hc, find?_field_of_silent hquiet, List.find?_cons_of_pos (by simp [hfield])]
  exact of?_cursor v

theorem viewByField?_head {c : Cursor} {field : Field} {v : View [kind]}
    (hc : c.children = v.cursor :: more) (hfield : v.cursor.field = some field) :
    c.viewByField? field [kind] = some v := by
  have hc' : c.children = [] ++ (v.cursor :: more) := hc
  exact viewByField?_of_silent hc' (List.forall_mem_nil _) hfield

/-- A part behind a condition and tokens that play none. -/
theorem viewByField?_of_condition {c : Cursor} {field : Field}
    (hc : c.children = quiet ++ (t.cursor :: (opened ++ (e.cursor :: more))))
    (hquiet : ∀ c ∈ quiet, Silent c) (hopened : ∀ c ∈ opened, Silent c)
    (ht : t.cursor.field = none) (he : e.cursor.field = some field) :
    c.viewByField? field [.expression] = some e := by
  unfold Cursor.viewByField? Cursor.childByField?
  rw [hc, find?_field_of_silent hquiet, List.find?_cons_of_neg (by simp [ht]),
    find?_field_of_silent hopened, List.find?_cons_of_pos (by simp [he])]
  exact of?_cursor e

theorem view?_condition {c : Cursor} (hc : c.children = quiet ++ (t.cursor :: more))
    (hquiet : ∀ c ∈ quiet, Silent c) : c.view? [.condition] = some t := by
  unfold Cursor.view?
  rw [hc, findSome?_view_of_silent hquiet rfl, List.findSome?_cons, of?_cursor]

/-- What the view of a further branch with a condition shows. -/
def clauseParts (clause : Cursor) : Option Condition × Option Expression :=
  (clause.view? [.condition], clause.viewByField? .body [.expression])

/-- The parts of a conditional: its further branches are those among the last siblings. -/
theorem conditional_views {i : Conditional}
    (hi : i.cursor.children = quiet ++ (t.cursor :: (opened ++ (e.cursor :: (closed ++ more)))))
    (hquiet : ∀ c ∈ quiet, Silent c) (hopened : ∀ c ∈ opened, Silent c)
    (hclosed : ∀ c ∈ closed, Silent c) (ht : t.cursor.field = none)
    (he : e.cursor.field = some .consequence) :
    i.condition? = some t ∧ i.consequence? = some e ∧
      i.elseIfs = (more.filter (·.kind == .elseIfClause)).map clauseParts ∧
      i.otherwise? =
        (more.find? (·.kind == .elseClause)).bind (·.viewByField? .body [.expression]) := by
  have htkind : t.cursor.kind = .condition := List.mem_singleton.1 t.kind_mem
  have hekind : e.cursor.kind = .expression := List.mem_singleton.1 e.kind_mem
  refine ⟨view?_condition hi hquiet, viewByField?_of_condition hi hquiet hopened ht he, ?_, ?_⟩
  · unfold Conditional.elseIfs Cursor.childrenOfKind
    rw [hi, filter_kind_of_silent hquiet rfl, List.filter_cons_of_neg (by simp [htkind]),
      filter_kind_of_silent hopened rfl, List.filter_cons_of_neg (by simp [hekind]),
      filter_kind_of_silent hclosed rfl]
    rfl
  · unfold Conditional.otherwise? Cursor.childOfKind?
    rw [hi, find?_kind_of_silent hquiet rfl, List.find?_cons_of_neg (by simp [htkind]),
      find?_kind_of_silent hopened rfl, List.find?_cons_of_neg (by simp [hekind]),
      find?_kind_of_silent hclosed rfl]

/-- A condition without a comparison. -/
theorem condition_alone {c : Condition} {l : Expression} (hc : c.cursor.children = [l.cursor])
    (hl : l.cursor.field = some .left) :
    c.comparison? = none ∧ c.left? = some l ∧ c.right? = none ∧ c.pattern? = none := by
  have hkind : l.cursor.kind = .expression := List.mem_singleton.1 l.kind_mem
  refine ⟨?_, ?_, ?_, ?_⟩
  · simp [Condition.comparison?, hc, hkind, Comparison.ofKind?]
  · exact viewByField?_head hc hl
  · simp [Condition.right?, Cursor.viewByField?, Cursor.childByField?, hc, hl]
  · simp [Condition.pattern?, Cursor.viewByField?, Cursor.childByField?, hc, hl]

/-- A condition that compares two sides. -/
theorem condition_compared {c : Condition} {l : Expression} {b s b' r : Cursor} {sign : Mark}
    {comparison : Comparison} (hc : c.cursor.children = [l.cursor, b, s, b', r])
    (hl : l.cursor.field = some .left) (hb : Silent b) (hs : Silent s) (hb' : Silent b')
    (hbkind : b.kind = .token .whitespace) (hskind : s.kind = .token (.mark sign))
    (hsign : Comparison.ofKind? (.token (.mark sign)) = some comparison)
    (hr : r.field = some .right) :
    c.comparison? = some comparison ∧ c.left? = some l ∧ c.cursor.childByField? .right = some r := by
  have hkind : l.cursor.kind = .expression := List.mem_singleton.1 l.kind_mem
  refine ⟨?_, ?_, ?_⟩
  · have hnone : Comparison.ofKind? .expression = none := rfl
    have hblank : Comparison.ofKind? (.token .whitespace) = none := rfl
    simp [Condition.comparison?, hc, hkind, hbkind, hskind, hsign, hnone, hblank]
  · exact viewByField?_head hc hl
  · simp [Cursor.childByField?, hc, hl, hb.2, hs.2, hb'.2, hr]

end Conditional

/-! ## Values -/

section Value

variable {v : Value} {f : FunctionCall}

theorem value_shape {c : Cursor} {before after : List Cursor}
    (hv : v.cursor.children = before ++ (c :: after)) (hbefore : ∀ c ∈ before, Silent c)
    (hmeaning : c.node.isMeaningful = true) {shape : Value.Shape}
    (hpart : Value.partOf c = some shape) : v.shape = shape := by
  have hfilter : before.filter (·.node.isMeaningful) = [] := by
    rw [List.filter_eq_nil_iff]
    intro c hmem
    simp [(hbefore c hmem).not_isMeaningful]
  unfold Value.shape Cursor.namedChildren
  rw [hv, List.filter_append, hfilter]
  simp [hmeaning, hpart]

theorem call_name {n : Cursor} {rest : List Cursor} (hf : f.cursor.children = n :: rest)
    (hkind : n.kind = .identifier) (hfield : n.field = some .name) : f.name? = some n.text := by
  have hchild : f.cursor.childByField? .name = some n := by
    simp [Cursor.childByField?, hf, hfield]
  simp [FunctionCall.name?, Cursor.nameByField?, hchild, Option.filter, hkind]

theorem call_arguments_nil {n opened closed : Cursor} (hf : f.cursor.children = [n, opened, closed])
    (hfield : n.field = some .name) (hopened : Silent opened) (hclosed : Silent closed) :
    f.arguments = [] := by
  simp [FunctionCall.arguments, Cursor.childByField?, hf, hfield, hopened.2, hclosed.2]

theorem call_arguments_cons {n opened sequence closed : Cursor}
    (hf : f.cursor.children = [n, opened, sequence, closed]) (hfield : n.field = some .name)
    (hopened : Silent opened) (hsequence : sequence.field = some .arguments) :
    f.arguments = sequence.children.filterMap (View.of? [.expression]) := by
  simp [FunctionCall.arguments, Cursor.childByField?, hf, hfield, hopened.2, hsequence,
    Cursor.views]

end Value

/-! ## All together -/

section Shows

variable {tree : Tree}

/-- The first sibling of an operand is its node. -/
theorem Operand.first {o : Operand} {cs : List Cursor} (h : Bears tree cs o.layout) :
    ∃ c, cs = [c] ∧ (c.kind = .value ∨ c.kind = .ifExpression) ∧ c.field = none := by
  cases o with
  | value atom =>
    obtain ⟨c, rfl, hkind, hfield, -⟩ := Bears.group h
    exact ⟨c, rfl, .inl hkind, hfield⟩
  | conditional test consequence more =>
    obtain ⟨c, rfl, hkind, hfield, -⟩ := Bears.group h
    exact ⟨c, rfl, .inr hkind, hfield⟩

theorem joined_not_rooted {v : Expression} {left right : Layout} {sign : Mark}
    (h : Bears tree v.cursor.children (joined left sign right)) : v.isRooted = false := by
  obtain ⟨_, _, hv, hl, -⟩ := h.append
  obtain ⟨l, rfl, hkind, -⟩ := hl.group
  exact isRooted_eq_false hv (.inl hkind)

theorem Operand.not_rooted {o : Operand} {v : Expression}
    (h : Bears tree v.cursor.children o.layout) : v.isRooted = false := by
  obtain ⟨c, hv, hkind, -⟩ := Operand.first h
  exact isRooted_eq_false hv (.inr hkind)

theorem Term.not_rooted {t : Term} {v : Expression}
    (h : Bears tree v.cursor.children t.layout) : v.isRooted = false := by
  cases t with
  | operand only => exact only.not_rooted h
  | slash left right => exact joined_not_rooted h

theorem Sum.not_rooted {s : Sum} {v : Expression}
    (h : Bears tree v.cursor.children s.layout) : v.isRooted = false := by
  cases s with
  | term only => exact only.not_rooted h
  | plus left right => exact joined_not_rooted h

-- The recursion is on the syntax. A sum, a term and an operand have no node of their own, so they
-- are shown by the expression around them, behind the `/` that may stand in front of its siblings.
mutual
/-- A view of the layout of an expression shows the expression. -/
theorem Expr.shows : (e : Expr) → {field : Option Field} → {cs : List Cursor} →
    Bears tree cs (e.layout field) →
    ∃ v : Expression, cs = [v.cursor] ∧ v.cursor.field = field ∧ e.Shows v
  | .mk true sum, field, cs, h => by
    obtain ⟨c, rfl, hkind, hfield, h₁⟩ := Bears.group h
    obtain ⟨_, _, hc, hs, h₂⟩ := h₁.append
    obtain ⟨_, cs, rfl, hb, h₃⟩ := h₂.append
    obtain ⟨s, rfl, hsilent, hskind⟩ := silent_mark hs
    obtain ⟨b, rfl, hbkind, hbfield⟩ := hb.blank
    have hfront : Idle [s, b] := by
      intro c hmem
      have : c = s ∨ c = b := by simpa using hmem
      rcases this with rfl | rfl
      · refine ⟨hsilent.2, hsilent.not_isMeaningful, ?_⟩
        rw [hskind]
        nofun
      · refine ⟨hbfield, Silent.not_isMeaningful ⟨⟨_, hbkind⟩, hbfield⟩, ?_⟩
        rw [hbkind]
        nofun
    have hv : c.children = [s, b] ++ cs := hc
    refine ⟨⟨c, List.mem_singleton.2 hkind⟩, rfl, hfield, ?_, sum.shows hv hfront h₃⟩
    simp [Expression.isRooted, hc, hskind, Node.Kind.isTrivia, Token.Kind.isTrivia]
  | .mk false sum, field, cs, h => by
    obtain ⟨c, rfl, hkind, hfield, h₁⟩ := Bears.group h
    have hv : c.children = [] ++ c.children := rfl
    exact ⟨⟨c, List.mem_singleton.2 hkind⟩, rfl, hfield, Sum.not_rooted h₁,
      sum.shows hv idle_nil h₁⟩
theorem Sum.shows : (s : Sum) → {v : Expression} → {front cs : List Cursor} →
    v.cursor.children = front ++ cs → Idle front → Bears tree cs s.layout → s.Shows v
  | .term only, _, _, _, hv, hfront, h => only.shows hv hfront h
  | .plus left right, _, _, _, hv, hfront, h => by
    obtain ⟨l, r, hshape, hl, hr⟩ := shape_joined hv hfront h
    exact ⟨l, r, hshape, ⟨Sum.not_rooted hl, left.shows rfl idle_nil hl⟩, Term.not_rooted hr,
      right.shows rfl idle_nil hr⟩
theorem Term.shows : (t : Term) → {v : Expression} → {front cs : List Cursor} →
    v.cursor.children = front ++ cs → Idle front → Bears tree cs t.layout → t.Shows v
  | .operand only, _, _, _, hv, hfront, h => only.shows hv hfront h
  | .slash left right, _, _, _, hv, hfront, h => by
    obtain ⟨l, r, hshape, hl, hr⟩ := shape_joined hv hfront h
    exact ⟨l, r, hshape, ⟨Term.not_rooted hl, left.shows rfl idle_nil hl⟩, Operand.not_rooted hr,
      right.shows rfl idle_nil hr⟩
theorem Operand.shows : (o : Operand) → {v : Expression} → {front cs : List Cursor} →
    v.cursor.children = front ++ cs → Idle front → Bears tree cs o.layout → o.Shows v
  | .value atom, v, front, cs, hv, hfront, h => by
    obtain ⟨c, rfl, hkind, hfield, h₁⟩ := Bears.group h
    refine ⟨⟨c, List.mem_singleton.2 hkind⟩, ?_, atom.shows rfl h₁⟩
    rw [shape_single hv hfront hfield (isMeaningful_of_kind hkind)]
    simp [Expression.operandOf, View.of?_of_kind hkind]
  | .conditional test consequence more, v, front, cs, hv, hfront, h => by
    obtain ⟨c, rfl, hkind, hfield, h₁⟩ := Bears.group h
    obtain ⟨_, _, hc, hk, h₂⟩ := h₁.append
    obtain ⟨_, _, rfl, hb, h₃⟩ := h₂.append
    obtain ⟨_, _, rfl, ht, h₄⟩ := h₃.append
    obtain ⟨_, mcs, rfl, hbraces, hmore⟩ := h₄.append
    obtain ⟨k, rfl, hksilent⟩ := silent_keyword hk
    obtain ⟨b, rfl, hbsilent⟩ := silent_blank hb
    obtain ⟨t, rfl, htfield, htest⟩ := test.shows ht
    obtain ⟨opened, _, closed, rfl, hopened, he, hclosed⟩ := bears_inBraces hbraces
    obtain ⟨e, rfl, hefield, hbody⟩ := consequence.shows he
    have hquiet : ∀ c ∈ [k, b], Silent c := by simp [hksilent, hbsilent]
    have hi : c.children = [k, b] ++ (t.cursor :: (opened ++ (e.cursor :: (closed ++ mcs)))) := by
      simpa using hc
    obtain ⟨hcondition, hconsequence, helseIfs, hotherwise⟩ :=
      conditional_views (i := ⟨c, List.mem_singleton.2 hkind⟩) hi hquiet hopened hclosed htfield
        hefield
    refine ⟨⟨c, List.mem_singleton.2 hkind⟩, ?_, ⟨t, hcondition, htest⟩, ⟨e, hconsequence, hbody⟩, ?_⟩
    · rw [shape_single hv hfront hfield (isMeaningful_of_kind hkind)]
      have hvalue : View.of? [.value] c = none := View.of?_of_ne (by rw [hkind]; nofun)
      simp [Expression.operandOf, View.of?_of_kind hkind, hvalue]
    · rw [helseIfs, hotherwise]
      exact more.shows hmore
theorem Else.shows : (b : Else) → {cs : List Cursor} → Bears tree cs b.layout →
    b.Shows ((cs.filter (·.kind == .elseIfClause)).map clauseParts)
      ((cs.find? (·.kind == .elseClause)).bind (·.viewByField? .body [.expression]))
  | .none, cs, h => by
    obtain rfl := h.empty
    exact ⟨rfl, rfl⟩
  | .otherwise body, cs, h => by
    obtain ⟨_, _, rfl, hb, h₁⟩ := h.append
    obtain ⟨b, rfl, hbkind, -⟩ := hb.blank
    obtain ⟨c, rfl, hkind, -, h₂⟩ := h₁.group
    obtain ⟨_, _, hc, hk, h₃⟩ := h₂.append
    obtain ⟨k, rfl, hksilent⟩ := silent_keyword hk
    obtain ⟨opened, _, closed, rfl, hopened, he, -⟩ := bears_inBraces h₃
    obtain ⟨e, rfl, hefield, hbody⟩ := body.shows he
    have hchildren : c.children = (k :: opened) ++ (e.cursor :: closed) := by simpa using hc
    have hquiet : ∀ c ∈ k :: opened, Silent c := by
      intro c hmem
      rcases List.mem_cons.1 hmem with rfl | hmem
      · exact hksilent
      · exact hopened c hmem
    have hview := viewByField?_of_silent hchildren hquiet hefield
    refine ⟨?_, e, ?_, hbody⟩
    · simp [hbkind, hkind]
    · simp [hbkind, hkind, hview]
  | .elseIf test body more, cs, h => by
    obtain ⟨_, _, rfl, hb, h₁⟩ := h.append
    obtain ⟨_, mcs, rfl, hc, hmore⟩ := h₁.append
    obtain ⟨b, rfl, hbkind, -⟩ := hb.blank
    obtain ⟨c, rfl, hkind, -, h₂⟩ := hc.group
    obtain ⟨_, _, hc, hk, h₃⟩ := h₂.append
    obtain ⟨_, _, rfl, hb', h₄⟩ := h₃.append
    obtain ⟨_, _, rfl, hk', h₅⟩ := h₄.append
    obtain ⟨_, _, rfl, hb'', h₆⟩ := h₅.append
    obtain ⟨_, _, rfl, ht, h₇⟩ := h₆.append
    obtain ⟨k, rfl, hksilent⟩ := silent_keyword hk
    obtain ⟨b', rfl, hbsilent'⟩ := silent_blank hb'
    obtain ⟨k', rfl, hksilent'⟩ := silent_keyword hk'
    obtain ⟨b'', rfl, hbsilent''⟩ := silent_blank hb''
    obtain ⟨t, rfl, htfield, htest⟩ := test.shows ht
    obtain ⟨opened, _, closed, rfl, hopened, he, -⟩ := bears_inBraces h₇
    obtain ⟨e, rfl, hefield, hbody⟩ := body.shows he
    have hquiet : ∀ c ∈ [k, b', k', b''], Silent c := by
      simp [hksilent, hbsilent', hksilent', hbsilent'']
    have hchildren : c.children =
        [k, b', k', b''] ++ (t.cursor :: (opened ++ (e.cursor :: closed))) := by
      simpa using hc
    have hcondition := view?_condition hchildren hquiet
    have hview := viewByField?_of_condition hchildren hquiet hopened htfield hefield
    refine ⟨t, e, (mcs.filter (·.kind == .elseIfClause)).map clauseParts, ?_, htest, hbody, ?_⟩
    · simp [hbkind, hkind, clauseParts, hcondition, hview]
    · have hmcs := more.shows hmore
      simpa [hbkind, hkind] using hmcs
theorem Test.shows : (c : Test) → {cs : List Cursor} → Bears tree cs c.layout →
    ∃ v : Condition, cs = [v.cursor] ∧ v.cursor.field = none ∧ c.Shows v
  | .alone left, cs, h => by
    obtain ⟨c, rfl, hkind, hfield, h₁⟩ := Bears.group h
    obtain ⟨l, hc, hlfield, hleft⟩ := left.shows h₁
    obtain ⟨hcomparison, hl, hr, hp⟩ :=
      condition_alone (c := ⟨c, List.mem_singleton.2 hkind⟩) hc hlfield
    exact ⟨⟨c, List.mem_singleton.2 hkind⟩, rfl, hfield, hcomparison, ⟨l, hl, hleft⟩, hr, hp⟩
  | .compare left equal right, cs, h => by
    obtain ⟨c, rfl, hkind, hfield, h₁⟩ := Bears.group h
    obtain ⟨_, _, hc, hl, h₂⟩ := h₁.append
    obtain ⟨_, _, rfl, hb, h₃⟩ := h₂.append
    obtain ⟨_, _, rfl, hs, h₄⟩ := h₃.append
    obtain ⟨_, _, rfl, hb', hr⟩ := h₄.append
    obtain ⟨l, rfl, hlfield, hleft⟩ := left.shows hl
    obtain ⟨b, rfl, hbkind, hbfield⟩ := hb.blank
    obtain ⟨s, rfl, hssilent, hskind⟩ := silent_mark hs
    obtain ⟨b', rfl, hbsilent'⟩ := silent_blank hb'
    obtain ⟨r, rfl, hrfield, hright⟩ := right.shows hr
    have hsign : Comparison.ofKind? (.token (.mark (equality equal))) = some (comparisonOf equal) := by
      cases equal <;> rfl
    obtain ⟨hcomparison, hl, hr⟩ := condition_compared (c := ⟨c, List.mem_singleton.2 hkind⟩) hc
      hlfield ⟨⟨_, hbkind⟩, hbfield⟩ hssilent hbsilent' hbkind hskind hsign hrfield
    refine ⟨⟨c, List.mem_singleton.2 hkind⟩, rfl, hfield, hcomparison, ⟨l, hl, hleft⟩, r, ?_, hright⟩
    simp [Condition.right?, Cursor.viewByField?, hr, of?_cursor]
  | .pattern left right, cs, h => by
    obtain ⟨c, rfl, hkind, hfield, h₁⟩ := Bears.group h
    obtain ⟨_, _, hc, hl, h₂⟩ := h₁.append
    obtain ⟨_, _, rfl, hb, h₃⟩ := h₂.append
    obtain ⟨_, _, rfl, hs, h₄⟩ := h₃.append
    obtain ⟨_, _, rfl, hb', hr⟩ := h₄.append
    obtain ⟨l, rfl, hlfield, hleft⟩ := left.shows hl
    obtain ⟨b, rfl, hbkind, hbfield⟩ := hb.blank
    obtain ⟨s, rfl, hssilent, hskind⟩ := silent_mark hs
    obtain ⟨b', rfl, hbsilent'⟩ := silent_blank hb'
    obtain ⟨r, rfl, hrkind, hrfield, hstring⟩ := hr.group
    obtain ⟨p, hp, -, hright⟩ := right.shows hstring
    obtain ⟨hcomparison, hl, hr⟩ := condition_compared (c := ⟨c, List.mem_singleton.2 hkind⟩) hc
      hlfield ⟨⟨_, hbkind⟩, hbfield⟩ hssilent hbsilent' hbkind hskind rfl hrfield
    refine ⟨⟨c, List.mem_singleton.2 hkind⟩, rfl, hfield, hcomparison, ⟨l, hl, hleft⟩, p, ?_, hright⟩
    simp [Condition.pattern?, Cursor.viewByField?, hr, View.of?_of_kind hrkind, Cursor.view?, hp,
      of?_cursor]
theorem Atom.shows : (a : Atom) → {v : Value} → {cs : List Cursor} → v.cursor.children = cs →
    Bears tree cs a.layout → a.Shows v
  | .name name, v, cs, hv, h => by
    obtain ⟨c, rfl, hkind, -, htext⟩ := h.leaf
    have hc : v.cursor.children = [] ++ (c :: []) := hv
    refine value_shape hc (List.forall_mem_nil _) (isMeaningful_of_kind hkind) ?_
    have hid : c.kind = .identifier := hkind
    simp [Value.partOf, hid, htext]
  | .string string, v, cs, hv, h => by
    obtain ⟨s, rfl, -, hshows⟩ := string.shows h
    have hkind : s.cursor.kind = .string := List.mem_singleton.1 s.kind_mem
    have hc : v.cursor.children = [] ++ (s.cursor :: []) := hv
    refine ⟨s, value_shape hc (List.forall_mem_nil _) (isMeaningful_of_kind hkind) ?_, hshows⟩
    simp [Value.partOf, hkind, of?_cursor]
  | .call function arguments, v, cs, hv, h => by
    obtain ⟨c, rfl, hkind, -, h₁⟩ := Bears.group h
    have hc : v.cursor.children = [] ++ (c :: []) := hv
    have hother : ∀ kind : Node.Kind, .functionCall ≠ kind → View.of? [kind] c = none :=
      fun kind hne => View.of?_of_ne (by rw [hkind]; exact hne)
    have hshape : v.shape = .call ⟨c, List.mem_singleton.2 hkind⟩ := by
      refine value_shape hc (List.forall_mem_nil _) (isMeaningful_of_kind hkind) ?_
      simp [Value.partOf, hkind, View.of?_of_kind hkind, hother .string nofun,
        hother .externalCommand nofun]
    obtain ⟨_, _, hf, hn, h₂⟩ := h₁.append
    obtain ⟨_, _, rfl, hopened, h₃⟩ := h₂.append
    obtain ⟨acs, _, rfl, hargs, hclosed⟩ := h₃.append
    obtain ⟨n, rfl, hnkind, hnfield, hntext⟩ := hn.leaf
    obtain ⟨opened, rfl, hosilent, -⟩ := silent_mark hopened
    obtain ⟨closed, rfl, hcsilent, -⟩ := silent_mark hclosed
    refine ⟨⟨c, List.mem_singleton.2 hkind⟩, hshape, ?_, ?_⟩
    · rw [call_name hf hnkind hnfield, hntext]
    · exact arguments.shows hf hnfield hosilent hcsilent hargs
  | .group inner, v, cs, hv, h => by
    obtain ⟨_, _, rfl, hopened, h₁⟩ := h.append
    obtain ⟨_, _, rfl, he, hclosed⟩ := h₁.append
    obtain ⟨opened, rfl, hosilent, -⟩ := silent_mark hopened
    obtain ⟨e, rfl, -, hshows⟩ := inner.shows he
    have hkind : e.cursor.kind = .expression := List.mem_singleton.1 e.kind_mem
    have hother : ∀ kind : Node.Kind, .expression ≠ kind → View.of? [kind] e.cursor = none :=
      fun kind hne => View.of?_of_ne (by rw [hkind]; exact hne)
    have hbefore : ∀ c ∈ [opened], Silent c := by simp [hosilent]
    refine ⟨e, value_shape hv hbefore (isMeaningful_of_kind hkind) ?_, hshows⟩
    simp [Value.partOf, hkind, of?_cursor, hother .string nofun, hother .externalCommand nofun,
      hother .functionCall nofun]
theorem Args.shows : (a : Args) → {f : FunctionCall} → {n opened closed : Cursor} →
    {cs : List Cursor} → f.cursor.children = [n] ++ ([opened] ++ (cs ++ [closed])) →
    n.field = some .name → Silent opened → Silent closed → Bears tree cs a.layout →
    a.Shows f.arguments
  | .nil, f, n, opened, closed, cs, hf, hn, hopened, hclosed, h => by
    obtain rfl := h.empty
    exact call_arguments_nil hf hn hopened hclosed
  | .cons first more, f, n, opened, closed, cs, hf, hn, hopened, hclosed, h => by
    obtain ⟨sequence, rfl, hkind, hfield, h₁⟩ := Bears.group h
    obtain ⟨_, mcs, hc, he, hmore⟩ := h₁.append
    obtain ⟨e, rfl, -, hshows⟩ := first.shows he
    refine ⟨e, mcs.filterMap (View.of? [.expression]), ?_, hshows, more.shows_more hmore⟩
    rw [call_arguments_cons hf hn hopened hfield, hc]
    simp [of?_cursor]
theorem Args.shows_more : (a : Args) → {cs : List Cursor} → Bears tree cs a.layoutMore →
    a.Shows (cs.filterMap (View.of? [.expression]))
  | .nil, cs, h => by
    obtain rfl := h.empty
    rfl
  | .cons first more, cs, h => by
    obtain ⟨_, _, rfl, hs, h₁⟩ := h.append
    obtain ⟨_, _, rfl, hb, h₂⟩ := h₁.append
    obtain ⟨_, mcs, rfl, he, hmore⟩ := h₂.append
    obtain ⟨s, rfl, hssilent, -⟩ := silent_mark hs
    obtain ⟨b, rfl, hbsilent⟩ := silent_blank hb
    obtain ⟨e, rfl, -, hshows⟩ := first.shows he
    refine ⟨e, mcs.filterMap (View.of? [.expression]), ?_, hshows, more.shows_more hmore⟩
    have hskip : View.of? [.expression] s = none := hssilent.of? _ rfl
    have hskip' : View.of? [.expression] b = none := hbsilent.of? _ rfl
    simp [hskip, hskip', of?_cursor]
end

end Shows

end Justfile.Printed
