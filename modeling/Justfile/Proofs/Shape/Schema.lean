import Justfile.Proofs.Node
import Mathlib.Computability.Language
import Mathlib.Order.CompletePartialOrder

/-!
# The schema of fields

Which children a node has, by their fields and kinds (`FollowsSchema`). Consumers of a tree look
for children by field, and rely on this for trees of malformed sources too.

The schema is read off a word: the fields and kinds of the children one after the other, without
those that have no field and that no rule of the schema asks for (`Node.word`). So trivia, brackets
and error nodes leave no trace in it, and what a production returns is a small language of words.
-/

set_option autoImplicit false

namespace Justfile

/-- Whether several children of a node can have the field. -/
def Field.isShared : Field → Bool
  | .alternative | .argument | .element => true
  | _ => false

namespace Node

namespace Kind

/-- The signs that join two operands. -/
def isJoint : Kind → Bool
  | .token (.mark .plus) | .token (.mark .slash) => true
  | _ => false

/-- The signs that compare the two sides of a condition. -/
def isComparison : Kind → Bool
  | .token (.mark .equalsEquals) | .token (.mark .bangEquals) | .token (.mark .equalsTilde) => true
  | _ => false

/-- Parameters, variadic or not. -/
def isParameter : Kind → Bool
  | .parameter | .variadicParameter => true
  | _ => false

/-- The kinds of nodes that have a name of their own. -/
def hasName : Kind → Bool
  | .recipeHeader | .parameter | .functionCall | .attributeFlag | .attributeCall
  | .attributeKeyValue | .attributeNamedParam => true
  | _ => false

end Kind

/-- Nothing but further things that are no parameters may follow a variadic parameter. -/
def Kind.MayPrecede (first second : Kind) : Prop :=
  first = .variadicParameter → second.isParameter = false

/-- The children of the node have the fields that its kind asks for. -/
structure FollowsSchema (node : Node) : Prop where
  /-- A field labels at most one child, unless it is shared. -/
  fields : ∀ field : Field, field.isShared = false → (node.childrenByField field).length ≤ 1
  sides : node.kind = .assignment ∨ node.kind = .aliasItem →
    (node.childrenByField .left).length = 1 ∧ (node.childrenByField .right).length = 1
  header : node.kind = .recipe → node.children.countP (·.kind == .recipeHeader) = 1
  /-- The body of a recipe is its last child. -/
  body : node.kind = .recipe → ∀ child ∈ node.children,
    child.field = some .body ∨ child.kind = .recipeBody → node.children.getLast? = some child
  name : node.kind.hasName = true → (node.childrenByField .name).length = 1
  otherwise : node.kind = .elseClause ∨ node.kind = .elseIfClause →
    (node.childrenByField .body).length = 1
  /-- The two operands of an expression stand around one sign. -/
  operands : node.kind = .expression →
    (node.childrenByField .left = [] ∧ node.childrenByField .right = []) ∨
    ∃ front left between right back,
      node.children = front ++ left :: (between ++ right :: back) ∧
      left.field = some .left ∧ left.kind = .expression ∧
      right.field = some .right ∧ right.kind = .expression ∧
      between.countP (·.kind.isJoint) = 1
  /-- A condition has a right side if it has a comparison. -/
  condition : node.kind = .condition →
    (node.childrenByField .left).length = 1 ∧
    (node.childrenByField .right ≠ [] ↔ ∃ child ∈ node.children, child.kind.isComparison = true)
  /-- The last of the alternatives may come without a condition. -/
  conditional : node.kind = .ifExpression →
    node.children.countP (·.kind == .condition) = 1 ∧
    (node.childrenByField .consequence).length = 1 ∧
    ∃ clauses last, node.childrenByField .alternative = clauses ++ last ∧
      (∀ clause ∈ clauses, clause.kind = .elseIfClause) ∧
      (∀ clause ∈ last, clause.kind = .elseClause) ∧ last.length ≤ 1
  parameters : node.kind = .parameters →
    node.children.Pairwise fun first second => first.kind.MayPrecede second.kind

/-! ## Words -/

/-- The field and the kind of a child. -/
abbrev Part := Option Field × Kind

/-- The part that the node is among its siblings. -/
def part (node : Node) : Part := (node.field, node.kind)

/-- The kinds of children that the schema asks for without a field. -/
def Kind.isCounted : Kind → Bool
  | .recipeHeader | .recipeBody | .condition => true
  | kind => kind.isParameter || kind.isJoint || kind.isComparison

/-- Whether the schema asks for the part. -/
def Part.isCounted (part : Part) : Bool := part.1.isSome || part.2.isCounted

/-- The parts of siblings that the schema asks for. -/
def word (nodes : Forest) : List Part := (nodes.map part).filter Part.isCounted

@[simp] theorem word_nil : word [] = [] := rfl

@[simp] theorem word_append (front back : Forest) :
    word (front ++ back) = word front ++ word back := by
  simp [word]

theorem word_cons (node : Node) (rest : Forest) :
    word (node :: rest) = (if Part.isCounted node.part then [node.part] else []) ++ word rest := by
  unfold word
  rw [List.map_cons, List.filter_cons]
  split <;> rfl

theorem word_eq_nil {nodes : Forest}
    (h : ∀ node ∈ nodes, node.field = none ∧ node.kind.isCounted = false) : word nodes = [] := by
  unfold word
  rw [List.filter_eq_nil_iff]
  intro p hp
  obtain ⟨node, hmem, rfl⟩ := List.mem_map.1 hp
  obtain ⟨hfield, hkind⟩ := h node hmem
  simp [part, Part.isCounted, hfield, hkind]

/-- Counted parts can be counted in the word. -/
theorem countP_word {P : Part → Bool} (h : ∀ part, P part = true → part.isCounted = true)
    (nodes : Forest) : (word nodes).countP P = nodes.countP fun node => P node.part := by
  unfold word
  rw [List.countP_filter, List.countP_map]
  apply List.countP_congr
  intro node _
  have hpart := h node.part
  simp only [Function.comp_apply, Bool.and_eq_true]
  exact ⟨And.left, fun hP => ⟨hP, hpart hP⟩⟩

/-- Counted parts can be selected in the word. -/
theorem filter_word {P : Part → Bool} (h : ∀ part, P part = true → part.isCounted = true)
    (nodes : Forest) :
    (word nodes).filter P = (nodes.filter fun node => P node.part).map part := by
  induction nodes with
  | nil => rfl
  | cons node rest ih =>
    rw [word_cons, List.filter_append, ih, List.filter_cons]
    cases hcounted : Part.isCounted node.part with
    | true => cases hP : P node.part <;> simp [hP]
    | false =>
      have hP : P node.part = false := by
        rw [← Bool.not_eq_true]
        intro hP
        rw [h _ hP] at hcounted
        cases hcounted
      simp [hP]

/-- A counted part in the word is that of a sibling. -/
theorem word_eq_append {nodes : Forest} {front back : List Part} {p : Part}
    (h : word nodes = front ++ p :: back) :
    ∃ before node after, nodes = before ++ node :: after ∧ node.part = p ∧
      word before = front ∧ word after = back := by
  induction nodes generalizing front with
  | nil => simp at h
  | cons node rest ih =>
    rw [word_cons] at h
    split at h
    · cases front with
      | nil =>
        obtain ⟨hpart, hrest⟩ := List.cons_eq_cons.1 h
        exact ⟨[], node, rest, rfl, hpart, rfl, hrest⟩
      | cons first front =>
        obtain ⟨hfirst, hrest⟩ := List.cons_eq_cons.1 h
        obtain ⟨before, other, after, rfl, hpart, hbefore, hafter⟩ := ih hrest
        refine ⟨node :: before, other, after, rfl, hpart, ?_, hafter⟩
        rw [word_cons, hbefore, ← hfirst]
        simp_all
    · obtain ⟨before, other, after, rfl, hpart, hbefore, hafter⟩ := ih h
      refine ⟨node :: before, other, after, rfl, hpart, ?_, hafter⟩
      rw [word_cons, hbefore]
      simp_all

/-! ## The schema of words -/

/-- Whether the part has the field. -/
def Part.hasField (field : Field) (part : Part) : Bool := part.1 == some field

/-- Exactly one part has the field. -/
def Once (field : Field) (w : List Part) : Prop := w.countP (Part.hasField field) = 1

/-- No field that is not shared occurs twice. -/
def Sparse (w : List Part) : Prop := ((w.filterMap Prod.fst).filter (!·.isShared)).Nodup

instance (w : List Part) : Decidable (Sparse w) := inferInstanceAs (Decidable (List.Nodup _))

/-- What the schema asks of the children of a node besides. -/
def Schema : Kind → List Part → Prop
  | .assignment, w | .aliasItem, w => Once .left w ∧ Once .right w
  | .recipe, w => w.countP (·.2 == .recipeHeader) = 1
  | .recipeHeader, w | .parameter, w | .functionCall, w | .attributeFlag, w | .attributeCall, w
  | .attributeKeyValue, w | .attributeNamedParam, w => Once .name w
  | .elseClause, w | .elseIfClause, w => Once .body w
  | .expression, w =>
    (w.countP (Part.hasField .left) = 0 ∧ w.countP (Part.hasField .right) = 0) ∨
    ∃ front between back,
      w = front ++ (some .left, .expression) :: (between ++ (some .right, .expression) :: back) ∧
      between.countP (·.2.isJoint) = 1
  | .condition, w =>
    Once .left w ∧ (0 < w.countP (Part.hasField .right) ↔ 0 < w.countP (·.2.isComparison))
  | .ifExpression, w =>
    w.countP (·.2 == .condition) = 1 ∧ Once .consequence w ∧
    ∃ clauses last, w.filter (Part.hasField .alternative) = clauses ++ last ∧
      (∀ clause ∈ clauses, clause.2 = .elseIfClause) ∧
      (∀ clause ∈ last, clause.2 = .elseClause) ∧ last.length ≤ 1
  | .parameters, w => w.Pairwise fun first second => first.2.MayPrecede second.2
  | _, _ => True

/-- A node whose children are as the schema asks. -/
structure Regular (node : Node) : Prop where
  sparse : Sparse (word node.children)
  schema : Schema node.kind (word node.children)
  body : node.kind = .recipe → ∀ child ∈ node.children,
    child.field = some .body ∨ child.kind = .recipeBody → node.children.getLast? = some child

theorem isCounted_of_hasField {field : Field} (p : Part) (h : p.hasField field = true) :
    p.isCounted = true := by
  have hfield : p.1 = some field := beq_iff_eq.1 h
  simp [Part.isCounted, hfield]

theorem countP_hasField (field : Field) (node : Node) :
    (word node.children).countP (Part.hasField field) = (node.childrenByField field).length := by
  rw [countP_word isCounted_of_hasField, List.countP_eq_length_filter]
  rfl

theorem Once.length {field : Field} {node : Node} (h : Once field (word node.children)) :
    (node.childrenByField field).length = 1 := by
  rw [← countP_hasField]
  exact h

theorem isCounted_of_kind {P : Kind → Bool} (h : ∀ kind, P kind = true → kind.isCounted = true)
    (p : Part) (hp : P p.2 = true) : p.isCounted = true := by
  simp [Part.isCounted, h p.2 hp]

theorem countP_kind {P : Kind → Bool} (h : ∀ kind, P kind = true → kind.isCounted = true)
    (nodes : Forest) : (word nodes).countP (P ·.2) = nodes.countP (P ·.kind) :=
  countP_word (isCounted_of_kind h) nodes

theorem isCounted_of_isJoint (kind : Kind) (h : kind.isJoint = true) : kind.isCounted = true := by
  unfold Kind.isCounted
  split <;> simp_all

theorem isCounted_of_isComparison (kind : Kind) (h : kind.isComparison = true) :
    kind.isCounted = true := by
  unfold Kind.isCounted
  split <;> simp_all

theorem isCounted_of_isParameter (kind : Kind) (h : kind.isParameter = true) :
    kind.isCounted = true := by
  unfold Kind.isCounted
  split <;> simp_all

theorem Sparse.length_le_one {node : Node} (h : Sparse (word node.children)) {field : Field}
    (hfield : field.isShared = false) : (node.childrenByField field).length ≤ 1 := by
  have hcount : ∀ w : List Part, w.countP (Part.hasField field) =
      ((w.filterMap Prod.fst).filter (!·.isShared)).count field := by
    intro w
    rw [List.count_filter (by simp [hfield]), List.count_filterMap]
    rfl
  rw [← countP_hasField, hcount]
  exact List.nodup_iff_count_le_one.1 h field

/-! ## From words to children -/

section Regular

variable {node : Node}

theorem Regular.operands (h : node.Regular) (hkind : node.kind = .expression) :
    (node.childrenByField .left = [] ∧ node.childrenByField .right = []) ∨
    ∃ front left between right back,
      node.children = front ++ left :: (between ++ right :: back) ∧
      left.field = some .left ∧ left.kind = .expression ∧
      right.field = some .right ∧ right.kind = .expression ∧
      between.countP (·.kind.isJoint) = 1 := by
  have hschema := h.schema
  rw [hkind] at hschema
  rcases hschema with ⟨hleft, hright⟩ | ⟨front, between, back, hword, hsign⟩
  · left
    rw [countP_hasField] at hleft hright
    exact ⟨List.eq_nil_of_length_eq_zero hleft, List.eq_nil_of_length_eq_zero hright⟩
  · right
    obtain ⟨before, left, rest, hchildren, hleft, -, hrest⟩ := word_eq_append hword
    obtain ⟨middle, right, after, rfl, hright, hmiddle, -⟩ := word_eq_append hrest
    have hsigns : middle.countP (·.kind.isJoint) = 1 := by
      rw [← hmiddle, countP_kind isCounted_of_isJoint] at hsign
      exact hsign
    exact ⟨before, left, middle, right, after, hchildren, congrArg Prod.fst hleft,
      congrArg Prod.snd hleft, congrArg Prod.fst hright, congrArg Prod.snd hright, hsigns⟩

theorem Regular.condition (h : node.Regular) (hkind : node.kind = .condition) :
    (node.childrenByField .left).length = 1 ∧
    (node.childrenByField .right ≠ [] ↔
      ∃ child ∈ node.children, child.kind.isComparison = true) := by
  have hschema := h.schema
  rw [hkind] at hschema
  obtain ⟨hleft, hright⟩ := hschema
  rw [countP_hasField, countP_kind isCounted_of_isComparison, List.length_pos_iff,
    List.countP_pos_iff] at hright
  exact ⟨hleft.length, hright⟩

theorem Regular.conditional (h : node.Regular) (hkind : node.kind = .ifExpression) :
    node.children.countP (·.kind == .condition) = 1 ∧
    (node.childrenByField .consequence).length = 1 ∧
    ∃ clauses last, node.childrenByField .alternative = clauses ++ last ∧
      (∀ clause ∈ clauses, clause.kind = .elseIfClause) ∧
      (∀ clause ∈ last, clause.kind = .elseClause) ∧ last.length ≤ 1 := by
  have hschema := h.schema
  rw [hkind] at hschema
  obtain ⟨htest, hbody, clauses, last, hsplit, hclauses, hlast, hlength⟩ := hschema
  have hcounted : ∀ kind : Kind, (kind == .condition) = true → kind.isCounted = true := by
    intro kind heq
    rw [beq_iff_eq.1 heq]
    rfl
  rw [countP_kind hcounted] at htest
  rw [filter_word isCounted_of_hasField, List.map_eq_append_iff] at hsplit
  obtain ⟨front, back, hchildren, rfl, rfl⟩ := hsplit
  refine ⟨htest, hbody.length, front, back, hchildren, ?_, ?_, ?_⟩
  · intro clause hmem
    exact hclauses clause.part (List.mem_map_of_mem hmem)
  · intro clause hmem
    exact hlast clause.part (List.mem_map_of_mem hmem)
  · rwa [List.length_map] at hlength

theorem Regular.parameters (h : node.Regular) (hkind : node.kind = .parameters) :
    node.children.Pairwise fun first second => first.kind.MayPrecede second.kind := by
  have hschema := h.schema
  rw [hkind] at hschema
  replace hschema : (word node.children).Pairwise fun first second =>
    first.2.MayPrecede second.2 := hschema
  unfold word at hschema
  rw [List.pairwise_filter, List.pairwise_map] at hschema
  apply hschema.imp
  intro first second hpair hvariadic
  -- A child that is not counted is no parameter anyway.
  cases hsecond : second.kind.isParameter with
  | false => rfl
  | true =>
    have hcounted := isCounted_of_kind isCounted_of_isParameter
    have hfirst : first.kind.isParameter = true := by rw [hvariadic]; rfl
    rw [← hsecond]
    exact hpair (hcounted first.part hfirst) (hcounted second.part hsecond) hvariadic

/-- A node with regular children follows the schema. -/
theorem Regular.followsSchema (h : node.Regular) : node.FollowsSchema := by
  have hschema := h.schema
  constructor
  · intro field hfield
    exact h.sparse.length_le_one hfield
  · rintro (hkind | hkind) <;> rw [hkind] at hschema <;>
      exact ⟨hschema.1.length, hschema.2.length⟩
  · intro hkind
    rw [hkind] at hschema
    have hcounted : ∀ kind : Kind, (kind == .recipeHeader) = true → kind.isCounted = true := by
      intro kind heq
      rw [beq_iff_eq.1 heq]
      rfl
    rw [← countP_kind hcounted]
    exact hschema
  · exact h.body
  · intro hname
    apply Once.length
    cases hkind : node.kind <;> rw [hkind] at hname hschema <;> first | exact hschema | cases hname
  · rintro (hkind | hkind) <;> rw [hkind] at hschema <;> exact Once.length hschema
  · exact h.operands
  · exact h.condition
  · exact h.conditional
  · exact h.parameters

end Regular

end Node

end Justfile
