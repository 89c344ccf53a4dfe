import Justfile.Sexp

/-!
# What s-expressions show

An s-expression shows the kind of a node and its named children, each with the part that it plays: the
skeleton of the node (`skeleton`). It shows nothing else, and two skeletons are never shown alike
(`Skeleton.onto_inj`), whatever follows them in a longer text: names end where a space, a colon or a
parenthesis stands, and nothing in a name is one of these. The form with one node on each line is that on
one line with other blanks between the nodes (`unwrap_blockOnto`).
-/

set_option autoImplicit false

namespace Justfile

/-! ## Names -/

theorem Node.Kind.mem_named {kind : Node.Kind} (h : kind.isNamed = true) : kind ∈ named := by
  cases kind <;> first | decide | cases h

/-- A named kind has its name for itself. -/
theorem Node.Kind.ofName?_name {kind : Node.Kind} (h : kind.isNamed = true) :
    Node.Kind.ofName? kind.name = some kind := by
  -- All names are compared at once: each is then evaluated a single time.
  have hall : (named.all fun kind => ofName? kind.name == some kind) = true := by decide +kernel
  exact beq_iff_eq.1 (List.all_eq_true.1 hall kind (mem_named h))

theorem Node.Kind.name_inj {kind other : Node.Kind} (hkind : kind.isNamed = true)
    (hother : other.isNamed = true) (h : kind.name = other.name) : kind = other :=
  Option.some.inj ((ofName?_name hkind).symm.trans ((congrArg ofName? h).trans (ofName?_name hother)))

/-- A field has its name for itself. -/
theorem Field.ofLabel?_label (field : Field) : Field.ofLabel? field.label = some field := by
  cases field <;> decide +kernel

theorem Field.label_inj {field other : Field} (h : field.label = other.label) : field = other :=
  Option.some.inj ((ofLabel?_label field).symm.trans ((congrArg ofLabel? h).trans (ofLabel?_label other)))

/-- No token is called by a line feed. -/
theorem Token.Kind.feed_not_mem_name (kind : Token.Kind) : '\n' ∉ kind.name.toList := by
  cases kind with
  | stringOpen dialect | stringClose dialect =>
    obtain ⟨letter, quote, indented⟩ := dialect
    cases letter <;> cases quote <;> cases indented <;> decide
  | commandOpen indented | commandClose indented => cases indented <;> decide
  | keyword word => cases word <;> decide
  | mark sign => cases sign <;> decide
  | errorRecovery fault =>
    change '\n' ∉ "error_recovery".toList
    decide
  | _ => decide

namespace Sexp

/-- The characters of names. -/
def isWordChar (c : Char) : Bool := c.isAlpha || c == '_'

theorem isWordChar_name {kind : Node.Kind} (h : kind.isNamed = true) :
    ∀ c ∈ kind.name.toList, isWordChar c = true := by
  have hall : (Node.Kind.named.all fun kind => kind.name.toList.all isWordChar) = true := by
    decide +kernel
  exact List.all_eq_true.1 (List.all_eq_true.1 hall kind (Node.Kind.mem_named h))

theorem isWordChar_label (field : Field) : ∀ c ∈ field.label.toList, isWordChar c = true := by
  refine List.all_eq_true.1 ?_
  cases field <;> decide +kernel

/-! ## Skeletons -/

/-- A kind that carries a meaning of the grammar. -/
abbrev NamedKind := { kind : Node.Kind // kind.isNamed = true }

/-- What can be seen of a node: its kind, and its named children, each with the part it plays. -/
inductive Skeleton where
  | node (kind : NamedKind) (children : List (Option Field × Skeleton))

mutual
/-- The skeleton of a node of a named kind. -/
def skeleton : (node : Node) → node.kind.isNamed = true → Skeleton
  | ⟨_, kind, _, children⟩, h => .node ⟨kind, h⟩ (skeletons children)
/-- The skeletons of the named nodes among siblings, each with the part it plays. -/
def skeletons : Forest → List (Option Field × Skeleton)
  | [] => []
  | node :: rest =>
    if h : node.kind.isNamed = true then (node.field, skeleton node h) :: skeletons rest
    else skeletons rest
end

mutual
/-- Writes a skeleton on one line in front of a text. -/
def Skeleton.onto : Skeleton → Text → Text
  | .node kind children, tail => '(' :: kind.1.name.toList ++ Skeleton.listOnto children (')' :: tail)
/-- Writes skeletons, each behind a space and the part it plays, in front of a text. -/
def Skeleton.listOnto : List (Option Field × Skeleton) → Text → Text
  | [], tail => tail
  | (field, child) :: rest, tail => ' ' :: label field ++ child.onto (Skeleton.listOnto rest tail)
end

mutual
/-- Only the skeleton of a node is shown. -/
theorem lineOnto_eq_onto :
    ∀ (node : Node) (h : node.kind.isNamed = true) (tail : Text),
      lineOnto node tail = (skeleton node h).onto tail
  | ⟨_, kind, _, children⟩, h, tail => by
    rw [lineOnto, skeleton, Skeleton.onto, linesOnto_eq_listOnto children]
theorem linesOnto_eq_listOnto :
    ∀ (nodes : Forest) (tail : Text), linesOnto nodes tail = Skeleton.listOnto (skeletons nodes) tail
  | [], _ => rfl
  | node :: rest, tail => by
    rw [linesOnto, skeletons, linesOnto_eq_listOnto rest tail]
    by_cases h : node.kind.isNamed = true
    · rw [if_pos h, dif_pos h, Skeleton.listOnto, lineOnto_eq_onto node h]
    · rw [if_neg h, dif_neg h]
end

/-! ## Reading back -/

/-- The text does not go on with a name. -/
def Stops (text : Text) : Prop := ∃ c rest, text = c :: rest ∧ isWordChar c = false

theorem stops_cons {c : Char} (rest : Text) (h : isWordChar c = false) : Stops (c :: rest) :=
  ⟨c, rest, rfl, h⟩

/-- A word ends where no further character of names stands. -/
theorem word_append_inj {word other rest back : Text} (hword : ∀ c ∈ word, isWordChar c = true)
    (hother : ∀ c ∈ other, isWordChar c = true) (hrest : Stops rest) (hback : Stops back)
    (h : word ++ rest = other ++ back) : word = other ∧ rest = back := by
  have hcut : ∀ {front behind : Text}, (∀ c ∈ front, isWordChar c = true) → Stops behind →
      (front ++ behind).takeWhile isWordChar = front := by
    rintro front _ hfront ⟨c, more, rfl, hc⟩
    rw [List.takeWhile_append_of_pos hfront, List.takeWhile_cons_of_neg (by simp [hc]),
      List.append_nil]
  have hsame : word = other := by
    rw [← hcut hword hrest, h, hcut hother hback]
  subst hsame
  exact ⟨rfl, List.append_cancel_left h⟩

theorem label_ne_nil (field : Field) : field.label.toList ≠ [] := by
  cases field <;> decide +kernel

/-- What the label shows is a word, possibly empty, and something behind it that is no word. -/
theorem exists_label_eq (field : Option Field) (rest : Text) :
    ∃ behind, Stops behind ∧
      label field ++ '(' :: rest = (field.elim [] fun f => f.label.toList) ++ behind := by
  cases field with
  | none => exact ⟨'(' :: rest, stops_cons rest rfl, rfl⟩
  | some f =>
    refine ⟨':' :: ' ' :: '(' :: rest, stops_cons _ rfl, ?_⟩
    rw [label, List.append_assoc]
    rfl

/-- A label tells the part that a node plays, and where the node starts. -/
theorem label_append_inj {field other : Option Field} {rest back : Text}
    (h : label field ++ '(' :: rest = label other ++ '(' :: back) : field = other ∧ rest = back := by
  have hword : ∀ field : Option Field,
      ∀ c ∈ (field.elim [] fun f => f.label.toList), isWordChar c = true := by
    intro field
    cases field with
    | none => exact nofun
    | some f => exact isWordChar_label f
  obtain ⟨behind, hbehind, hfield⟩ := exists_label_eq field rest
  obtain ⟨behind', hbehind', hother⟩ := exists_label_eq other back
  obtain ⟨hsame, -⟩ := word_append_inj (hword field) (hword other) hbehind hbehind'
    (hfield.symm.trans (h.trans hother))
  have heq : field = other := by
    cases field with
    | none =>
      cases other with
      | none => rfl
      | some g => exact absurd hsame.symm (label_ne_nil g)
    | some f =>
      cases other with
      | none => exact absurd hsame (label_ne_nil f)
      | some g => exact congrArg some (Field.label_inj (String.toList_inj.1 hsame))
  subst heq
  exact ⟨rfl, (List.cons.inj (List.append_cancel_left h)).2⟩

theorem Skeleton.onto_eq_cons (a : Skeleton) (tail : Text) : ∃ rest, a.onto tail = '(' :: rest := by
  obtain ⟨kind, children⟩ := a
  exact ⟨_, rfl⟩

theorem stops_listOnto (children : List (Option Field × Skeleton)) (tail : Text) :
    Stops (Skeleton.listOnto children (')' :: tail)) := by
  cases children with
  | nil => exact stops_cons tail rfl
  | cons child rest => exact stops_cons _ rfl

mutual
/-- A skeleton that is written in front of a text can be read back, and so can the text. -/
theorem Skeleton.onto_inj : ∀ {a b : Skeleton} {s t : Text}, a.onto s = b.onto t → a = b ∧ s = t
  | .node kind children, .node kind' children', s, t, h => by
    rw [Skeleton.onto, Skeleton.onto] at h
    obtain ⟨hname, hrest⟩ := word_append_inj (isWordChar_name kind.2) (isWordChar_name kind'.2)
      (stops_listOnto children s) (stops_listOnto children' t) (List.cons.inj h).2
    obtain ⟨hchildren, htail⟩ := Skeleton.listOnto_inj hrest
    have hkind : kind = kind' :=
      Subtype.ext (Node.Kind.name_inj kind.2 kind'.2 (String.toList_inj.1 hname))
    exact ⟨by rw [hkind, hchildren], htail⟩
theorem Skeleton.listOnto_inj : ∀ {as bs : List (Option Field × Skeleton)} {s t : Text},
    Skeleton.listOnto as (')' :: s) = Skeleton.listOnto bs (')' :: t) → as = bs ∧ s = t
  | [], [], s, t, h => ⟨rfl, (List.cons.inj h).2⟩
  | [], _ :: _, _, _, h => by cases (List.cons.inj h).1
  | _ :: _, [], _, _, h => by cases (List.cons.inj h).1
  | (field, a) :: as, (field', b) :: bs, s, t, h => by
    rw [Skeleton.listOnto, Skeleton.listOnto] at h
    obtain ⟨rest, hrest⟩ := a.onto_eq_cons (Skeleton.listOnto as (')' :: s))
    obtain ⟨back, hback⟩ := b.onto_eq_cons (Skeleton.listOnto bs (')' :: t))
    -- A child starts with a parenthesis, where the label in front of it ends.
    have hshown := (List.cons.inj h).2
    rw [hrest, hback] at hshown
    obtain ⟨hfield, hsame⟩ := label_append_inj hshown
    obtain ⟨hchild, hmore⟩ := Skeleton.onto_inj (hrest.trans ((congrArg _ hsame).trans hback.symm))
    obtain ⟨hothers, htail⟩ := Skeleton.listOnto_inj hmore
    exact ⟨by rw [hfield, hchild, hothers], htail⟩
end

/-! ## One line and many -/

/-- A text in which each line feed, and the spaces right behind it, became one space. The flag says
whether such spaces are being passed over. -/
def unwrap (skipping : Bool) : Text → Text
  | [] => []
  | c :: rest =>
    if c = '\n' then ' ' :: unwrap true rest
    else if skipping && c == ' ' then unwrap true rest
    else c :: unwrap false rest

theorem unwrap_feed (skipping : Bool) (rest : Text) :
    unwrap skipping ('\n' :: rest) = ' ' :: unwrap true rest := rfl

theorem unwrap_cons {c : Char} (h : c ≠ '\n') (rest : Text) :
    unwrap false (c :: rest) = c :: unwrap false rest := by
  rw [unwrap, if_neg h]
  rfl

/-- Nothing is passed over where no space stands. -/
theorem unwrap_skipping {c : Char} (h : c ≠ ' ') (rest : Text) :
    unwrap true (c :: rest) = unwrap false (c :: rest) := by
  have hc : (c == ' ') = false := beq_false_of_ne h
  simp only [unwrap, hc, Bool.and_false]

theorem unwrap_spaces (size : Nat) (rest : Text) :
    unwrap true (List.replicate size ' ' ++ rest) = unwrap true rest := by
  induction size with
  | zero => rfl
  | succ size ih => exact ih

theorem unwrap_append {front : Text} (h : '\n' ∉ front) (rest : Text) :
    unwrap false (front ++ rest) = front ++ unwrap false rest := by
  induction front with
  | nil => rfl
  | cons c front ih =>
    obtain ⟨hc, hfront⟩ := List.ne_and_not_mem_of_not_mem_cons h
    rw [List.cons_append, unwrap_cons hc.symm, ih hfront]
    rfl

theorem feed_not_mem_of_word {word : Text} (h : ∀ c ∈ word, isWordChar c = true) : '\n' ∉ word :=
  fun hmem => by cases h '\n' hmem

/-- No name goes on on the next line. -/
theorem feed_not_mem_name (kind : Node.Kind) : '\n' ∉ kind.name.toList := by
  by_cases h : kind.isNamed = true
  · exact feed_not_mem_of_word (isWordChar_name h)
  · cases kind with
    | token kind => exact kind.feed_not_mem_name
    | _ => exact absurd rfl h

theorem feed_not_mem_label (field : Option Field) : '\n' ∉ label field := by
  cases field with
  | none => exact List.not_mem_nil
  | some f =>
    rw [label, List.mem_append, not_or]
    exact ⟨feed_not_mem_of_word (isWordChar_label f), by decide⟩

/-- No label starts with a space, nor does what stands behind it. -/
theorem exists_label_cons (field : Option Field) (rest : Text) :
    ∃ c more, label field ++ '(' :: rest = c :: more ∧ c ≠ ' ' := by
  cases field with
  | none => exact ⟨'(', rest, rfl, by decide⟩
  | some f =>
    obtain ⟨c, word, hword⟩ := List.exists_cons_of_ne_nil (label_ne_nil f)
    have hc := isWordChar_label f c (hword ▸ List.mem_cons_self)
    refine ⟨c, word ++ [':', ' '] ++ '(' :: rest, by rw [label, hword]; rfl, ?_⟩
    rintro rfl
    cases hc

theorem exists_blockOnto_cons (depth : Nat) (node : Node) (tail : Text) :
    ∃ rest, blockOnto depth node tail = '(' :: rest := by
  obtain ⟨field, kind, span, children⟩ := node
  exact ⟨_, rfl⟩

mutual
/-- The lines of a node, put together. -/
theorem unwrap_blockOnto : ∀ (depth : Nat) (node : Node) (tail : Text),
    unwrap false (blockOnto depth node tail) = lineOnto node (unwrap false tail)
  | depth, ⟨_, kind, _, children⟩, tail => by
    rw [blockOnto, lineOnto, List.cons_append, unwrap_cons (by decide),
      unwrap_append (feed_not_mem_name kind), unwrap_blocksOnto (depth + 1) children,
      unwrap_cons (by decide)]
    rfl
theorem unwrap_blocksOnto : ∀ (depth : Nat) (nodes : Forest) (tail : Text),
    unwrap false (blocksOnto depth nodes tail) = linesOnto nodes (unwrap false tail)
  | _, [], _ => rfl
  | depth, node :: rest, tail => by
    have hrest := unwrap_blocksOnto depth rest tail
    have hnode := unwrap_blockOnto depth node (blocksOnto depth rest tail)
    rw [hrest] at hnode
    rw [blocksOnto, linesOnto]
    split
    · obtain ⟨more, hmore⟩ := exists_blockOnto_cons depth node (blocksOnto depth rest tail)
      obtain ⟨c, others, hlabel, hc⟩ := exists_label_cons node.field more
      -- Behind the indentation stands no further space, so that passing over spaces ends there.
      have hlabelled : unwrap true (label node.field ++ '(' :: more) =
          label node.field ++ unwrap false ('(' :: more) := by
        rw [hlabel, unwrap_skipping hc, ← hlabel, unwrap_append (feed_not_mem_label node.field)]
      rw [hmore] at hnode ⊢
      rw [List.cons_append, List.cons_append, unwrap_feed, List.append_assoc, unwrap_spaces, hlabelled,
        hnode]
      rfl
    · exact hrest
end

mutual
theorem blockOnto_append : ∀ (depth : Nat) (node : Node) (tail back : Text),
    blockOnto depth node (tail ++ back) = blockOnto depth node tail ++ back
  | depth, ⟨_, kind, _, children⟩, tail, back => by
    have hchildren := blocksOnto_append (depth + 1) children (')' :: tail) back
    rw [List.cons_append] at hchildren
    rw [blockOnto, blockOnto, hchildren, List.append_assoc]
theorem blocksOnto_append : ∀ (depth : Nat) (nodes : Forest) (tail back : Text),
    blocksOnto depth nodes (tail ++ back) = blocksOnto depth nodes tail ++ back
  | _, [], _, _ => rfl
  | depth, node :: rest, tail, back => by
    rw [blocksOnto, blocksOnto, blocksOnto_append depth rest]
    split
    · rw [blockOnto_append depth node]
      simp only [List.cons_append, List.append_assoc]
    · rfl
end

/-- **What an s-expression shows.** Two nodes of named kinds look alike on one line exactly when they have
the same skeleton. With one node on each line a tree looks as it does on one line, but for the line
feeds with the spaces behind them, which stand for one space each, and the line feed at the end. -/
theorem line_eq_iff_skeleton_eq :
    (∀ (a b : Node) (ha : a.kind.isNamed = true) (hb : b.kind.isNamed = true),
      line a = line b ↔ skeleton a ha = skeleton b hb) ∧
    ∀ tree : Tree, ∃ body, prettyOfTree tree = body ++ ['\n'] ∧ unwrap false body = ofTree tree := by
  refine ⟨fun a b ha hb => ?_, fun tree => ?_⟩
  · rw [line, line, lineOnto_eq_onto a ha, lineOnto_eq_onto b hb]
    exact ⟨fun h => (Skeleton.onto_inj h).1, fun h => by rw [h]⟩
  · refine ⟨blockOnto 0 tree.root [], blockOnto_append 0 tree.root [] ['\n'], ?_⟩
    exact unwrap_blockOnto 0 tree.root []

end Sexp

end Justfile
