import Justfile.Proofs.Reading.Primitive
import Justfile.Proofs.Shape.Schema

/-!
# Shapes of siblings

What a production returns, as far as the schema of fields and the place of trivia go. `Shaped` says
that every node is as it should be (`Node.Conforms`), that the word of the siblings is in a
language, and that trivia stands neither before the first nor behind the last of them; `Fills` says
besides that there is a sibling.

Both claim nothing of a run in which a budget ran out, so that the specifications of productions
need no bound on the work ahead. Runs on the budget of their source do not run out of it.
-/

set_option autoImplicit false

namespace Justfile

namespace Node

/-! ## Nodes on their own -/

/-- A leaf is a token, or marks a place without characters; other nodes have regular children, and
trivia is neither the first nor the last of them. -/
structure Conforms (node : Node) : Prop extends Regular node where
  leaf : node.children = [] → (∃ kind, node.kind = .ofToken kind) ∨
    ((node.kind = .missing ∨ node.kind = .error) ∧ node.span.start = node.span.stop)
  first : ∀ child ∈ node.children.head?, child.kind.isTrivia = false
  last : ∀ child ∈ node.children.getLast?, child.kind.isTrivia = false

theorem sparse_nil : Sparse [] := List.nodup_nil

theorem schema_ofToken (kind : Token.Kind) : Schema (.ofToken kind) [] := by
  cases kind <;> trivial

theorem conforms_leaf {field : Option Field} {kind : Kind} {span : Span} (hschema : Schema kind [])
    (hleaf : (∃ token, kind = .ofToken token) ∨
      ((kind = .missing ∨ kind = .error) ∧ span.start = span.stop)) :
    (leaf field kind span).Conforms where
  sparse := sparse_nil
  schema := hschema
  body _ := nofun
  leaf _ := hleaf
  first := nofun
  last := nofun

theorem conforms_ofToken (field : Option Field) (token : Token) :
    (ofToken field token).Conforms :=
  conforms_leaf (schema_ofToken token.kind) (.inl ⟨token.kind, rfl⟩)

theorem conforms_missing (field : Option Field) (offset : Nat) :
    (leaf field .missing (.empty offset)).Conforms :=
  conforms_leaf trivial (.inr ⟨.inl rfl, rfl⟩)

theorem isTrivia_ofToken (kind : Token.Kind) : (Kind.ofToken kind).isTrivia = kind.isTrivia := by
  cases kind <;> rfl

/-- The kinds of trivia are not counted, and neither is a line break. -/
theorem isCounted_of_isTrivia {s : Stream} {kind : Token.Kind} (h : s.isTrivia kind = true) :
    (Kind.ofToken kind).isCounted = false := by
  cases kind <;> first | rfl | cases h

/-! ## Languages -/

/-- The word of one node. -/
def one (field : Option Field) (kind : Kind) : Language Part :=
  {[(field, kind)].filter Part.isCounted}

/-- The words of one node with a field, if there is one, and of a kind that is not counted. -/
def labelled : Option Field → Language Part
  | none => 1
  | some field => {w | ∃ kind : Kind, kind.isCounted = false ∧ w = [(some field, kind)]}

/-- The words of at most one node. -/
def atMost (field : Option Field) : Language Part := {w | w = [] ∨ ∃ kind, w = [(field, kind)]}

/-- The words of nodes without fields. -/
def bare : Language Part := {w | ∀ part ∈ w, part.1 = none}

theorem word_singleton (node : Node) : word [node] ∈ one node.field node.kind := by
  change _ = _
  rfl

/-- A field is always counted. -/
theorem one_some (field : Field) (kind : Kind) :
    one (some field) kind = {[(some field, kind)]} := by
  unfold one
  rw [List.filter_cons_of_pos rfl, List.filter_nil]

theorem one_eq_one {kind : Kind} (h : kind.isCounted = false) : one none kind = 1 := by
  unfold one
  rw [List.filter_cons_of_neg (by simp [Part.isCounted, h])]
  rfl

theorem one_le_labelled {kind : Kind} (h : kind.isCounted = false) (field : Option Field) :
    one field kind ≤ labelled field := by
  cases field with
  | none => exact (one_eq_one h).le
  | some field =>
    rintro w ⟨⟩
    exact ⟨kind, h, rfl⟩

theorem one_le_atMost (field : Option Field) (kind : Kind) : one field kind ≤ atMost field := by
  rintro w ⟨⟩
  rw [List.filter_cons]
  split
  · exact .inr ⟨kind, rfl⟩
  · exact .inl rfl

theorem one_le_bare : (1 : Language Part) ≤ bare := by
  rintro w ⟨⟩
  exact List.forall_mem_nil _

theorem atMost_le_bare : atMost none ≤ bare := by
  rintro w (rfl | ⟨kind, rfl⟩)
  · exact List.forall_mem_nil _
  · simp [bare]

theorem bare_mul_bare : bare * bare ≤ bare := by
  rintro w ⟨front, hfront, back, hback, rfl⟩ part hmem
  rcases List.mem_append.1 hmem with hmem | hmem
  · exact hfront part hmem
  · exact hback part hmem

theorem sparse_of_bare {w : List Part} (h : w ∈ bare) : Sparse w := by
  have hnone : w.filterMap Prod.fst = [] := by
    rw [List.filterMap_eq_nil_iff]
    exact h
  unfold Sparse
  rw [hnone]
  exact List.nodup_nil

/-- The children of a node of the kind can have the words. Recipes have rules of their own. -/
def Kind.Admits (kind : Kind) (L : Language Part) : Prop :=
  kind ≠ .recipe ∧ ∀ w ∈ L, Sparse w ∧ Schema kind w

theorem Kind.Admits.regular {kind : Kind} {L : Language Part} (admits : kind.Admits L)
    {children : Forest} (hword : word children ∈ L) (field : Option Field) (offset : Nat) :
    (branch field kind children offset).Regular :=
  ⟨(admits.2 _ hword).1, (admits.2 _ hword).2, fun hkind => absurd hkind admits.1⟩

theorem Kind.Admits.mono {kind : Kind} {L M : Language Part} (admits : kind.Admits M)
    (hle : L ≤ M) : kind.Admits L :=
  ⟨admits.1, fun w hmem => admits.2 w (hle hmem)⟩

/-- A node of the kind can have children without fields, unless the schema asks for some. -/
theorem admits_one {kind : Kind} (hkind : kind ≠ .recipe) (hschema : Schema kind []) :
    kind.Admits 1 := by
  refine ⟨hkind, ?_⟩
  rintro w ⟨⟩
  exact ⟨sparse_nil, hschema⟩

end Node

namespace Grammar

open Node (Part one labelled atMost bare)

/-! ## Siblings -/

/-- The siblings that are made between two states. -/
structure Shape (L : Language Part) (s : State) (nodes : Forest) (t : State) : Prop where
  conforms : ∀ node ∈ Node.preorderList nodes, node.Conforms
  word : Node.word nodes ∈ L
  first : s.stream.Flush → ∀ node ∈ nodes.head?, node.kind.isTrivia = false
  last : ∀ node ∈ nodes.getLast?, node.kind.isTrivia = false
  idle : nodes = [] → s.stream.Flush → t.stream.Flush

/-- The siblings that are made between two states, unless a budget runs out. -/
structure Shaped (L : Language Part) (s : State) (nodes : Forest) (t : State) : Prop where
  wellFormed : t.scanner.WellFormed
  exhausted : t.exhausted = false → s.exhausted = false
  shape : t.exhausted = false → Shape L s nodes t

/-- There is at least one sibling. -/
structure Fills (L : Language Part) (s : State) (nodes : Forest) (t : State) : Prop
    extends Shaped L s nodes t where
  ne_nil : t.exhausted = false → nodes ≠ []

section Siblings

variable {L M : Language Part} {s t u : State} {nodes front back : Forest}

theorem Shape.append (first : Shape L s front t) (second : Shape M t back u) :
    Shape (L * M) s (front ++ back) u := by
  constructor
  · intro node hmem
    rw [Node.preorderList_append] at hmem
    rcases List.mem_append.1 hmem with hmem | hmem
    · exact first.conforms node hmem
    · exact second.conforms node hmem
  · rw [Node.word_append]
    exact Language.append_mem_mul first.word second.word
  · intro flush node hmem
    cases front with
    | nil => exact second.first (first.idle rfl flush) node hmem
    | cons head rest => exact first.first flush node hmem
  · intro node hmem
    rw [List.getLast?_append] at hmem
    cases hlast : back.getLast? with
    | none =>
      rw [hlast, Option.none_or] at hmem
      exact first.last node hmem
    | some last =>
      rw [hlast, Option.some_or] at hmem
      exact second.last node (hlast ▸ hmem)
  · intro hnil flush
    obtain ⟨hfront, hback⟩ := List.append_eq_nil_iff.1 hnil
    exact second.idle hback (first.idle hfront flush)

theorem Shape.mono (h : Shape L s nodes t) (hle : L ≤ M) : Shape M s nodes t :=
  { h with word := hle h.word }

theorem Shaped.nil (wf : s.scanner.WellFormed) : Shaped 1 s [] s :=
  ⟨wf, id, fun _ => ⟨nofun, rfl, fun _ => nofun, nofun, fun _ flush => flush⟩⟩

theorem Shaped.append (first : Shaped L s front t) (second : Shaped M t back u) :
    Shaped (L * M) s (front ++ back) u := by
  refine ⟨second.wellFormed, fun h => first.exhausted (second.exhausted h), ?_⟩
  intro h
  exact (first.shape (second.exhausted h)).append (second.shape h)

theorem Shaped.mono (h : Shaped L s nodes t) (hle : L ≤ M) : Shaped M s nodes t :=
  ⟨h.wellFormed, h.exhausted, fun hrun => (h.shape hrun).mono hle⟩

theorem Fills.mono (h : Fills L s nodes t) (hle : L ≤ M) : Fills M s nodes t :=
  ⟨h.toShaped.mono hle, h.ne_nil⟩

theorem Fills.append (first : Fills L s front t) (second : Shaped M t back u) :
    Fills (L * M) s (front ++ back) u := by
  refine ⟨first.toShaped.append second, ?_⟩
  intro h
  exact List.append_ne_nil_of_left_ne_nil (first.ne_nil (second.exhausted h)) _

theorem Shaped.append_fills (first : Shaped L s front t) (second : Fills M t back u) :
    Fills (L * M) s (front ++ back) u :=
  ⟨first.append second.toShaped, fun h => List.append_ne_nil_of_right_ne_nil _ (second.ne_nil h)⟩

/-! What leaves nothing in the word can be put in front or behind. -/

theorem Shaped.append_one (first : Shaped L s front t) (second : Shaped 1 t back u) :
    Shaped L s (front ++ back) u :=
  (first.append second).mono (mul_one L).le

theorem Shaped.one_append (first : Shaped 1 s front t) (second : Shaped L t back u) :
    Shaped L s (front ++ back) u :=
  (first.append second).mono (one_mul L).le

theorem Fills.append_one (first : Fills L s front t) (second : Shaped 1 t back u) :
    Fills L s (front ++ back) u :=
  (first.append second).mono (mul_one L).le

theorem Fills.one_append (first : Fills 1 s front t) (second : Shaped L t back u) :
    Fills L s (front ++ back) u :=
  (first.append second).mono (one_mul L).le

theorem Shaped.one_append_fills (first : Shaped 1 s front t) (second : Fills L t back u) :
    Fills L s (front ++ back) u :=
  (first.append_fills second).mono (one_mul L).le

/-- Changes of context behind a node, and reports, leave the siblings as they are. -/
theorem Fills.change (h : Fills L s nodes t) (hscanner : u.scanner = t.scanner)
    (hexhausted : u.exhausted = t.exhausted) : Fills L s nodes u := by
  refine ⟨⟨hscanner ▸ h.wellFormed, hexhausted ▸ h.exhausted, ?_⟩, hexhausted ▸ h.ne_nil⟩
  intro hrun
  rw [hexhausted] at hrun
  have hshape := h.shape hrun
  exact { hshape with idle := fun hnil => absurd hnil (h.ne_nil hrun) }

/-- Only the stream counts before a production, and whether a budget ran out. -/
theorem Fills.before (h : Fills L s nodes t) (hstream : u.stream = s.stream)
    (hexhausted : u.exhausted = s.exhausted) : Fills L u nodes t := by
  refine ⟨⟨h.wellFormed, hexhausted ▸ h.exhausted, ?_⟩, h.ne_nil⟩
  intro hrun
  have hshape := h.shape hrun
  exact { hshape with
    first := fun flush => hshape.first (hstream ▸ flush)
    idle := fun hnil => absurd hnil (h.ne_nil hrun) }

/-- A single node. -/
theorem Fills.single (node : Node) (wf : t.scanner.WellFormed)
    (exhausted : t.exhausted = false → s.exhausted = false)
    (hconforms : t.exhausted = false → ∀ below ∈ Node.preorderList [node], below.Conforms)
    (htrivia : node.kind.isTrivia = false) : Fills (one node.field node.kind) s [node] t := by
  refine ⟨⟨wf, exhausted, ?_⟩, fun _ => List.cons_ne_nil node []⟩
  intro hrun
  refine ⟨hconforms hrun, Node.word_singleton node, ?_, ?_, nofun⟩
  · rintro - below ⟨⟩
    exact htrivia
  · rintro below ⟨⟩
    exact htrivia

/-- The leaf of a token that is no trivia. -/
theorem Fills.token (field : Option Field) (token : Token) (wf : t.scanner.WellFormed)
    (exhausted : t.exhausted = false → s.exhausted = false)
    (htrivia : token.kind.isTrivia = false) :
    Fills (one field (.ofToken token.kind)) s [.ofToken field token] t := by
  refine Fills.single (.ofToken field token) wf exhausted ?_ ?_
  · intro _ below hmem
    rw [List.mem_singleton.1 hmem]
    exact Node.conforms_ofToken field token
  · exact (Node.isTrivia_ofToken token.kind).trans htrivia

end Siblings

/-! ## Trivia -/

/-- The trivia in front of the next significant token has been taken. -/
structure Passed (s : State) (before : Forest) (t : State) : Prop where
  wellFormed : t.scanner.WellFormed
  exhausted : t.exhausted = s.exhausted
  flush : t.stream.Flush
  nth : ∀ n, t.stream.nth n = s.stream.nth n
  idle : s.stream.Flush → before = []
  conforms : ∀ node ∈ Node.preorderList before, node.Conforms
  word : Node.word before = []

section Passed

variable {L : Language Part} {s t u : State} {before nodes : Forest}

theorem Passed.front (h : Passed s before t) : t.front = s.front := by
  unfold State.front
  rw [h.nth]

theorem preorderList_ofTokens (tokens : List Token) :
    Node.preorderList (tokens.map (.ofToken none)) = tokens.map (.ofToken none) := by
  induction tokens with
  | nil => rfl
  | cons token rest ih =>
    rw [List.map_cons, Node.preorderList_cons, ih]
    rfl

theorem trivia_passed (wf : s.scanner.WellFormed) : Ensures s trivia (Passed s) := by
  obtain ⟨hrun, htrivia, hflush⟩ := Stream.takeTrivia_spec wf
  unfold Ensures
  rw [trivia_eq]
  refine ⟨(hrun.wellFormed wf).1, rfl, hflush, Stream.nth_flushed wf, ?_, ?_, ?_⟩
  · intro flush
    rw [Stream.takeTrivia_of_flush flush]
    rfl
  · intro node hmem
    dsimp only at hmem
    rw [preorderList_ofTokens] at hmem
    obtain ⟨token, -, rfl⟩ := List.mem_map.1 hmem
    exact Node.conforms_ofToken none token
  · apply Node.word_eq_nil
    intro node hmem
    obtain ⟨token, htoken, rfl⟩ := List.mem_map.1 hmem
    exact ⟨rfl, Node.isCounted_of_isTrivia (htrivia token htoken)⟩

/-- Trivia in front of a node stays outside it. -/
theorem Passed.append (passed : Passed s before t) (h : Fills L t nodes u) :
    Fills L s (before ++ nodes) u := by
  refine ⟨⟨h.wellFormed, passed.exhausted ▸ h.exhausted, ?_⟩, ?_⟩
  · intro hrun
    have hshape := h.shape hrun
    have hne := h.ne_nil hrun
    constructor
    · intro node hmem
      rw [Node.preorderList_append] at hmem
      rcases List.mem_append.1 hmem with hmem | hmem
      · exact passed.conforms node hmem
      · exact hshape.conforms node hmem
    · rw [Node.word_append, passed.word, List.nil_append]
      exact hshape.word
    · intro flush node hmem
      rw [passed.idle flush] at hmem
      exact hshape.first passed.flush node hmem
    · intro node hmem
      rw [List.getLast?_append_of_ne_nil _ hne] at hmem
      exact hshape.last node hmem
    · intro hnil
      exact absurd (List.append_eq_nil_iff.1 hnil).2 hne
  · intro hrun
    exact List.append_ne_nil_of_right_ne_nil _ (h.ne_nil hrun)

end Passed

/-! ## Tokens -/

/-- A token has been taken: the next look sees what a look behind it saw. -/
structure Taken (field : Option Field) (s : State) (nodes : Forest) (t : State) : Prop
    extends Fills (one field (.ofToken s.front)) s nodes t where
  nth : ∀ n, t.stream.nth n = s.stream.nth (n + 1)

section Tokens

variable {s t : State} {nodes : Forest}

theorem Taken.front {field : Option Field} (h : Taken field s nodes t) :
    t.front = (s.stream.nth 1).kind := by
  unfold State.front
  rw [h.nth]

theorem bumpAs_fills (wf : s.scanner.WellFormed) (hfront : s.front ≠ .endOfInput)
    (field : Option Field) (kind : Option Token.Kind)
    (hkind : (kind.getD s.front).isTrivia = false) :
    Ensures s (bumpAs field kind) fun nodes t =>
      Fills (one field (.ofToken (kind.getD s.front))) s nodes t ∧
        ∀ n, t.stream.nth n = s.stream.nth (n + 1) := by
  have passed : Passed s _ s.flushed := trivia_passed wf
  have hstep : s.flushed.step.1.kind = s.front := by
    rw [← front_of_flush passed.flush, passed.front]
  unfold Ensures
  rw [bumpAs_eq field kind s hfront, hstep]
  refine ⟨passed.append ?_, ?_⟩
  · exact Fills.token field { s.flushed.step.1 with kind := kind.getD s.front }
      (passed.wellFormed.next s.flushed.stream.mode) id hkind
  · intro n
    rw [nth_take passed.flush (hstep ▸ hfront), passed.nth]

/-- The next significant token is no trivia. -/
theorem isTrivia_front (wf : s.scanner.WellFormed) : s.front.isTrivia = false := by
  have hflush : s.stream.isTrivia s.front = false := (Stream.takeTrivia_spec wf).2.2
  exact (Bool.or_eq_false_iff.1 hflush).1

theorem bump_taken (wf : s.scanner.WellFormed) (hfront : s.front ≠ .endOfInput)
    (field : Option Field) : Ensures s (bump field) (Taken field s) := by
  apply (bumpAs_fills wf hfront field none (isTrivia_front wf)).mono
  rintro nodes t ⟨hfills, hnth⟩
  exact ⟨hfills, hnth⟩

/-- A token that is not counted. -/
theorem bump_fills (wf : s.scanner.WellFormed) {kind : Token.Kind} (hfront : s.front = kind)
    (hne : kind ≠ .endOfInput) (hcounted : (Node.Kind.ofToken kind).isCounted = false)
    (field : Option Field) : Ensures s (bump field) (Fills (labelled field) s) := by
  subst hfront
  apply (bump_taken wf hne field).mono
  intro nodes t taken
  exact taken.mono (Node.one_le_labelled hcounted field)

theorem nil_of_end {field : Option Field} {kind : Option Token.Kind} (wf : s.scanner.WellFormed)
    (hfront : s.front = .endOfInput) : Ensures s (bumpAs field kind) (Shaped 1 s) := by
  unfold Ensures
  rw [bumpAs_end hfront]
  exact .nil wf

/-- Any token, or nothing at the end of the input. -/
theorem bump_shaped (wf : s.scanner.WellFormed) (field : Option Field) :
    Ensures s (bump field) (Shaped (atMost field) s) := by
  by_cases hfront : s.front = .endOfInput
  · apply (nil_of_end wf hfront).mono
    intro nodes t h
    exact h.mono (by rintro w ⟨⟩; exact .inl rfl)
  · apply (bump_taken wf hfront field).mono
    intro nodes t taken
    exact taken.toShaped.mono (Node.one_le_atMost field _)

theorem bumpKeyword_fills (wf : s.scanner.WellFormed) (hfront : s.front ≠ .endOfInput)
    (word : Keyword) : Ensures s (bumpKeyword word) (Fills 1 s) := by
  apply (bumpAs_fills wf hfront none (some (.keyword word)) rfl).mono
  rintro nodes t ⟨hfills, -⟩
  exact hfills.mono (Node.one_eq_one rfl).le

theorem bumpKeyword_shaped (wf : s.scanner.WellFormed) (word : Keyword) :
    Ensures s (bumpKeyword word) (Shaped 1 s) := by
  by_cases hfront : s.front = .endOfInput
  · exact nil_of_end wf hfront
  · exact (bumpKeyword_fills wf hfront word).mono fun _ _ h => h.toShaped

theorem bumpIf_shaped (wf : s.scanner.WellFormed) (kind : Token.Kind) (hne : kind ≠ .endOfInput)
    (hcounted : (Node.Kind.ofToken kind).isCounted = false) :
    Ensures s (bumpIf kind) fun nodes t =>
      Shaped 1 s nodes t ∧ (s.front = kind → Fills 1 s nodes t) ∧ (s.front ≠ kind → t = s) := by
  rw [bumpIf]
  apply Ensures.isAt
  · intro hfront
    apply (bump_fills wf hfront hne hcounted none).mono
    intro nodes t h
    exact ⟨h.toShaped, fun _ => h, fun hnot => absurd hfront hnot⟩
  · intro hfront
    exact .pure ⟨.nil wf, fun hat => absurd hat hfront, fun _ => rfl⟩

theorem missing_fills (wf : s.scanner.WellFormed) (field : Option Field) (expected : Expected) :
    Ensures s (missing field expected) (Fills (labelled field) s) := by
  have hsingle : Fills (one field .missing) s [.leaf field .missing (.empty s.stream.offset)]
      (s.withReport (.missing expected) (.empty s.stream.offset)) := by
    refine Fills.single (.leaf field .missing _) wf id ?_ rfl
    intro _ below hmem
    rw [List.mem_singleton.1 hmem]
    exact Node.conforms_missing field _
  exact hsingle.mono (Node.one_le_labelled rfl field)

theorem expectMark_fills (wf : s.scanner.WellFormed) {sign : Mark}
    (hcounted : (Node.Kind.token (.mark sign)).isCounted = false) :
    Ensures s (expectMark sign) (Fills 1 s) := by
  rw [expectMark]
  apply Ensures.isAtMark
  · intro hfront
    exact bump_fills wf hfront nofun hcounted none
  · intro _
    exact missing_fills wf none _

theorem expectIdentifier_fills (wf : s.scanner.WellFormed) (field : Field) (expected : Expected) :
    Ensures s (expectIdentifier field expected) (Fills (labelled (some field)) s) := by
  rw [expectIdentifier]
  apply Ensures.isAt
  · intro hfront
    exact bump_fills wf hfront nofun rfl _
  · intro _
    exact missing_fills wf _ _

theorem openBracket_fills (wf : s.scanner.WellFormed) {sign : Mark} (hfront : s.front = .mark sign)
    (hcounted : (Node.Kind.token (.mark sign)).isCounted = false) :
    Ensures s openBracket (Fills 1 s) := by
  rw [openBracket]
  apply Ensures.bind (bump_fills wf hfront nofun hcounted none)
  intro nodes t h
  exact h.change rfl rfl

theorem closeBracket_fills (wf : s.scanner.WellFormed) {sign : Mark}
    (hcounted : (Node.Kind.token (.mark sign)).isCounted = false) :
    Ensures s (closeBracket sign) (Fills 1 s) := by
  rw [closeBracket]
  apply Ensures.bind (expectMark_fills wf hcounted)
  intro nodes t h
  exact h.change rfl rfl

end Tokens

/-! ## Nodes -/

section Nodes

variable {L : Language Part} {s t : State} {field : Option Field} {kind : Node.Kind}
  {children : Forest} {body : Parse Forest}

/-- A node around siblings behind which no trivia waits. -/
theorem Fills.node (h : Fills L s children t) (flush : s.stream.Flush)
    (hregular : t.exhausted = false → Node.word children ∈ L → ∀ offset,
      (Node.branch field kind children offset).Regular)
    (htrivia : kind.isTrivia = false) (offset : Nat) :
    Fills (one field kind) s [.branch field kind children offset] t := by
  refine Fills.single (.branch field kind children offset) h.wellFormed h.exhausted ?_ htrivia
  intro hrun below hmem
  have hshape := h.shape hrun
  rw [Node.preorderList_branch] at hmem
  rcases List.mem_cons.1 hmem with rfl | hmem
  · exact {
      hregular hrun hshape.word offset with
      leaf := fun hnil => absurd hnil (h.ne_nil hrun)
      first := hshape.first flush
      last := hshape.last }
  · exact hshape.conforms below hmem

theorem branch_fills (wf : s.scanner.WellFormed) (htrivia : kind.isTrivia = false)
    (admits : kind.Admits L)
    (hbody : ∀ before t, Passed s before t → Ensures t body (Fills L t)) :
    Ensures s (branch field kind body) (Fills (one field kind) s) := by
  rw [branch]
  apply Ensures.bind (trivia_passed wf)
  intro before t passed
  apply Ensures.bind (hbody before t passed)
  intro children u h
  exact passed.append (h.node passed.flush (fun _ hword => admits.regular hword field) htrivia _)

/-- A node that is not counted leaves its field, if it has one. -/
theorem branch_labelled (wf : s.scanner.WellFormed) (htrivia : kind.isTrivia = false)
    (hcounted : kind.isCounted = false) (admits : kind.Admits L)
    (hbody : ∀ before t, Passed s before t → Ensures t body (Fills L t)) :
    Ensures s (branch field kind body) (Fills (labelled field) s) :=
  (branch_fills wf htrivia admits hbody).mono fun _ _ h =>
    h.mono (Node.one_le_labelled hcounted field)

/-- A node around what a production returns and nodes that were made before it. -/
theorem enclose_fills {r : State} {adopted : Forest} (flush : r.stream.Flush)
    (hadopted : Shaped 1 r adopted s) (htrivia : kind.isTrivia = false)
    (hcounted : kind.isCounted = false) (admits : kind.Admits L)
    (hbody : Ensures s body (Fills L s)) : Ensures s (enclose kind adopted body) (Fills 1 r) := by
  rw [enclose]
  apply Ensures.bind hbody
  intro children t h
  have hall : Fills L r (adopted ++ children) t := hadopted.one_append_fills h
  exact (hall.node flush (fun _ hword => admits.regular hword none) htrivia _).mono
    (Node.one_eq_one hcounted).le

/-- An error node may be empty: then it marks a place. -/
theorem errorBranch_fills (wf : s.scanner.WellFormed) {cause : Cause}
    (hbody : ∀ before t, Passed s before t → Ensures t body (Shaped bare t)) :
    Ensures s (errorBranch field cause body) (Fills (labelled field) s) := by
  rw [errorBranch]
  apply Ensures.bind (trivia_passed wf)
  intro before t passed
  apply Ensures.bind (hbody before t passed)
  intro children u h
  have hnode : Fills (one field .error) t [.branch field .error children u.stream.offset] u := by
    refine Fills.single (.branch field .error children _) h.wellFormed h.exhausted ?_ rfl
    intro hrun below hmem
    have hshape := h.shape hrun
    rw [Node.preorderList_branch] at hmem
    rcases List.mem_cons.1 hmem with rfl | hmem
    · refine ⟨⟨Node.sparse_of_bare hshape.word, trivial, nofun⟩, ?_, hshape.first passed.flush,
        hshape.last⟩
      rintro (hnil : children = [])
      subst hnil
      exact .inr ⟨.inr rfl, rfl⟩
    · exact hshape.conforms below hmem
  exact passed.append ((hnode.mono (Node.one_le_labelled rfl field)).change rfl rfl)

/-- The number of expressions around a production has no part in what it returns. -/
theorem Fills.surface (h : Fills L s children t) (count : Nat) :
    Ensures t (do
      surface count
      return children) (Fills L s) :=
  h.change rfl rfl

theorem deeper_fills (hbody : ∀ u : State, u.scanner = s.scanner → Ensures u body (Fills L u)) :
    Ensures s (do
      deepen
      let nodes ← body
      surface 1
      return nodes) (Fills L s) := by
  apply Ensures.modify
  apply Ensures.bind (hbody { s with depth := s.depth + 1 } rfl)
  intro nodes t h
  have hbefore : Fills L s nodes t := h.before rfl rfl
  exact hbefore.surface 1

end Nodes

/-! ## Loops -/

section Loops

variable {σ : Type} {c : Prop} {K L : Language Part} {M : σ → Language Part} {memory next : σ}
  {s t : State} {nodes : Forest} {step : σ → Parse (Forest × Option σ)}
  {starts : σ → State → Prop}

/-- One step of a loop, where `M` has the words that the loop makes from a memory on. If the
condition holds, the step makes a node. -/
structure Turns (c : Prop) (M : σ → Language Part) (memory : σ) (s : State)
    (result : Forest × Option σ) (t : State) : Prop where
  shaped : ∃ K, Shaped K s result.1 t ∧ K * (result.2.elim 1 M) ≤ M memory
  fills : c → t.exhausted = false → result.1 ≠ []

theorem Turns.done (h : Shaped (M memory) s nodes t) (hc : ¬c) :
    Turns c M memory s (nodes, none) t :=
  ⟨⟨M memory, h, (mul_one _).le⟩, fun holds => absurd holds hc⟩

theorem Turns.done_fills (h : Fills (M memory) s nodes t) : Turns c M memory s (nodes, none) t :=
  ⟨⟨M memory, h.toShaped, (mul_one _).le⟩, fun _ => h.ne_nil⟩

theorem Turns.again (h : Shaped K s nodes t) (hle : K * M next ≤ M memory) (hc : ¬c) :
    Turns c M memory s (nodes, some next) t :=
  ⟨⟨K, h, hle⟩, fun holds => absurd holds hc⟩

theorem Turns.again_fills (h : Fills K s nodes t) (hle : K * M next ≤ M memory) :
    Turns c M memory s (nodes, some next) t :=
  ⟨⟨K, h.toShaped, hle⟩, fun _ => h.ne_nil⟩

/-- A loop makes the words of its memory. -/
theorem loop_shaped
    (hstep : ∀ memory s, s.scanner.WellFormed →
      Ensures s (step memory) (Turns (starts memory s) M memory s))
    (fuel : Nat) (memory : σ) (wf : s.scanner.WellFormed) :
    Ensures s (loop step fuel memory) (Shaped (M memory) s) := by
  induction fuel generalizing memory s with
  | zero => exact ⟨wf, nofun, nofun⟩
  | succ fuel ih =>
    rw [loop]
    apply Ensures.bind (hstep memory s wf)
    rintro ⟨nodes, next⟩ t ⟨⟨K, hshaped, hle⟩, -⟩
    cases next with
    | none => exact hshaped.mono ((mul_one K).symm.le.trans hle)
    | some next =>
      apply Ensures.bind (ih next hshaped.wellFormed)
      intro more u hmore
      exact (hshaped.append hmore).mono hle

/-- A loop whose first step makes a node. -/
theorem loop_fills
    (hstep : ∀ memory s, s.scanner.WellFormed →
      Ensures s (step memory) (Turns (starts memory s) M memory s))
    (fuel : Nat) (wf : s.scanner.WellFormed) (hfirst : starts memory s) :
    Ensures s (loop step fuel memory) (Fills (M memory) s) := by
  cases fuel with
  | zero => exact ⟨⟨wf, nofun, nofun⟩, nofun⟩
  | succ fuel =>
    rw [loop]
    apply Ensures.bind (hstep memory s wf)
    rintro ⟨nodes, next⟩ t ⟨⟨K, hshaped, hle⟩, hne⟩
    have hfills : Fills K s nodes t := ⟨hshaped, hne hfirst⟩
    cases next with
    | none => exact hfills.mono ((mul_one K).symm.le.trans hle)
    | some next =>
      apply Ensures.bind (loop_shaped hstep fuel next hshaped.wellFormed)
      intro more u hmore
      exact (hfills.append hmore).mono hle

end Loops

/-- The rules make an expression wherever one is asked for. -/
def Rules.Shapely (rules : Rules) : Prop :=
  ∀ field s, s.scanner.WellFormed →
    Ensures s (rules.expression field) (Fills (labelled field) s)

end Grammar

end Justfile
