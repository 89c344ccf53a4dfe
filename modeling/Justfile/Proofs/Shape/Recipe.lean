import Justfile.Proofs.Shape.Expression

/-!
# Shapes of recipes

The words of headers and bodies. Among parameters the loop remembers whether a variadic one has been
read: those behind it are wrapped, and leave nothing in the word (`parameterWords`). A recipe ends with
its body, behind which there is no further child.
-/

set_option autoImplicit false

namespace Justfile

namespace Node

/-! ## Languages of recipes -/

/-- Parameters; behind a variadic one there is no other. -/
def parameterWords (afterVariadic : Bool) : Language Part :=
  {w | (∀ part ∈ w, part.1 = none ∧ (afterVariadic = true → part.2.isParameter = false)) ∧
    w.Pairwise fun first second => first.2.MayPrecede second.2}

theorem one_none {kind : Kind} (h : kind.isCounted = true) : one none kind = {[(none, kind)]} := by
  unfold one
  rw [List.filter_cons_of_pos (by simp [Part.isCounted, h]), List.filter_nil]

theorem one_le_parameterWords (afterVariadic : Bool) : 1 ≤ parameterWords afterVariadic := by
  rintro w rfl
  exact ⟨List.forall_mem_nil _, .nil⟩

/-- A parameter goes in front of others, and a variadic one in front of those that are wrapped. -/
theorem parameter_mul_parameterWords (isVariadic : Bool) :
    one none (if isVariadic then .variadicParameter else .parameter) * parameterWords isVariadic ≤
      parameterWords false := by
  rw [one_none (by cases isVariadic <;> rfl)]
  rintro w ⟨_, rfl, more, ⟨hfields, hpairs⟩, rfl⟩
  constructor
  · intro part hmem
    refine ⟨?_, nofun⟩
    rcases List.mem_cons.1 hmem with rfl | hmem
    · rfl
    · exact (hfields part hmem).1
  · apply List.Pairwise.cons _ hpairs
    intro part hmem hvariadic
    cases isVariadic with
    | false => cases hvariadic
    | true => exact (hfields part hmem).2 rfl

/-- Behind a variadic parameter there are only errors. -/
theorem admits_parameters : Kind.parameters.Admits (parameterWords false) := by
  refine ⟨nofun, ?_⟩
  rintro w ⟨hfields, hpairs⟩
  exact ⟨sparse_of_bare fun part hmem => (hfields part hmem).1, hpairs⟩

/-- A parameter has a name, and a default value or none. -/
theorem admits_parameter :
    Kind.parameter.Admits (labelled (some .name) * (1 + labelled (some .defaultValue))) := by
  refine ⟨nofun, ?_⟩
  rintro w ⟨_, ⟨name, -, rfl⟩, _, rfl | ⟨default, -, rfl⟩, rfl⟩ <;>
    simp [Sparse, Schema, Once, Part.hasField, Field.isShared]

/-- A variadic parameter has a sign and a parameter. -/
theorem admits_variadicParameter :
    Kind.variadicParameter.Admits (atMost (some .kleene) * one none .parameter) := by
  refine ⟨nofun, ?_⟩
  rw [one_none rfl]
  rintro w ⟨_, rfl | ⟨sign, rfl⟩, _, rfl, rfl⟩ <;> simp [Sparse, Schema, Field.isShared]

/-- One field alone, in a node whose kind asks for nothing else. -/
theorem admits_labelled {kind : Kind} (field : Field) (hkind : kind ≠ .recipe)
    (hschema : ∀ side, Schema kind [(some field, side)]) :
    kind.Admits (labelled (some field)) := by
  refine ⟨hkind, ?_⟩
  rintro w ⟨side, -, rfl⟩
  refine ⟨?_, hschema side⟩
  unfold Sparse
  exact (List.nodup_singleton field).filter _

theorem admits_optional {kind : Kind} (field : Field) (hkind : kind ≠ .recipe)
    (hnone : Schema kind []) (hschema : ∀ side, Schema kind [(some field, side)]) :
    kind.Admits (1 + labelled (some field)) := by
  refine ⟨hkind, ?_⟩
  rintro w (rfl | hword)
  · exact ⟨sparse_nil, hnone⟩
  · exact (admits_labelled field hkind hschema).2 w hword

/-- A header, and a body behind it. -/
def recipeWords : Language Part := one none .recipeHeader * (1 + one (some .body) .recipeBody)

theorem mem_recipeWords {w : List Part} (h : w ∈ recipeWords) :
    w = [(none, .recipeHeader)] ∨ w = [(none, .recipeHeader), (some .body, .recipeBody)] := by
  unfold recipeWords at h
  rw [one_none rfl, one_some] at h
  rcases h with ⟨_, rfl, _, rfl | rfl, rfl⟩
  · exact .inl rfl
  · exact .inr rfl

theorem mem_word {nodes : Forest} {node : Node} (hmem : node ∈ nodes)
    (hcounted : Part.isCounted node.part = true) : node.part ∈ word nodes :=
  List.mem_filter.2 ⟨List.mem_map_of_mem hmem, hcounted⟩

/-- If a body is among the siblings, then one is the last of them. -/
def EndsWithBody (nodes : Forest) : Prop :=
  (some .body, .recipeBody) ∈ word nodes →
    nodes.getLast?.map part = some (some .body, .recipeBody)

/-- A recipe is regular if its body, where it has one, is its last child. -/
theorem regular_recipe {children : Forest} (hword : word children ∈ recipeWords)
    (hlast : EndsWithBody children) (field : Option Field) (offset : Nat) :
    (branch field .recipe children offset).Regular := by
  have hwords := mem_recipeWords hword
  constructor
  · change Sparse (word children)
    rcases hwords with heq | heq <;> rw [heq] <;> simp [Sparse, Field.isShared]
  · change (word children).countP _ = 1
    rcases hwords with heq | heq <;> rw [heq] <;> rfl
  · rintro - child (hmem : child ∈ children) hbody
    have hcounted : Part.isCounted child.part = true := by
      rcases hbody with hfield | hkind
      · simp [Part.isCounted, part, hfield]
      · simp [Part.isCounted, part, hkind, Kind.isCounted]
    have hpart : child.part ≠ (none, .recipeHeader) := by
      intro heq
      rcases hbody with hfield | hkind
      · rw [show child.field = none from congrArg Prod.fst heq] at hfield
        cases hfield
      · rw [show child.kind = .recipeHeader from congrArg Prod.snd heq] at hkind
        cases hkind
    have hchild := mem_word hmem hcounted
    rcases hwords with heq | heq
    · rw [heq, List.mem_singleton] at hchild
      exact absurd hchild hpart
    · -- What stands before the last child has the part of the header only.
      obtain ⟨last, hsome, hlastpart⟩ := Option.map_eq_some_iff.1 (hlast (by simp [heq]))
      obtain ⟨front, rfl⟩ := List.getLast?_eq_some_iff.1 hsome
      rcases List.mem_append.1 hmem with hfront | hlast
      · have hone : word [last] = [last.part] := by
          rw [word_cons, hlastpart]
          rfl
        have hsplit : word front ++ [last.part] = [(none, .recipeHeader)] ++ [last.part] := by
          rw [← hone, ← word_append, heq, hone, hlastpart]
          rfl
        have hheader := mem_word hfront hcounted
        rw [List.append_cancel_right hsplit, List.mem_singleton] at hheader
        exact absurd hheader hpart
      · rw [List.mem_singleton.1 hlast]
        exact hsome

end Node

namespace Grammar

open Justfile.Node (labelled one atMost parameterWords)

variable {rules : Rules} {s : State}

/-! ## Shebang lines and paths -/

theorem shebangStep_turns (wf : s.scanner.WellFormed) :
    Ensures s (shebangStep ()) (Turns False (fun _ => 1) () s) := by
  have hagain : ∀ kind, s.front = kind → kind ≠ .endOfInput →
      (Node.Kind.ofToken kind).isCounted = false →
      Ensures s (bump >>= again) (Turns False (fun _ => 1) () s) := by
    intro kind hfront hne hcounted
    apply Ensures.bind (bump_fills wf hfront hne hcounted none)
    intro nodes t h
    exact .again_fills h (one_mul 1).le
  rw [shebangStep]
  apply Ensures.peek
  split
  · next hfront => exact hagain _ hfront nofun rfl
  · next hfront => exact hagain _ hfront nofun rfl
  · next hfront => exact hagain _ hfront nofun rfl
  · next hfront => exact hagain _ hfront nofun rfl
  · next hfront => exact hagain _ hfront nofun rfl
  · exact .done (.nil wf) not_false

/-- A shebang is one node with the field that it is read for. -/
theorem shebang_fills (wf : s.scanner.WellFormed) (hfront : s.front = .shebangStart)
    (field : Option Field) : Ensures s (shebang rules field) (Fills (labelled field) s) := by
  rw [shebang]
  refine branch_labelled wf rfl rfl (Node.admits_one nofun trivial) ?_
  intro before t passed
  apply Ensures.bind (bump_fills passed.wellFormed (passed.front.trans hfront) nofun rfl none)
  intro start u hstart
  apply Ensures.bind (loop_shaped (fun _ _ => shebangStep_turns) _ () hstart.wellFormed)
  intro pieces v hpieces
  exact hstart.append_one hpieces

theorem pathStep_turns (wf : s.scanner.WellFormed) :
    Ensures s (pathStep ()) (Turns False (fun _ => 1) () s) := by
  rw [pathStep]
  apply Ensures.isAtMark
  · intro hfront
    apply Ensures.bind (bump_fills wf hfront nofun rfl none)
    intro sign t hsign
    apply Ensures.isAt
    · intro hname
      apply Ensures.bind (bump_fills hsign.wellFormed hname nofun rfl none)
      intro name u hnamed
      exact .again_fills (hsign.append_one hnamed.toShaped) (one_mul 1).le
    · intro _
      apply Ensures.bind (missing_fills hsign.wellFormed none _)
      intro name u hnamed
      exact .done_fills (hsign.append_one hnamed.toShaped)
  · intro _
    exact .done (.nil wf) not_false

/-- A path of names is one node with its field. -/
theorem namePath_fills (wf : s.scanner.WellFormed) (hfront : s.front = .identifier)
    (field : Field) : Ensures s (namePath rules field) (Fills (labelled (some field)) s) := by
  rw [namePath]
  apply Ensures.peekAt
  split
  · refine branch_labelled wf rfl rfl (Node.admits_one nofun trivial) ?_
    intro before t passed
    apply Ensures.bind (bump_fills passed.wellFormed (passed.front.trans hfront) nofun rfl none)
    intro first u hfirst
    apply Ensures.bind (loop_shaped (fun _ _ => pathStep_turns) _ () hfirst.wellFormed)
    intro more v hmore
    exact hfirst.append_one hmore
  · exact bump_fills wf hfront nofun rfl _

/-! ## Parameters -/

/-- A parameter is one node of its kind. -/
theorem parameter_fills (shapely : rules.Shapely) (wf : s.scanner.WellFormed) :
    Ensures s (parameter rules) (Fills (one none .parameter) s) := by
  rw [parameter]
  refine branch_fills wf rfl Node.admits_parameter ?_
  intro before t passed
  apply Ensures.bind (bumpIf_shaped passed.wellFormed (.mark .dollar) nofun rfl)
  rintro sign u ⟨hsign, -⟩
  apply Ensures.bind (expectIdentifier_fills hsign.wellFormed _ _)
  intro name v hname
  have hnamed := hsign.one_append_fills hname
  apply Ensures.isAtMark
  · intro hfront
    apply Ensures.bind (bump_fills hname.wellFormed hfront nofun rfl none)
    intro equals w hequals
    apply Ensures.bind (value_fills shapely hequals.wellFormed _)
    intro default x hdefault
    exact ((hnamed.append_one hequals.toShaped).append hdefault.toShaped).mono
      (mul_le_mul_right le_add_self _)
  · intro _
    exact hnamed.mono (by rw [mul_add, mul_one]; exact le_self_add)

theorem variadicParameter_fills (shapely : rules.Shapely) (wf : s.scanner.WellFormed) :
    Ensures s (variadicParameter rules) (Fills (one none .variadicParameter) s) := by
  rw [variadicParameter]
  refine branch_fills wf rfl Node.admits_variadicParameter ?_
  intro before t passed
  apply Ensures.bind (bump_shaped passed.wellFormed _)
  intro sign u hsign
  apply Ensures.bind (parameter_fills shapely hsign.wellFormed)
  intro inner v hinner
  exact hsign.append_fills hinner

/-- A parameter behind a variadic one is wrapped in an error. -/
theorem parameterStep_turns (shapely : rules.Shapely) (afterVariadic : Bool)
    (wf : s.scanner.WellFormed) :
    Ensures s (parameterStep rules afterVariadic)
      (Turns (startsParameter s.front ≠ none) parameterWords afterVariadic s) := by
  rw [parameterStep]
  apply Ensures.peek
  split
  · next hnone =>
    exact .done ((Shaped.nil wf).mono (Node.one_le_parameterWords _)) (not_not_intro hnone)
  · next isVariadic hsome =>
    have hinner : ∀ t : State, t.scanner.WellFormed →
        Ensures t (if isVariadic then variadicParameter rules else parameter rules)
          (Fills (one none (if isVariadic then .variadicParameter else .parameter)) t) := by
      intro t wf
      cases isVariadic with
      | true => exact variadicParameter_fills shapely wf
      | false => exact parameter_fills shapely wf
    cases afterVariadic with
    | true =>
      -- A misplaced parameter is wrapped, so that it leaves nothing in the word.
      apply Ensures.bind (P := Fills 1 s)
      · apply errorBranch_fills wf
        intro before t passed
        apply (hinner t passed.wellFormed).mono
        intro nodes u h
        apply h.toShaped.mono
        rw [Node.one_none (by cases isVariadic <;> rfl)]
        rintro w rfl part hmem
        rw [List.mem_singleton.1 hmem]
      · intro nodes t h
        exact .again_fills h (one_mul _).le
    | false =>
      apply Ensures.bind (hinner s wf)
      intro nodes t h
      exact .again_fills h (Node.parameter_mul_parameterWords isVariadic)

theorem parameters_fills (shapely : rules.Shapely) (wf : s.scanner.WellFormed)
    (hfront : startsParameter s.front ≠ none) : Ensures s (parameters rules) (Fills 1 s) := by
  rw [parameters]
  refine branch_labelled wf rfl rfl Node.admits_parameters ?_
  intro before t passed
  exact loop_fills (fun memory _ => parameterStep_turns shapely memory) _ passed.wellFormed
    (passed.front ▸ hfront)

/-! ## Dependencies -/

theorem dependencyArgumentStep_turns (shapely : rules.Shapely) (wf : s.scanner.WellFormed) :
    Ensures s (dependencyArgumentStep rules ()) (Turns False (fun _ => 1) () s) := by
  rw [dependencyArgumentStep]
  apply Ensures.peek
  split
  · apply Ensures.bind (shapely none s wf)
    intro nodes t h
    exact .again_fills h (one_mul 1).le
  · exact .done (.nil wf) not_false

theorem dependencyExpression_fills (shapely : rules.Shapely) (wf : s.scanner.WellFormed)
    (hfront : s.front = .mark .parenL) : Ensures s (dependencyExpression rules) (Fills 1 s) := by
  rw [dependencyExpression]
  refine branch_labelled wf rfl rfl (Node.admits_labelled .name nofun fun _ => trivial) ?_
  intro before t passed
  apply Ensures.bind (openBracket_fills passed.wellFormed (passed.front.trans hfront) rfl)
  intro opened u hopened
  apply Ensures.isAt_join (P := Fills (labelled (some .name)) u)
  · intro hname
    exact namePath_fills hopened.wellFormed hname _
  · intro _
    exact missing_fills hopened.wellFormed _ _
  · intro name v hname
    apply Ensures.bind
      (loop_shaped (fun _ _ => dependencyArgumentStep_turns shapely) _ () hname.wellFormed)
    intro arguments w harguments
    apply Ensures.bind (closeBracket_fills harguments.wellFormed rfl)
    intro closed x hclosed
    exact ((hopened.one_append hname.toShaped).append_one harguments).append_one hclosed.toShaped

/-- A dependency is one node, with parentheses or without. -/
theorem dependency_fills (shapely : rules.Shapely) (wf : s.scanner.WellFormed)
    (hfront : s.front = .identifier ∨ s.front = .mark .parenL) :
    Ensures s (dependency rules) (Fills 1 s) := by
  rw [dependency]
  refine branch_labelled wf rfl rfl (Node.admits_optional .name nofun trivial fun _ => trivial) ?_
  intro before t passed
  apply Ensures.isAtMark
  · intro hparen
    apply (dependencyExpression_fills shapely passed.wellFormed hparen).mono
    intro nodes u h
    exact h.mono le_self_add
  · intro hparen
    have hname : t.front = .identifier := by
      rw [passed.front] at hparen ⊢
      exact hfront.resolve_right hparen
    apply (namePath_fills passed.wellFormed hname _).mono
    intro nodes u h
    exact h.mono le_add_self

/-- What a dependency starts with. -/
def startsDependency : Token.Kind → Bool
  | .identifier | .mark .parenL | .mark .ampAmp => true
  | _ => false

theorem dependencyStep_turns (shapely : rules.Shapely) (wf : s.scanner.WellFormed) :
    Ensures s (dependencyStep rules ())
      (Turns (startsDependency s.front = true) (fun _ => 1) () s) := by
  have hdependency : ∀ {sign : Forest} {t : State}, Shaped 1 s sign t →
      t.front = .identifier ∨ t.front = .mark .parenL →
      Ensures t (dependency rules >>= fun nodes => again (sign ++ nodes))
        (Turns (startsDependency s.front = true) (fun _ => 1) () s) := by
    intro sign t hsign hfront
    apply Ensures.bind (dependency_fills shapely hsign.wellFormed hfront)
    intro nodes u h
    exact .again_fills (hsign.one_append_fills h) (one_mul 1).le
  rw [dependencyStep]
  apply Ensures.isAtMark
  · intro hfront
    apply Ensures.bind (bump_fills wf hfront nofun rfl none)
    intro sign t hsign
    apply Ensures.peek
    split
    · next hname => exact hdependency hsign.toShaped (.inl hname)
    · next hparen => exact hdependency hsign.toShaped (.inr hparen)
    · apply Ensures.bind (missing_fills hsign.wellFormed none _)
      intro nodes u hmissing
      exact .done_fills (hsign.append_one hmissing.toShaped)
  · intro hamp
    have hnone : Shaped 1 s [] s := .nil wf
    apply Ensures.bind (P := fun sign t => sign = [] ∧ t = s) ⟨rfl, rfl⟩
    rintro _ t ⟨rfl, rfl⟩
    apply Ensures.peek
    split
    · next hname => exact hdependency hnone (.inl hname)
    · next hparen => exact hdependency hnone (.inr hparen)
    · next hname hparen =>
      refine .done hnone ?_
      unfold startsDependency
      split <;> simp_all

theorem dependencies_fills (shapely : rules.Shapely) (wf : s.scanner.WellFormed)
    (hfront : startsDependency s.front = true) : Ensures s (dependencies rules) (Fills 1 s) := by
  rw [dependencies]
  refine branch_labelled wf rfl rfl (Node.admits_one nofun trivial) ?_
  intro before t passed
  exact loop_fills (fun _ _ => dependencyStep_turns shapely) _ passed.wellFormed
    (passed.front ▸ hfront)

/-! ## Headers -/

/-- Behind the name of a recipe stand nodes without fields, the colon or a mark for it at least. -/
theorem headerTail_fills (shapely : rules.Shapely) (wf : s.scanner.WellFormed) :
    Ensures s (headerTail rules) (Fills 1 s) := by
  rw [headerTail]
  apply Ensures.isAtMark
  · intro hfront
    apply Ensures.bind (bump_fills wf hfront nofun rfl none)
    intro colon t hcolon
    apply Ensures.bind (P := Shaped 1 t)
    · rw [dependenciesOpt]
      apply Ensures.peek
      have hsome : ∀ kind, t.front = kind → startsDependency kind = true →
          Ensures t (dependencies rules) (Shaped 1 t) := by
        rintro kind rfl hstarts
        exact (dependencies_fills shapely hcolon.wellFormed hstarts).mono fun _ _ h => h.toShaped
      split
      · next hfront => exact hsome _ hfront rfl
      · next hfront => exact hsome _ hfront rfl
      · next hfront => exact hsome _ hfront rfl
      · exact .nil hcolon.wellFormed
    · intro nodes u h
      exact hcolon.append_one h
  · intro _
    exact missing_fills wf none _

/-- A header is one node of its kind. -/
theorem recipeHeader_fills (shapely : rules.Shapely) (wf : s.scanner.WellFormed) :
    Ensures s (recipeHeader rules) (Fills (one none .recipeHeader) s) := by
  rw [recipeHeader]
  refine branch_fills wf rfl (Node.admits_labelled .name nofun fun _ => rfl) ?_
  intro before t passed
  apply Ensures.bind (bumpIf_shaped passed.wellFormed (.mark .atSign) nofun rfl)
  rintro sign u ⟨hsign, -⟩
  apply Ensures.bind (expectIdentifier_fills hsign.wellFormed _ _)
  intro name v hname
  apply Ensures.bind (P := Shaped 1 v)
  · rw [parametersOpt]
    apply Ensures.peek
    split
    · next hsome =>
      have hfront : startsParameter v.front ≠ none := by rw [hsome]; exact nofun
      exact (parameters_fills shapely hname.wellFormed hfront).mono fun _ _ h => h.toShaped
    · exact .nil hname.wellFormed
  · intro inputs w hinputs
    apply Ensures.bind (headerTail_fills shapely hinputs.wellFormed)
    intro tail x htail
    exact ((hsign.one_append_fills hname).append_one hinputs).append_one htail.toShaped

/-! ## Bodies -/

theorem recipeLineStep_turns (shapely : rules.Shapely) (wf : s.scanner.WellFormed) :
    Ensures s (recipeLineStep rules ())
      (Turns (endsLine s.front = false) (fun _ => 1) () s) := by
  have hdone : ∀ kind, s.front = kind → endsLine kind = true →
      Ensures s (done []) (Turns (endsLine s.front = false) (fun (_ : Unit) => 1) () s) := by
    rintro kind rfl hends
    refine .done (.nil wf) ?_
    rw [hends]
    exact nofun
  rw [recipeLineStep]
  apply Ensures.peek
  split
  · next hfront =>
    apply Ensures.bind (bump_fills wf hfront nofun rfl none)
    intro nodes t h
    exact .again_fills h (one_mul 1).le
  · next hfront =>
    apply Ensures.bind (interpolation_fills shapely wf hfront)
    intro nodes t h
    exact .again_fills h (one_mul 1).le
  · next hfront => exact hdone _ hfront rfl
  · next hfront => exact hdone _ hfront rfl
  · next hfront => exact hdone _ hfront rfl
  · apply Ensures.bind (errorToken_fills shapely wf none _)
    intro nodes t h
    exact .again_fills h (one_mul 1).le

/-- A line of a body is one node. -/
theorem recipeLine_fills (shapely : rules.Shapely) (wf : s.scanner.WellFormed)
    (hfront : endsLine s.front = false) : Ensures s (recipeLine rules) (Fills 1 s) := by
  rw [recipeLine]
  refine branch_labelled wf rfl rfl (Node.admits_one nofun trivial) ?_
  intro before t passed
  apply Ensures.bind (bumpIf_shaped passed.wellFormed .linePrefix nofun rfl)
  rintro sign u ⟨hsign, hsigned, hsame⟩
  by_cases hat : t.front = .linePrefix
  · apply Ensures.bind (loop_shaped (fun _ _ => recipeLineStep_turns shapely) _ () hsign.wellFormed)
    intro pieces v hpieces
    exact (hsigned hat).append_one hpieces
  · have hpiece : endsLine u.front = false := by rw [hsame hat, passed.front, hfront]
    apply Ensures.bind
      (loop_fills (fun _ _ => recipeLineStep_turns shapely) _ hsign.wellFormed hpiece)
    intro pieces v hpieces
    exact hsign.one_append_fills hpieces

theorem recipeBodyStep_turns (shapely : rules.Shapely) (wf : s.scanner.WellFormed) :
    Ensures s (recipeBodyStep rules ()) (Turns False (fun _ => 1) () s) := by
  rw [recipeBodyStep]
  apply Ensures.peek
  split
  · next hfront =>
    apply Ensures.bind (bump_fills wf hfront nofun rfl none)
    intro nodes t h
    exact .done_fills h
  · exact .done (.nil wf) not_false
  · next hfront =>
    apply Ensures.bind (bump_fills wf hfront nofun rfl none)
    intro nodes t h
    exact .again_fills h (one_mul 1).le
  · next hdedent hend hnewline =>
    have hfront := endsLine_eq_false hnewline hend hdedent
    apply Ensures.bind (recipeLine_fills shapely wf hfront)
    intro line t hline
    apply Ensures.bind (bumpIf_shaped hline.wellFormed .newline nofun rfl)
    rintro newline u ⟨hnewline, -⟩
    exact .again_fills (hline.append_one hnewline) (one_mul 1).le

theorem bodyShebang_shaped (wf : s.scanner.WellFormed) :
    Ensures s (bodyShebang rules) (Shaped (1 + labelled (some .shebang)) s) := by
  rw [bodyShebang]
  apply Ensures.isAt
  · intro hfront
    apply Ensures.bind (shebang_fills wf hfront _)
    intro line t hline
    apply Ensures.bind (bumpIf_shaped hline.wellFormed .newline nofun rfl)
    rintro newline u ⟨hnewline, -⟩
    exact (hline.append_one hnewline).toShaped.mono le_add_self
  · intro _
    exact (Shaped.nil wf).mono le_self_add

/-- A body is one node with its field. -/
theorem recipeBody_fills (shapely : rules.Shapely) (wf : s.scanner.WellFormed)
    (hfront : s.front = .indent) :
    Ensures s (recipeBody rules) (Fills (one (some .body) .recipeBody) s) := by
  rw [recipeBody]
  refine branch_fills wf rfl (Node.admits_optional .shebang nofun trivial fun _ => trivial) ?_
  intro before t passed
  apply Ensures.bind (bump_fills passed.wellFormed (passed.front.trans hfront) nofun rfl none)
  intro opened u hopened
  apply Ensures.setMode
  have hentered : Fills 1 t opened (u.inMode .body) := hopened.change rfl rfl
  apply Ensures.bind (bodyShebang_shaped hentered.wellFormed)
  intro first v hfirst
  apply Ensures.bind (loop_shaped (fun _ _ => recipeBodyStep_turns shapely) _ () hfirst.wellFormed)
  intro lines w hlines
  exact (hentered.one_append hfirst).append_one hlines

/-- A node around siblings is the last of what is returned. -/
theorem branch_last (s : State) (field : Option Field) (kind : Node.Kind) (body : Parse Forest) :
    Ensures s (branch field kind body) fun nodes _ =>
      nodes.getLast?.map Node.part = some (field, kind) := by
  rw [branch]
  apply Ensures.bind (P := fun _ _ => True) trivial
  intro before t _
  apply Ensures.bind (P := fun _ _ => True) trivial
  intro children u _
  apply Ensures.offset
  change Option.map Node.part (before ++ [_]).getLast? = _
  rw [List.getLast?_append_of_ne_nil _ (List.cons_ne_nil _ _)]
  rfl

/-! ## Recipes -/

/-- The body of a recipe, if it has one, behind its header. -/
theorem bodyOpt_fills (shapely : rules.Shapely) {r : State} {adopted header : Forest}
    (hheader : Fills (one none .recipeHeader) r (adopted ++ header) s) :
    Ensures s (do
      setMode .bodyStart
      let body ← if ← isAt .indent then recipeBody rules else pure []
      setMode .normal
      return header ++ body) fun children t =>
        Fills Node.recipeWords r (adopted ++ children) t ∧
          (t.exhausted = false → Node.EndsWithBody (adopted ++ children)) := by
  apply Ensures.setMode
  have hlook : Fills (one none .recipeHeader) r (adopted ++ header) (s.inMode .bodyStart) :=
    hheader.change rfl rfl
  apply Ensures.isAt_join (P := fun body t =>
    Shaped (1 + one (some .body) .recipeBody) (s.inMode .bodyStart) body t ∧
      (body = [] ∨ body.getLast?.map Node.part = some (some .body, .recipeBody)))
  · intro hfront
    refine ⟨?_, .inr (branch_last _ _ _ _)⟩
    exact (recipeBody_fills shapely hlook.wellFormed hfront).toShaped.mono le_add_self
  · intro _
    exact ⟨(Shaped.nil hlook.wellFormed).mono le_self_add, .inl rfl⟩
  · rintro body t ⟨hbody, hlast⟩
    have hall := hlook.append hbody
    rw [List.append_assoc] at hall
    have hleft : Fills Node.recipeWords r (adopted ++ (header ++ body)) (t.inMode .normal) :=
      hall.change rfl rfl
    refine ⟨hleft, ?_⟩
    intro hrun
    change Node.EndsWithBody (adopted ++ (header ++ body))
    intro hmem
    rw [← List.append_assoc] at hmem ⊢
    rcases hlast with rfl | hlast
    · have hword := ((hlook.shape (hbody.exhausted hrun))).word
      rw [Node.one_none rfl] at hword
      rw [List.append_nil, show Node.word (adopted ++ header) = _ from hword,
        List.mem_singleton] at hmem
      cases hmem
    · obtain ⟨last, hsome, hpart⟩ := Option.map_eq_some_iff.1 hlast
      rw [List.getLast?_append, hsome, Option.some_or, Option.map_some, hpart]

/-- A recipe is one node around the attributes in front of it, with a header and a body or none. -/
theorem recipe_fills (shapely : rules.Shapely) (wf : s.scanner.WellFormed) {r : State}
    (flush : r.stream.Flush) {adopted : Forest} (hadopted : Shaped 1 r adopted s) :
    Ensures s (recipe rules adopted) (Fills 1 r) := by
  rw [recipe, enclose]
  apply Ensures.bind (P := fun children t => Fills Node.recipeWords r (adopted ++ children) t ∧
    (t.exhausted = false → Node.EndsWithBody (adopted ++ children)))
  · apply Ensures.bind (recipeHeader_fills shapely wf)
    intro header t hheader
    apply Ensures.bind (lineEnd_shaped shapely hheader.wellFormed)
    intro ending u hending
    exact bodyOpt_fills shapely (hadopted.one_append_fills (hheader.append_one hending))
  · rintro children t ⟨hall, hlast⟩
    exact (hall.node flush (fun hrun hword => Node.regular_recipe hword (hlast hrun) none) rfl
      _).mono (Node.one_eq_one rfl).le

end Grammar

end Justfile
