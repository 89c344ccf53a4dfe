import Justfile.Proofs.Tree.Height

/-!
# Trees without a bound

Beyond the limit on nested expressions the rest of a construct is wrapped in an error node, but
literals in it are taken whole, with their interpolations, and these with their expressions. So
format strings that are opened one in another (`nested`) give higher and higher trees, whatever the
limit is (`Stands.expressionAt`).

Heights are bounded from below along the production that reads the innermost expression; what the
other productions do after it does not matter, and before it they take a single token each.
-/

set_option autoImplicit false

namespace Justfile

/-- Format strings, each opened in an interpolation of the one before. -/
def nested : Nat → Text
  | 0 => []
  | count + 1 => 'f' :: '\'' :: '{' :: '{' :: nested count

/-- The dialect of these strings. -/
def nestedDialect : Dialect := ⟨.format, .single, false⟩

namespace Scanner

section Nested

variable {s : Scanner} {count : Nat}

theorem Ready.next_normal (ready : s.Ready) : s.next .normal = s.normal := by
  have hbase : ¬s.offset < s.base := Nat.not_lt.2 ready.base_le
  simp [next, ready.queued, hbase, ready.pendingDedents, ready.pendingFault]

theorem Ready.next_stringContent (ready : s.Ready) (dialect : Dialect) :
    s.next (.stringContent dialect) = s.stringContent dialect := by
  have hbase : ¬s.offset < s.base := Nat.not_lt.2 ready.base_le
  simp [next, ready.queued, hbase, ready.pendingDedents, ready.pendingFault]

/-- In front of an expression the next string opens. -/
theorem Ready.next_nested (ready : s.Ready) (hrest : s.rest = nested (count + 1)) :
    s.next .normal = s.openLiteral (.stringOpen nestedDialect) 2 := by
  have hshebang : (s.offset == s.base &&
      ['#', '!'].isPrefixOf ('f' :: '\'' :: '{' :: '{' :: nested count)) = false :=
    Bool.and_eq_false_imp.2 fun _ => rfl
  have hnewline : Measure.newline? ('f' :: '\'' :: '{' :: '{' :: nested count) = none := rfl
  have hdialect : Dialect.detect? ('f' :: '\'' :: '{' :: '{' :: nested count) =
      some nestedDialect := rfl
  rw [ready.next_normal]
  simp only [normal, hrest, nested, hshebang, hnewline, normalToken, hdialect]
  rfl

/-- In the string an interpolation opens. -/
theorem Ready.next_braces (ready : s.Ready) (hrest : s.rest = '{' :: '{' :: nested count) :
    s.next (.stringContent nestedDialect) = s.emit .interpolationOpen 2 := by
  have hclosing : nestedDialect.closing.isPrefixOf ('{' :: '{' :: nested count) = false := rfl
  have hopens : Measure.opensInterpolation ('{' :: '{' :: nested count) = true := by
    cases count <;> rfl
  rw [ready.next_stringContent]
  unfold stringContent
  rw [hrest, hclosing, hopens]
  rfl

end Nested

end Scanner

namespace Grammar

/-! ## States in front of nested strings -/

/-- Nothing is decided ahead, and the text is all that is left. -/
structure Stands (mode : Mode) (text : Text) (s : State) : Prop where
  ready : s.scanner.Ready
  rest : s.scanner.rest = text
  mode : s.stream.mode = mode

/-- A token of the kind is next, with no trivia before it and the text after it. -/
structure Faces (kind : Token.Kind) (text : Text) (s : State) : Prop where
  kind : s.step.1.kind = kind
  flush : s.stream.Flush
  ready : s.step.2.Ready
  rest : s.step.2.rest = text

/-- In front of an expression that starts with nested strings. -/
abbrev Poised (count : Nat) : State → Prop := Stands .normal (nested count)

/-- In the contents of one of these strings. -/
abbrev Entered (count : Nat) : State → Prop :=
  Stands (.stringContent nestedDialect) ('{' :: '{' :: nested count)

section Faces

variable {count : Nat} {kind : Token.Kind} {text : Text} {s : State}

theorem Faces.front (h : Faces kind text s) : s.front = kind := by
  rw [front_of_flush h.flush, h.kind]

/-- Taking the token leads to the text after it, in whatever context that is read. -/
theorem Faces.stands (h : Faces kind text s) (mode : Mode) (nesting : Nat) (lineBound : Bool)
    (depth : Nat) : Stands mode text (s.taken.within mode nesting lineBound depth) :=
  ⟨h.ready, h.rest, rfl⟩

theorem faces_of_emit (scanner : Scanner) {size : Nat} (hstep : s.step = scanner.emit kind size)
    (ready : scanner.Ready) (hrest : scanner.rest.drop size = text)
    (htrivia : s.stream.isTrivia kind = false) : Faces kind text s := by
  refine ⟨?_, ?_, ?_, ?_⟩
  · rw [hstep]
    rfl
  · change s.stream.isTrivia s.step.1.kind = false
    rw [hstep]
    exact htrivia
  · rw [hstep]
    exact ⟨ready.queued, Nat.le_trans ready.base_le (Nat.le_add_right _ _), ready.pendingDedents,
      ready.pendingFault⟩
  · rw [hstep]
    exact hrest

theorem Stands.faces_string (h : Poised (count + 1) s) :
    Faces (.stringOpen nestedDialect) ('{' :: '{' :: nested count) s := by
  have hstep : s.step = s.scanner.openLiteral (.stringOpen nestedDialect) 2 := by
    change s.scanner.next s.stream.mode = _
    rw [h.mode, h.ready.next_nested h.rest]
  have hrest : s.scanner.rest.drop 2 = '{' :: '{' :: nested count := by
    rw [h.rest]
    rfl
  exact faces_of_emit { s.scanner with literalClosed := false } hstep
    ⟨h.ready.queued, h.ready.base_le, h.ready.pendingDedents, h.ready.pendingFault⟩ hrest rfl

theorem Stands.faces_braces (h : Entered count s) :
    Faces .interpolationOpen (nested count) s := by
  have hstep : s.step = s.scanner.emit .interpolationOpen 2 := by
    change s.scanner.next s.stream.mode = _
    rw [h.mode, h.ready.next_braces h.rest]
  have hrest : s.scanner.rest.drop 2 = nested count := by
    rw [h.rest]
    rfl
  exact faces_of_emit s.scanner hstep h.ready hrest rfl

end Faces

/-! ## Heights from below -/

/-- The production makes nodes of at least the height. -/
def Tall (s : State) (p : Parse Forest) (height : Nat) : Prop :=
  Ensures s p fun nodes _ => height ≤ Node.heightList nodes

section Tall

variable {s : State} {height : Nat}

/-- What is done after the nodes are made does not matter. -/
theorem Ensures.after {α β : Type} {p : Parse α} {f : α → Parse β} {Q : β → State → Prop}
    (h : ∀ a t, Ensures t (f a) Q) : Ensures s (p >>= f) Q :=
  h _ _

theorem Tall.mono {p : Parse Forest} {low : Nat} (h : Tall s p height) (hle : low ≤ height) :
    Tall s p low :=
  Nat.le_trans hle h

theorem trivia_flush_spec (flush : s.stream.Flush) :
    Ensures s trivia fun nodes t => nodes = [] ∧ t = s := by
  obtain ⟨htrivia, hflushed⟩ := flushed_of_flush flush
  unfold Ensures
  rw [trivia_eq, htrivia, hflushed]
  exact ⟨rfl, rfl⟩

theorem bumpIf_skip_spec {kind : Token.Kind} (hfront : s.front ≠ kind) :
    Ensures s (bumpIf kind) fun nodes t => nodes = [] ∧ t = s := by
  unfold bumpIf
  exact .isAt (fun h => absurd h hfront) fun _ => ⟨rfl, rfl⟩

/-- Tall nodes stay tall between others. -/
theorem Tall.between {nodes : Forest} (h : height ≤ Node.heightList nodes) (front back : Forest)
    (t : State) : Tall t (pure (front ++ nodes ++ back)) height := by
  change height ≤ Node.heightList (front ++ nodes ++ back)
  rw [Node.heightList_append, Node.heightList_append]
  omega

theorem Tall.behind {nodes : Forest} (h : height ≤ Node.heightList nodes) (front : Forest)
    (t : State) : Tall t (pure (front ++ nodes)) height := by
  change height ≤ Node.heightList (front ++ nodes)
  rw [Node.heightList_append]
  omega

/-- In front of no trivia, a node is one higher than what is in it. -/
theorem Tall.branch {body : Parse Forest} (h : Tall s body height) (flush : s.stream.Flush)
    (field : Option Field) (kind : Node.Kind) : Tall s (branch field kind body) (height + 1) := by
  obtain ⟨htrivia, hflushed⟩ := flushed_of_flush flush
  have hrun : Grammar.branch field kind body s =
      (s.stream.takeTrivia.1.map (.ofToken none) ++
        [.branch field kind (body s.flushed).1 (body s.flushed).2.stream.offset],
      (body s.flushed).2) := rfl
  unfold Tall Ensures
  rw [hrun, htrivia, hflushed]
  change height + 1 ≤ max (1 + Node.heightList (body s).1) 0
  have hbody : height ≤ Node.heightList (body s).1 := h
  omega

theorem Tall.errorBranch {body : Parse Forest} (h : Tall s body height) (flush : s.stream.Flush)
    (field : Option Field) (cause : Cause) :
    Tall s (errorBranch field cause body) (height + 1) := by
  obtain ⟨htrivia, hflushed⟩ := flushed_of_flush flush
  have hrun : (Grammar.errorBranch field cause body s).1 =
      s.stream.takeTrivia.1.map (.ofToken none) ++
        [.branch field .error (body s.flushed).1 (body s.flushed).2.stream.offset] := rfl
  unfold Tall Ensures
  rw [hrun, htrivia, hflushed]
  change height + 1 ≤ max (1 + Node.heightList (body s).1) 0
  have hbody : height ≤ Node.heightList (body s).1 := h
  omega

/-- A loop is as tall as its first step. -/
theorem Tall.loop {σ : Type} {step : σ → Parse (Forest × Option σ)} {memory : σ}
    (h : Ensures s (step memory) fun out _ => height ≤ Node.heightList out.1) (fuel : Nat) :
    Tall s (loop step (fuel + 1) memory) height := by
  refine h.bind ?_
  rintro ⟨nodes, next⟩ t hnodes
  cases next with
  | none => exact hnodes
  | some memory =>
    refine .after fun more u => ?_
    exact Tall.between hnodes [] more u

end Tall

/-! ## Productions -/

section Productions

variable {rules : Rules} {count height : Nat} {s : State}

/-- The rules read the expression in an interpolation of the nested strings as a tall one. -/
def TallRules (rules : Rules) (count height : Nat) : Prop :=
  0 < rules.budget ∧ ∀ t, Poised count t → Tall t (rules.expression none) height

theorem Stands.interpolation (h : Entered count s) (hrules : TallRules rules count height) :
    Tall s (interpolation rules) (height + 1) := by
  have hfaces := h.faces_braces
  unfold Grammar.interpolation
  refine .get (Tall.branch ?_ hfaces.flush _ _)
  refine (bump_flush_spec hfaces.flush (by rw [hfaces.kind]; exact nofun) none).bind ?_
  rintro opened t ⟨-, rfl⟩
  refine .setMode (.onStream ?_)
  refine (hrules.2 _ (hfaces.stands .normal 0 true s.depth)).bind ?_
  intro inner u hinner
  refine .get (.join (P := fun _ _ => True) (fun _ => trivial) (fun _ => trivial) ?_)
  rintro closed v -
  exact .onStream (.setMode (Tall.between hinner opened closed _))

theorem Stands.stringParts (h : Poised (count + 1) s) (hrules : TallRules rules count height) :
    Tall s (stringParts rules nestedDialect) (height + 1) := by
  have hfaces := h.faces_string
  obtain ⟨fuel, hfuel⟩ := Nat.exists_eq_add_one_of_ne_zero (Nat.pos_iff_ne_zero.1 hrules.1)
  have hentered : Entered count (s.taken.within (.stringContent nestedDialect) s.stream.nesting
      s.stream.lineBound s.depth) := hfaces.stands _ _ _ _
  unfold Grammar.stringParts
  refine .get ((bump_flush_spec hfaces.flush (by rw [hfaces.kind]; exact nofun) none).bind ?_)
  rintro opened t ⟨-, rfl⟩
  refine .setMode ?_
  rw [hfuel]
  have hstep : Ensures (s.taken.within (.stringContent nestedDialect) s.stream.nesting
      s.stream.lineBound s.depth) (stringStep rules ()) fun out _ =>
        height + 1 ≤ Node.heightList out.1 := by
    unfold stringStep
    refine .peek ?_
    rw [hentered.faces_braces.front]
    exact (hentered.interpolation hrules).bind fun nodes t hnodes => hnodes
  refine (Tall.loop hstep fuel).bind ?_
  intro contents t hcontents
  exact .setMode (Tall.behind hcontents opened _)

theorem Stands.string (h : Poised (count + 1) s) (hrules : TallRules rules count height)
    (field : Option Field) : Tall s (string rules field nestedDialect) (height + 3) := by
  have hflush := h.faces_string.flush
  exact ((h.stringParts hrules).branch hflush none .formatString).branch hflush field .string

theorem Stands.bumpAny (h : Poised (count + 1) s) (hrules : TallRules rules count height) :
    Tall s (bumpAny rules) (height + 3) := by
  unfold Grammar.bumpAny
  refine .peek ?_
  rw [h.faces_string.front]
  exact h.string hrules none

/-- Beyond the limit the string is taken whole. -/
theorem Stands.tooDeep (h : Poised (count + 1) s) (hrules : TallRules rules count height)
    (field : Option Field) : Tall s (tooDeep rules field) (height + 4) := by
  obtain ⟨fuel, hfuel⟩ := Nat.exists_eq_add_one_of_ne_zero (Nat.pos_iff_ne_zero.1 hrules.1)
  have hstep : Ensures s (tooDeepStep rules 0) fun out _ => height + 3 ≤ Node.heightList out.1 := by
    unfold tooDeepStep
    refine .peek ?_
    rw [h.faces_string.front]
    exact (h.bumpAny hrules).bind fun nodes t hnodes => hnodes
  unfold Grammar.tooDeep
  rw [hfuel]
  exact (Tall.loop hstep fuel).errorBranch h.faces_string.flush field _

theorem Stands.value (h : Poised (count + 1) s) (hrules : TallRules rules count height)
    (field : Option Field) : Tall s (value rules field) (height + 4) := by
  unfold Grammar.value
  refine .peek ?_
  rw [h.faces_string.front]
  exact (h.string hrules none).branch h.faces_string.flush field .value

theorem Stands.operand (h : Poised (count + 1) s) (hrules : TallRules rules count height) :
    Tall s (operand rules) (height + 4) := by
  have hnth : (s.stream.nth 0).kind = .stringOpen nestedDialect := h.faces_string.front
  refine .isKeywordAt (fun hkind => ?_) (h.value hrules none)
  rw [hnth] at hkind
  cases hkind

/-- A chain keeps its first operand, however it goes on. -/
theorem Tall.chainFrom (right? : Token.Kind → Option (Parse Forest)) (fuel wraps : Nat)
    {nodes : Forest} (h : height ≤ Node.heightList nodes) :
    Tall s (chainFrom rules right? fuel wraps nodes) height := by
  induction fuel generalizing s nodes wraps with
  | zero => exact h
  | succ fuel ih =>
    unfold Grammar.chainFrom
    refine .peek ?_
    split
    · exact h
    · refine .get ?_
      split
      · exact .after fun wrapped t => Tall.between h [] wrapped t
      · refine .offset (.modify (.after fun sign t => .after fun right u => ih _ ?_))
        simp only [List.cons_append, Node.heightList_cons, Node.height_branch]
        omega

theorem Stands.sum (h : Poised (count + 1) s) (hrules : TallRules rules count height) :
    Tall s (sum rules) (height + 4) := by
  unfold Grammar.sum chain
  refine (trivia_flush_spec h.faces_string.flush).bind ?_
  rintro before t ⟨-, rfl⟩
  refine (h.operand hrules).bind fun first u hfirst => ?_
  refine (Tall.chainFrom _ _ 0 hfirst).bind ?_
  exact fun nodes v hnodes => Tall.behind hnodes before v

/-- Whatever the limit, an expression is as tall as the string it starts with. -/
theorem Stands.expression (h : Poised (count + 1) s) (hrules : TallRules rules count height)
    (field : Option Field) : Tall s (expression rules field) (height + 4) := by
  unfold Grammar.expression
  refine .get ?_
  split
  · exact h.tooDeep hrules field
  · have hdeeper : Poised (count + 1) (s.atDepth (s.depth + 1)) := ⟨h.ready, h.rest, h.mode⟩
    have hflush := hdeeper.faces_string.flush
    refine .modify (Ensures.bind (P := fun nodes _ => height + 4 ≤ Node.heightList nodes) ?_
      fun nodes t hnodes => hnodes)
    refine Tall.mono (Tall.branch ?_ hflush field .expression) (Nat.le_succ _)
    have hslash : (s.atDepth (s.depth + 1)).front ≠ .mark .slash := by
      rw [hdeeper.faces_string.front]
      exact nofun
    refine (bumpIf_skip_spec hslash).bind ?_
    rintro root t ⟨-, rfl⟩
    exact (hdeeper.sum hrules).bind fun nodes u hnodes => Tall.behind hnodes root u

/-- Each string adds four levels: those of the expression, the string, and its interpolation. -/
theorem Stands.expressionAt {limit budget fuel : Nat} (hbudget : 0 < budget) (hfuel : count ≤ fuel)
    (h : Poised count s) (field : Option Field) :
    Tall s (expressionAt limit budget fuel field) (4 * count) := by
  induction count generalizing s fuel field with
  | zero => exact Nat.zero_le _
  | succ count ih =>
    obtain ⟨fuel, rfl⟩ : ∃ less, fuel = less + 1 := ⟨fuel - 1, by omega⟩
    have hrules : TallRules ⟨limit, budget, Grammar.expressionAt limit budget fuel⟩ count
        (4 * count) := ⟨hbudget, fun t ht => ih (Nat.le_of_succ_le_succ hfuel) ht none⟩
    exact h.expression hrules field

/-- A line that starts with a string is no item, and is wrapped. -/
theorem Stands.noItem (h : Poised (count + 1) s) (hrules : TallRules rules count height) :
    Tall s (noItem rules []) (height + 3) := by
  obtain ⟨fuel, hfuel⟩ := Nat.exists_eq_add_one_of_ne_zero (Nat.pos_iff_ne_zero.1 hrules.1)
  have hfront := h.faces_string.front
  have hstep : Ensures s (recoverStep rules ()) fun out _ =>
      height + 3 ≤ Node.heightList out.1 := by
    unfold recoverStep
    refine .isAtLineEnd (fun hend => ?_) fun _ => ?_
    · rw [hfront] at hend
      cases hend
    · exact (h.bumpAny hrules).bind fun nodes t hnodes => hnodes
  have hwrapped : Tall s (recoverLine rules .item) (height + 3) := by
    unfold recoverLine
    refine .isAtLineEnd (fun hend => ?_) fun _ => .peekToken ?_
    · rw [hfront] at hend
      cases hend
    · rw [hfuel]
      exact Tall.mono ((Tall.loop hstep fuel).errorBranch h.faces_string.flush none _)
        (Nat.le_succ _)
  refine hwrapped.bind fun wrapped t hnodes => ?_
  exact .after fun newline u => Tall.between hnodes [] newline u

/-- There is no attribute in front of a string. -/
theorem Stands.attributes (h : Poised (count + 1) s) (hbudget : 0 < rules.budget) :
    Ensures s (attributes rules) fun nodes t => nodes = [] ∧ t = s := by
  obtain ⟨fuel, hfuel⟩ := Nat.exists_eq_add_one_of_ne_zero (Nat.pos_iff_ne_zero.1 hbudget)
  have hfront := h.faces_string.front
  have hstep : Ensures s (attributesStep rules false) fun out t => out = ([], none) ∧ t = s := by
    unfold attributesStep
    refine .isAtMark (fun hopen => ?_) fun _ => ⟨rfl, rfl⟩
    rw [hfront] at hopen
    cases hopen
  unfold Grammar.attributes
  rw [hfuel]
  refine hstep.bind ?_
  rintro out t ⟨rfl, rfl⟩
  exact ⟨rfl, rfl⟩

theorem Stands.attributedItem (h : Poised (count + 1) s) (hrules : TallRules rules count height) :
    Tall s (attributedItem rules) (height + 3) := by
  have hkind : (s.stream.nth 0).kind = .stringOpen nestedDialect := h.faces_string.front
  unfold Grammar.attributedItem
  refine (trivia_flush_spec h.faces_string.flush).bind ?_
  rintro before t ⟨-, rfl⟩
  refine (h.attributes hrules.1).bind ?_
  rintro adopted u ⟨rfl, rfl⟩
  refine .peekToken (.peekAt (.peekAt ?_))
  have hnone : ItemKind.detect? (u.stream.nth 0) (u.stream.nth 1).kind (u.stream.nth 2).kind =
      none := by
    unfold ItemKind.detect?
    rw [hkind]
  dsimp only
  rw [hnone]
  exact (h.noItem hrules).bind fun nodes v hnodes => Tall.behind hnodes before v

theorem Stands.item (h : Poised (count + 1) s) (hrules : TallRules rules count height) :
    Tall s (item rules) (height + 3) := by
  unfold Grammar.item
  refine .peek ?_
  rw [h.faces_string.front]
  exact h.attributedItem hrules

theorem Stands.file (h : Poised (count + 1) s) (hrules : TallRules rules count height) :
    Tall s (file rules) (height + 3) := by
  obtain ⟨fuel, hfuel⟩ := Nat.exists_eq_add_one_of_ne_zero (Nat.pos_iff_ne_zero.1 hrules.1)
  have hfront := h.faces_string.front
  have hshebang : Ensures s (fileShebang rules) fun _ t => t = s := by
    unfold fileShebang
    refine .isAt (fun hstart => ?_) fun _ => rfl
    rw [hfront] at hstart
    cases hstart
  have hstep : Ensures s (fileStep rules ()) fun out _ => height + 3 ≤ Node.heightList out.1 := by
    unfold fileStep
    refine .isAt (fun hend => ?_) fun _ => ?_
    · rw [hfront] at hend
      cases hend
    · exact (h.item hrules).bind fun nodes t hnodes => hnodes
  unfold Grammar.file
  refine hshebang.bind ?_
  rintro first t rfl
  rw [hfuel]
  refine (Tall.loop hstep fuel).bind fun items u hitems => ?_
  exact .after fun last v => Tall.between hitems first last v

end Productions

/-- Nothing is taken from the nested strings yet. -/
theorem poised_ofText (count : Nat) : Poised (count + 1) (.ofText (nested (count + 1))) :=
  ⟨⟨rfl, Nat.le_refl 0, rfl, rfl⟩, rfl, rfl⟩

theorem length_nested (count : Nat) : (nested count).length = 4 * count := by
  induction count with
  | zero => rfl
  | succ count ih =>
    simp only [nested, List.length_cons, ih]
    omega

/-- The nodes of nested strings, from below. -/
theorem heightList_run (limit count : Nat) :
    4 * count ≤ Node.heightList (run limit (nested (count + 1))).1 := by
  have hbudget : count < budgetFor (nested (count + 1)).length := by
    rw [length_nested, budgetFor]
    omega
  have hrules : TallRules (.tie limit (budgetFor (nested (count + 1)).length)) count (4 * count) :=
    ⟨Nat.lt_of_le_of_lt (Nat.zero_le _) hbudget, fun t ht =>
      ht.expressionAt (Nat.lt_of_le_of_lt (Nat.zero_le _) hbudget) (Nat.le_of_lt hbudget) none⟩
  have htall := (poised_ofText count).file hrules
  rw [run_eq]
  exact Tall.mono htall (Nat.le_add_right _ _)

end Grammar

/-- The depth of the nodes of a tree is bounded by the limit and by the interpolations inside error
nodes. Without these it would be bounded by the limit alone; with them it is not, whatever the limit
is. -/
theorem depth_bounded_by_buried (limit : Nat) :
    (∀ source : Text, ∀ entry ∈ (parse limit source).root.preorderDepth 1,
      entry.1 ≤ 10 * (limit + 1) ^ 2 + 20 + 4 * (parse limit source).root.buried false) ∧
    ∀ bound : Nat, ∃ source : Text, ∃ entry ∈ (parse limit source).root.preorderDepth 1,
      bound < entry.1 := by
  constructor
  · intro source entry hmem
    have hlt := Node.depth_lt_of_mem _ 1 entry hmem
    have hheight := root_height_le limit source
    omega
  · intro bound
    refine ⟨nested (bound + 1), ?_⟩
    obtain ⟨entry, hmem, hdepth⟩ := Node.exists_depth_eq (parse limit (nested (bound + 1))).root 1
    refine ⟨entry, hmem, ?_⟩
    have hheight := Grammar.heightList_run limit bound
    rw [root_parse, Node.height_branch] at hdepth
    omega

/-- Eight nested strings go deeper than a limit of zero would allow. -/
theorem depth_exceeds_bound :
    ∃ entry ∈ (parse 0 (nested 8)).root.preorderDepth 1, 10 * (0 + 1) ^ 2 + 20 < entry.1 := by
  decide +kernel

end Justfile
