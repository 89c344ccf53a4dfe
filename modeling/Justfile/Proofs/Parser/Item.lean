import Justfile.Proofs.Parser.Recipe
import Justfile.Proofs.Reading.Progress
import Justfile.Proofs.Simulation.Item

/-!
# Building items

An item is built around the attributes that stand behind the checkpoint; whether there are any is what the
loop over them remembers.
-/

set_option autoImplicit false

namespace Justfile.Parser

variable {rules : Rules} {productions : Grammar.Rules} {field : Option Field} {s : Grammar.State}

/-! ## Attributes -/

/-- What is listed is followed by a comma where more is to come. -/
theorem turns_listed {a : Action Unit} {p : Grammar.Parse Forest} (h : Makes none s a p) :
    Turns s (do
        a
        if ← Grammar.isAtMark .comma then
          bump
          again
        else done) (do
        let nodes ← p
        if ← Grammar.isAtMark .comma then
          let comma ← Grammar.bump
          Grammar.again (nodes ++ comma)
        else Grammar.done nodes) := by
  intro b
  refine .bind h fun nodes t => ?_
  exact .ifMark (fun _ => .bind (makes_bump fun _ => rfl) fun _ _ => .again) fun _ => .done

namespace Rules.Ties

/-- The name of an argument takes the field set for it, and the value the next. -/
theorem namedArgument (ties : rules.Ties productions) {part : Field} (hne : s.front ≠ .endOfInput) :
    Makes (some part) s (namedArgument rules) (Grammar.namedArgument productions part) := by
  refine makes_branch fun b t trimmed => ?_
  have hname : t.front ≠ .endOfInput := by rwa [trimmed.front]
  refine .bind (makes_bumpField hname) fun name u => ?_
  refine .ifMarkThen (fun _ => ?_) fun _ => .returned rfl rfl
  simp only [bind_assoc]
  refine .bind (makes_bump fun _ => rfl) fun sign v => .setField ?_
  exact .bind (ties.stringOr _) fun value w => .returned rfl rfl

theorem attributeArgument (ties : rules.Ties productions) :
    Makes none s (attributeArgument rules) (Grammar.attributeArgument productions) := by
  refine .of_builds fun b => .peek ?_
  cases hfront : s.front with
  | stringOpen dialect => exact .setField ((ties.string dialect).builds b [])
  | identifier =>
    refine .setField ((ties.namedArgument ?_).builds b [])
    rw [hfront]
    exact nofun
  | _ => exact (ties.errorToken _).builds b []

theorem attributeArgumentStep (ties : rules.Ties productions) (memory : Unit) (s : Grammar.State) :
    Turns s (attributeArgumentStep rules memory) (Grammar.attributeArgumentStep productions memory) := by
  intro b
  refine .peek ?_
  cases s.front with
  | endOfInput => exact .done
  | mark sign =>
    cases sign with
    | parenR => exact .done
    | _ => exact turns_listed ties.attributeArgument b
  | _ => exact turns_listed ties.attributeArgument b

/-- The token behind the name tells which node is opened in front of it. -/
theorem attributeEntry (ties : rules.Ties productions) (hne : s.front ≠ .endOfInput) :
    Makes none s (attributeEntry rules) (Grammar.attributeEntry productions) := by
  refine .of_builds fun b => .peekAt ?_
  have hname : ∀ {t : Grammar.State}, Grammar.Trimmed s (before s) t → t.front ≠ .endOfInput := by
    intro t trimmed
    rwa [trimmed.front]
  have hflag : Makes none s (do
        startNode .attributeFlag
        bumpField .name
        closeNode) (Grammar.branch none .attributeFlag (Grammar.bump (some .name))) :=
    makes_branch fun _ _ trimmed => .last (makes_bumpField (hname trimmed))
  cases (s.stream.nth 1).kind with
  | mark sign =>
    cases sign with
    | parenL =>
      refine (makes_branch fun b t trimmed => ?_).builds b []
      refine .bind (makes_bumpField (hname trimmed)) fun name u => ?_
      refine .bind makes_openBracket fun opened v => ?_
      refine .bind (ties.loop ties.attributeArgumentStep) fun arguments w => ?_
      exact .bind (makes_closeBracket .parenR) fun closed x => .returned rfl rfl
    | colon =>
      refine (makes_branch fun b t trimmed => ?_).builds b []
      refine .bind (makes_bumpField (hname trimmed)) fun name u => ?_
      refine .bind (makes_bump fun _ => rfl) fun colon v => .setField ?_
      exact .bind (ties.stringOr _) fun value w => .returned rfl rfl
    | _ => exact hflag.builds b []
  | _ => exact hflag.builds b []

/-- Where an attribute is missing both leave a mark, and go on behind a comma. -/
theorem attributeEntryStep (ties : rules.Ties productions) (memory : Unit) (s : Grammar.State) :
    Turns s (attributeEntryStep rules memory) (Grammar.attributeEntryStep productions memory) := by
  intro b
  refine .peek ?_
  cases hfront : s.front with
  | endOfInput => exact .bind (makes_missing _) fun _ _ => .done
  | mark sign =>
    cases sign with
    | bracketR => exact .bind (makes_missing _) fun _ _ => .done
    | _ => exact turns_listed (ties.errorToken _) b
  | identifier =>
    refine turns_listed (ties.attributeEntry ?_) b
    rw [hfront]
    exact nofun
  | _ => exact turns_listed (ties.errorToken _) b

/-- A group of attributes is one node between its brackets. -/
theorem attributeGroup (ties : rules.Ties productions) :
    Makes none s (attributeGroup rules) (Grammar.attributeGroup productions) := by
  refine makes_branch fun b t _ => ?_
  refine .bind makes_openBracket fun opened u => ?_
  refine .bind (ties.loop ties.attributeEntryStep) fun entries v => ?_
  refine .bind (makes_closeBracket .bracketR) fun closed w => ?_
  exact .bind (makes_bumpIf _) fun newline x => .returned rfl rfl

/-- Both remember whether there are attributes, as empty lines count only behind one. -/
theorem attributesStep (ties : rules.Ties productions) (attributed : Bool) (s : Grammar.State) :
    Turns s (attributesStep rules attributed) (Grammar.attributesStep productions attributed) := by
  intro b
  refine .ifMark (fun _ => ?_) fun _ => .look rfl (.ite (fun _ => ?_) fun _ => .done)
  · exact .bind ties.attributeGroup fun _ _ => .returned rfl rfl
  · exact .bind (makes_bump fun _ => rfl) fun _ _ => .returned rfl rfl

end Rules.Ties

theorem makes_boolean {part : Field} :
    Makes (some part) s boolean (Grammar.boolean part) :=
  makes_branch fun _ _ _ => .ifLook rfl (fun _ => .last (makes_bumpKeyword _))
    fun _ => .last (makes_bumpKeyword _)

namespace Rules.Ties

/-! ## Single items -/

section Items

variable {b : Assembler} {adopted : Forest}

/-- An assignment is opened at the checkpoint, in front of its attributes. -/
theorem assignment (ties : rules.Ties productions) :
    Builds b adopted none s (assignment rules b.current.children.length)
      (Grammar.assignment productions adopted) id fun _ => pure () := by
  refine builds_enclose fun b => ?_
  refine .bind (makes_expectIdentifier _ _) fun name t => ?_
  refine .bind (makes_expectMark _) fun sign u => .setField ?_
  refine .bind (ties.expression (some .right) _) fun value v => ?_
  exact .bind ties.lineEnd fun ending w => .returned rfl (by simp only [List.append_assoc])

/-- The keyword stands in a node of its own; the assignment behind it is opened at a second
checkpoint. -/
theorem exported (ties : rules.Ties productions) (kind : Node.Kind) (word : Keyword) :
    Builds b adopted none s (exported rules kind word b.current.children.length)
      (Grammar.exported productions kind word adopted) id fun _ => pure () := by
  refine builds_enclose fun b => ?_
  refine .bind (makes_bumpKeyword word) fun first t => ?_
  refine .checkpoint fun u _ => ?_
  -- The keyword counts to the builder of the assignment, so that the checkpoint is its end.
  refine .seq (.behind fun b' hlength => hlength ▸ ties.assignment) ?_
  exact .returned rfl (by simp only [id, List.append_assoc])

theorem aliasItem (ties : rules.Ties productions) :
    Builds b adopted none s (aliasItem rules b.current.children.length)
      (Grammar.aliasItem productions adopted) id fun _ => pure () := by
  refine builds_enclose fun b => ?_
  refine .bind (makes_bumpKeyword _) fun word t => ?_
  refine .bind (makes_expectIdentifier _ _) fun name u => ?_
  refine .bind (makes_expectMark _) fun sign v => ?_
  refine .join (ties.namePathOr .right .aliasTarget) fun target w => ?_
  exact .bind ties.lineEnd fun ending x => .returned rfl (by simp only [List.append_assoc])

theorem importItem (ties : rules.Ties productions) :
    Builds b adopted none s (importItem rules b.current.children.length)
      (Grammar.importItem productions adopted) id fun _ => pure () := by
  refine builds_enclose fun b => ?_
  refine .bind (makes_bumpKeyword _) fun word t => ?_
  refine .bind (makes_bumpIf _) fun sign u => ?_
  refine .bind (ties.stringOr _) fun path v => ?_
  exact .bind ties.lineEnd fun ending w => .returned rfl (by simp only [List.append_assoc])

theorem modulePath (ties : rules.Ties productions) :
    Makes none s (modulePath rules) (Grammar.modulePath productions) := by
  refine .of_builds fun b => .peek ?_
  cases s.front with
  | stringOpen dialect => exact (ties.string dialect).builds b []
  | _ => exact .returned rfl rfl

theorem moduleItem (ties : rules.Ties productions) :
    Builds b adopted none s (moduleItem rules b.current.children.length)
      (Grammar.moduleItem productions adopted) id fun _ => pure () := by
  refine builds_enclose fun b => ?_
  refine .bind (makes_bumpKeyword _) fun word t => ?_
  refine .bind (makes_bumpIf _) fun sign u => ?_
  refine .bind (makes_expectIdentifier _ _) fun name v => ?_
  refine .bind ties.modulePath fun path w => ?_
  exact .bind ties.lineEnd fun ending x => .returned rfl (by simp only [List.append_assoc])

/-! ## Settings -/

/-- The field of an element is set only where an element follows. -/
theorem arrayStep (ties : rules.Ties productions) (memory : Unit) (s : Grammar.State) :
    Turns s (arrayStep rules memory) (Grammar.arrayStep productions memory) := by
  intro b
  refine .peek ?_
  have hgo : ∀ {field : Option Field} {a : Action Unit} {p : Grammar.Parse Forest}, Makes field s a p →
      Builds b [] field s (do
        a
        if ← Grammar.isAtMark .comma then
          bump
          again
        else if (← Grammar.peek).isStringOpen then again
        else done) (do
        let element ← p
        if ← Grammar.isAtMark .comma then
          let comma ← Grammar.bump
          Grammar.again (element ++ comma)
        else if (← Grammar.peek).isStringOpen then Grammar.again element
        else Grammar.done element) Prod.fst fun result => pure result.2 := by
    intro field a p hmakes
    refine .bind hmakes fun element t => .ifMark (fun _ => ?_) fun _ => .peek ?_
    · exact .bind (makes_bump fun _ => rfl) fun _ _ => .again
    · exact .ite (fun _ => .again) fun _ => .done
  cases s.front with
  | endOfInput => exact .done
  | mark sign =>
    cases sign with
    | bracketR => exact .done
    | _ => exact hgo (ties.errorToken _)
  | stringOpen dialect => exact .setField (hgo (ties.string dialect))
  | _ => exact hgo (ties.errorToken _)

/-- The field that waits goes to the array, and those of its elements to them. -/
theorem array (ties : rules.Ties productions) {part : Field} :
    Makes (some part) s (array rules) (Grammar.array productions part) := by
  refine makes_branch fun b t _ => ?_
  refine .bind makes_openBracket fun opened u => ?_
  refine .bind (ties.loop ties.arrayStep) fun elements v => ?_
  exact .bind (makes_closeBracket .bracketR) fun closed w => .returned rfl rfl

/-- The field is set only where a value is read, so that none waits for an error. -/
theorem settingValue (ties : rules.Ties productions) (arrayOnly : Bool) :
    Makes none s (settingValue rules arrayOnly) (Grammar.settingValue productions arrayOnly) := by
  refine .of_builds fun b => .peek ?_
  have hother : Builds b [] none s (do
        if (← Grammar.isKeywordAt 0 .trueWord) || (← Grammar.isKeywordAt 0 .falseWord) then
          setField .right
          boolean
        else Parser.recoverLine rules .settingValue) (do
        if (← Grammar.isKeywordAt 0 .trueWord) || (← Grammar.isKeywordAt 0 .falseWord) then
          Grammar.boolean .right
        else Grammar.recoverLine productions .settingValue) id fun _ => pure () := by
    refine .look rfl (.look rfl (.ite (fun _ => .setField ?_) fun _ => ?_))
    · exact makes_boolean.builds b []
    · exact (ties.recoverLine _).builds b []
  cases s.front with
  | mark sign =>
    cases sign with
    | bracketL => exact .setField (ties.array.builds b [])
    | _ => exact .ite (fun _ => (ties.recoverLine _).builds b []) fun _ => hother
  | stringOpen dialect =>
    refine .ite (fun _ => (ties.recoverLine _).builds b []) fun _ => .setField ?_
    exact (ties.string dialect).builds b []
  | _ => exact .ite (fun _ => (ties.recoverLine _).builds b []) fun _ => hother

/-- A setting with its name and value is opened at the checkpoint. -/
theorem setting (ties : rules.Ties productions) (hfirst : s.front ≠ .endOfInput)
    (hsecond : (s.stream.nth 1).kind ≠ .endOfInput) :
    Builds b adopted none s (setting rules b.current.children.length)
      (Grammar.setting productions adopted) id fun _ => pure () := by
  refine builds_enclose fun b => .of_wellFormed fun wf => ?_
  refine .bind_run (makes_bumpKeyword .setWord) (.peekToken ?_)
  have hname : (Grammar.bumpKeyword .setWord s).2.front ≠ .endOfInput := by
    unfold Grammar.State.front Grammar.bumpKeyword
    rwa [Grammar.nth_bumpAs wf hfirst]
  generalize Grammar.bumpKeyword .setWord s = word at hname ⊢
  refine .bind (makes_bumpField hname) fun name t => ?_
  refine .ifMarkThen (fun _ => ?_) fun _ => ?_
  · simp only [bind_assoc, pure_bind]
    refine .bind (makes_bump fun _ => rfl) fun sign u => ?_
    refine .bind (ties.settingValue _) fun nodes v => ?_
    exact .bind ties.lineEnd fun ending w => .returned rfl (by simp only [List.append_assoc])
  · simp only [pure_bind]
    exact .bind ties.lineEnd fun ending w =>
      .returned rfl (by simp only [List.append_assoc, List.nil_append])

/-! ## All items -/

/-- Whichever item starts here, both take what stands behind the checkpoint into it. -/
theorem itemOfKind (ties : rules.Ties productions) {kind : Grammar.ItemKind}
    (starts : kind.Starts s) :
    Builds b adopted none s (itemOfKind rules kind b.current.children.length)
      (Grammar.itemOfKind productions kind adopted) id fun _ => pure () := by
  cases kind with
  | aliasItem => exact ties.aliasItem
  | assignment => exact ties.assignment
  | exportItem => exact ties.exported _ _
  | unexportItem => exact ties.exported _ _
  | importItem => exact ties.importItem
  | moduleItem => exact ties.moduleItem
  | recipe => exact ties.recipe
  | setting =>
    refine ties.setting ?_ ?_
    · rcases starts.first with hfirst | ⟨hkind, -⟩
      · rw [hfirst]
        exact nofun
      · cases hkind
    · rw [starts.second (.inr (.inr rfl))]
      exact nofun

/-- Where no item starts, both wrap the line, and leave the attributes as they are. -/
theorem noItem (ties : rules.Ties productions) {attributed : Bool}
    (hattributed : attributed = !adopted.isEmpty) :
    Builds b adopted none s (noItem rules attributed) (Grammar.noItem productions adopted) id
      fun _ => pure () := by
  cases adopted with
  | nil =>
    subst hattributed
    refine .bind (ties.recoverLine .item) fun wrapped t => ?_
    exact .bind_last (makes_bumpIf _) fun newline u => .returned rfl rfl
  | cons first rest =>
    subst hattributed
    exact .bind_last (ties.recoverLine .attributedItem) fun wrapped t => .returned rfl rfl

end Items

end Rules.Ties

/-! ## The attributes in front of an item -/

/-- The loop over the attributes goes on only with nodes, and ends with none. -/
theorem attributesStep_cases (productions : Grammar.Rules) (attributed : Bool) (s : Grammar.State) :
    Grammar.Ensures s (Grammar.attributesStep productions attributed) fun result _ =>
      (result.1 = [] ∧ result.2 = none) ∨ (result.1 ≠ [] ∧ result.2 = some true) := by
  refine Grammar.Ensures.isAtMark (fun _ => ?_) fun _ => ?_
  · refine (Grammar.branch_ne_nil s none .attributeGroup _).bind fun nodes t hne => ?_
    exact .inr ⟨hne, rfl⟩
  · refine Grammar.Ensures.isAt (fun hfront => ?_) fun _ => ?_
    · cases attributed with
      | false => exact .inl ⟨rfl, rfl⟩
      | true =>
        have hne : s.front ≠ .endOfInput := by
          rw [hfront]
          exact nofun
        have hbump : Grammar.Ensures s (Grammar.bump none) fun nodes _ => nodes ≠ [] := by
          unfold Grammar.Ensures Grammar.bump
          rw [Grammar.bumpAs_eq none none s hne]
          exact List.append_ne_nil_of_right_ne_nil _ nofun
        exact hbump.bind fun nodes t hne => .inr ⟨hne, rfl⟩
    · cases attributed <;> exact .inl ⟨rfl, rfl⟩

/-- There are attributes in front of an item exactly if the loop over them remembers one. -/
theorem lastMemory_attributes (fuel : Nat) (attributed : Bool) (s : Grammar.State) :
    lastMemory (Grammar.attributesStep productions) fuel attributed s =
      (attributed ||
        !(Grammar.loop (Grammar.attributesStep productions) fuel attributed s).1.isEmpty) := by
  induction fuel generalizing attributed s with
  | zero => exact (Bool.or_false attributed).symm
  | succ fuel ih =>
    have hcases := attributesStep_cases productions attributed s
    rw [lastMemory, Grammar.loop_succ]
    unfold Grammar.Ensures at hcases
    generalize Grammar.attributesStep productions attributed s = turn at hcases ⊢
    obtain ⟨⟨made, next⟩, t⟩ := turn
    rcases hcases with ⟨rfl, rfl⟩ | ⟨hne, rfl⟩
    · exact (Bool.or_false attributed).symm
    · -- Nodes that a step has made stay the first nodes of the loop.
      obtain ⟨first, rest, rfl⟩ := List.exists_cons_of_ne_nil hne
      exact (ih true t).trans (Bool.or_true attributed).symm

namespace Rules.Ties

/-- What the loop remembers is whether attributes have been built. -/
theorem attributes (ties : rules.Ties productions) (b : Assembler) :
    Builds b [] none s (attributes rules) (Grammar.attributes productions) id
      fun made => pure (!made.isEmpty) := by
  unfold Parser.attributes Grammar.attributes
  rw [ties.budget]
  exact (builds_loop ties.attributesStep _ false s b).with_result (lastMemory_attributes _ false s)

/-- Attributes and item are built one behind the other, and the item is opened in front of both. -/
theorem attributedItem (ties : rules.Ties productions) :
    Makes none s (attributedItem rules) (Grammar.attributedItem productions) := by
  refine .of_builds fun b => ?_
  rw [Grammar.attributedItem_eq]
  refine .checkpoint fun t _ => ?_
  refine .seq (.behind fun b' _ => ties.attributes b') ?_
  -- From here on only what the attributes are matters, not how they were read.
  generalize Grammar.attributes productions t = attributes
  obtain ⟨adopted, u⟩ := attributes
  refine .peekToken (.peekAt (.peekAt (.map ?_)))
  cases hkind : Grammar.ItemKind.detect? (u.stream.nth 0) (u.stream.nth 1).kind
      (u.stream.nth 2).kind with
  | none => exact .rebase fun b' _ => ties.noItem rfl
  | some kind =>
    exact .rebase fun b' hlength =>
      hlength ▸ ties.itemOfKind (Grammar.ItemKind.starts_of_detect? hkind)

/-- **The parser builds each item as the grammar returns it.** -/
theorem item (ties : rules.Ties productions) :
    Makes none s (item rules) (Grammar.item productions) := by
  refine .of_builds fun b => .peek ?_
  cases s.front with
  | newline | indent | dedent | errorRecovery _ => exact (makes_bump fun _ => rfl).builds b []
  | _ => exact ties.attributedItem.builds b []

end Rules.Ties

end Justfile.Parser
