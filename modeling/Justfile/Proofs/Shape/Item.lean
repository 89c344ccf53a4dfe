import Justfile.Proofs.Reading.File
import Justfile.Proofs.Shape.Recipe

/-!
# Shapes of items

The words of attributes and items. An item is a node around the attributes in front of it, and from
outside all items look alike: they leave nothing in the word of their siblings. So the nodes of a file
conform to their schema whatever stands in it (`file_conforms`).
-/

set_option autoImplicit false

namespace Justfile

namespace Node

/-! ## Languages of items -/

/-- Any number of nodes with one field. -/
def allOf (field : Field) : Language Part := {w | ∀ part ∈ w, part.1 = some field}

theorem one_le_allOf (field : Field) : 1 ≤ allOf field := by
  rintro w rfl
  exact List.forall_mem_nil _

/-- A node with the field in front leaves a list of such nodes one. -/
theorem labelled_mul_allOf (field : Field) :
    (1 + labelled (some field)) * allOf field ≤ allOf field := by
  rintro w ⟨front, hfront, back, hback, rfl⟩ part hmem
  rcases List.mem_append.1 hmem with hmem | hmem
  · rcases hfront with rfl | ⟨kind, -, rfl⟩
    · cases hmem
    · rw [List.mem_singleton.1 hmem]
  · exact hback part hmem

theorem labelled_le_allOf (field : Field) : 1 + labelled (some field) ≤ allOf field := by
  refine le_trans ?_ (labelled_mul_allOf field)
  intro w hmem
  exact ⟨w, hmem, [], List.forall_mem_nil _, List.append_nil w⟩

/-- A shared field can label any number of nodes behind others. -/
theorem sparse_append_allOf {front back : List Part} {field : Field} (hfront : Sparse front)
    (hback : back ∈ allOf field) (hshared : field.isShared = true) : Sparse (front ++ back) := by
  have hnone : (back.filterMap Prod.fst).filter (!·.isShared) = [] := by
    rw [List.filter_eq_nil_iff]
    intro other hmem
    obtain ⟨part, hpart, hfield⟩ := List.mem_filterMap.1 hmem
    rw [hback part hpart] at hfield
    cases hfield
    simp [hshared]
  unfold Sparse at hfront ⊢
  rw [List.filterMap_append, List.filter_append, hnone, List.append_nil]
  exact hfront

/-- Nodes with one field have no other field. -/
theorem countP_allOf {w : List Part} {field : Field} (other : Field) (h : w ∈ allOf field)
    (hne : field ≠ other) : w.countP (Part.hasField other) = 0 := by
  rw [List.countP_eq_zero]
  intro part hmem
  simp [Part.hasField, h part hmem, hne]

/-- An array has elements only. -/
theorem admits_array : Kind.array.Admits (allOf .element) := by
  refine ⟨nofun, ?_⟩
  intro w hmem
  exact ⟨sparse_append_allOf sparse_nil hmem rfl, trivial⟩

/-- An attribute that is called has a name and arguments. -/
theorem admits_attributeCall :
    Kind.attributeCall.Admits (labelled (some .name) * allOf .argument) := by
  constructor
  · intro h
    cases h
  rintro w ⟨_, ⟨name, -, rfl⟩, back, hback, rfl⟩
  constructor
  · exact sparse_append_allOf (by simp [Sparse, Field.isShared]) hback rfl
  · have hnone := countP_allOf .name hback (by decide)
    simp [Schema, Once, Part.hasField, hnone]

/-- An attribute with a colon has a name and one argument. -/
theorem admits_attributeKeyValue :
    Kind.attributeKeyValue.Admits (labelled (some .name) * labelled (some .argument)) := by
  refine ⟨nofun, ?_⟩
  rintro w ⟨_, ⟨name, -, rfl⟩, _, ⟨argument, -, rfl⟩, rfl⟩
  simp [Sparse, Schema, Once, Part.hasField, Field.isShared]

/-- A named argument has a name, and a value if there is a sign behind it. -/
theorem admits_attributeNamedParam :
    Kind.attributeNamedParam.Admits (labelled (some .name) * (1 + labelled (some .value))) := by
  refine ⟨nofun, ?_⟩
  rintro w ⟨_, ⟨name, -, rfl⟩, _, rfl | ⟨side, -, rfl⟩, rfl⟩ <;>
    simp [Sparse, Schema, Once, Part.hasField, Field.isShared]

/-- The two sides of an item, both of which are there. -/
def sides : Language Part := labelled (some .left) * labelled (some .right)

/-- Assignments and aliases have both sides. -/
theorem admits_sides {kind : Kind} (hkind : kind = .assignment ∨ kind = .aliasItem) :
    kind.Admits sides := by
  constructor
  · rcases hkind with rfl | rfl <;> exact nofun
  · rintro w ⟨_, ⟨left, -, rfl⟩, _, ⟨right, -, rfl⟩, rfl⟩
    rcases hkind with rfl | rfl <;>
      simp [Sparse, Schema, Once, Part.hasField, Field.isShared]

/-- A setting has its name on the left, and on the right a value or none. -/
theorem admits_setting :
    Kind.setting.Admits (atMost (some .left) * (1 + labelled (some .right))) := by
  refine ⟨nofun, ?_⟩
  rintro w ⟨_, rfl | ⟨left, rfl⟩, _, rfl | ⟨right, -, rfl⟩, rfl⟩ <;>
    simp [Sparse, Schema, Field.isShared]

end Node

namespace Grammar

open Justfile.Node (labelled one atMost allOf sides)

variable {rules : Rules} {s : State}

/-! ## Attributes -/

/-- A named argument of an attribute is one node with the field it is read for. -/
theorem namedArgument_fills (shapely : rules.Shapely) (wf : s.scanner.WellFormed)
    (hfront : s.front = .identifier) (field : Field) :
    Ensures s (namedArgument rules field) (Fills (labelled (some field)) s) := by
  rw [namedArgument]
  refine branch_labelled wf rfl rfl Node.admits_attributeNamedParam ?_
  intro before t passed
  apply Ensures.bind (bump_fills passed.wellFormed (passed.front.trans hfront) nofun rfl _)
  intro name u hname
  apply Ensures.isAtMark
  · intro hequals
    apply Ensures.bind (bump_fills hname.wellFormed hequals nofun rfl none)
    intro sign v hsign
    apply Ensures.bind (stringOr_fills shapely hsign.wellFormed _ _)
    intro value w hvalue
    exact (hname.append_one hsign.toShaped).append (hvalue.toShaped.mono le_add_self)
  · intro _
    exact hname.mono (by rw [mul_add, mul_one]; exact le_self_add)

/-- The argument of an attribute is one node with its field, or an error without one. -/
theorem attributeArgument_fills (shapely : rules.Shapely) (wf : s.scanner.WellFormed) :
    Ensures s (attributeArgument rules) (Fills (1 + labelled (some .argument)) s) := by
  rw [attributeArgument]
  apply Ensures.peek
  split
  · next hfront =>
    exact (string_fills shapely wf hfront _).mono fun _ _ h => h.mono le_add_self
  · next hfront =>
    exact (namedArgument_fills shapely wf hfront _).mono fun _ _ h => h.mono le_add_self
  · exact (errorToken_fills shapely wf none _).mono fun _ _ h => h.mono le_self_add

/-- The list of arguments has argument fields only, also where a comma or an argument is missing. -/
theorem attributeArgumentStep_turns (shapely : rules.Shapely) (wf : s.scanner.WellFormed) :
    Ensures s (attributeArgumentStep rules ())
      (Turns False (fun _ => allOf .argument) () s) := by
  have hdone : Turns False (fun _ => allOf .argument) () s ([], none) s :=
    .done ((Shaped.nil wf).mono (Node.one_le_allOf _)) not_false
  rw [attributeArgumentStep]
  apply Ensures.peek
  split
  · exact hdone
  · exact hdone
  · apply Ensures.bind (attributeArgument_fills shapely wf)
    intro argument t hargument
    apply Ensures.isAtMark
    · intro hfront
      apply Ensures.bind (bump_fills hargument.wellFormed hfront nofun rfl none)
      intro comma u hcomma
      exact .again_fills (hargument.append_one hcomma.toShaped) (Node.labelled_mul_allOf _)
    · intro _
      exact .done_fills (hargument.mono (Node.labelled_le_allOf _))

/-- An attribute is one node of the kind that the token behind its name tells. -/
theorem attributeEntry_fills (shapely : rules.Shapely) (wf : s.scanner.WellFormed)
    (hfront : s.front = .identifier) : Ensures s (attributeEntry rules) (Fills 1 s) := by
  have hname : ∀ {before : Forest} {t : State}, Passed s before t →
      Ensures t (bump (some .name)) fun nodes u =>
        Fills (labelled (some .name)) t nodes u ∧ u.front = (s.stream.nth 1).kind := by
    intro before t passed
    have hidentifier : t.front = .identifier := passed.front.trans hfront
    apply (bump_taken passed.wellFormed (by rw [hidentifier]; exact nofun) _).mono
    intro nodes u taken
    refine ⟨taken.mono (Node.one_le_labelled (by rw [hidentifier]; rfl) _), ?_⟩
    rw [taken.front, passed.nth]
  rw [attributeEntry]
  apply Ensures.peekAt
  split
  · next hparen =>
    refine branch_labelled wf rfl rfl Node.admits_attributeCall ?_
    intro before t passed
    apply Ensures.bind (hname passed)
    rintro name u ⟨hnamed, hnext⟩
    apply Ensures.bind (openBracket_fills hnamed.wellFormed (hnext.trans hparen) rfl)
    intro opened v hopened
    apply Ensures.bind
      (loop_shaped (fun _ _ => attributeArgumentStep_turns shapely) _ () hopened.wellFormed)
    intro arguments w harguments
    apply Ensures.bind (closeBracket_fills harguments.wellFormed rfl)
    intro closed x hclosed
    exact ((hnamed.append_one hopened.toShaped).append harguments).append_one hclosed.toShaped
  · next hcolon =>
    refine branch_labelled wf rfl rfl Node.admits_attributeKeyValue ?_
    intro before t passed
    apply Ensures.bind (hname passed)
    rintro name u ⟨hnamed, hnext⟩
    apply Ensures.bind (bump_fills hnamed.wellFormed (hnext.trans hcolon) nofun rfl none)
    intro colon v hcolon
    apply Ensures.bind (stringOr_fills shapely hcolon.wellFormed _ _)
    intro value w hvalue
    exact (hnamed.append_one hcolon.toShaped).append hvalue.toShaped
  · refine branch_labelled wf rfl rfl (Node.admits_labelled .name nofun fun _ => rfl) ?_
    intro before t passed
    exact (hname passed).mono fun _ _ h => h.1

/-- The attributes of a group are nodes without fields. -/
theorem attributeEntryStep_turns (shapely : rules.Shapely) (wf : s.scanner.WellFormed) :
    Ensures s (attributeEntryStep rules ()) (Turns False (fun _ => 1) () s) := by
  have hmissing : Ensures s (missing none .attributeName >>= done)
      (Turns False (fun (_ : Unit) => 1) () s) := by
    apply Ensures.bind (missing_fills wf none _)
    intro nodes t h
    exact .done_fills h
  have hafter : ∀ entry t, Fills 1 s entry t →
      Ensures t (do
        if ← isAtMark .comma then
          let comma ← bump
          again (entry ++ comma)
        else done entry) (Turns False (fun _ => 1) () s) := by
    intro entry t hentry
    apply Ensures.isAtMark
    · intro hfront
      apply Ensures.bind (bump_fills hentry.wellFormed hfront nofun rfl none)
      intro comma u hcomma
      exact .again_fills (hentry.append_one hcomma.toShaped) (one_mul 1).le
    · intro _
      exact .done_fills hentry
  rw [attributeEntryStep]
  apply Ensures.peek
  split
  · exact hmissing
  · exact hmissing
  · apply Ensures.join (P := Fills 1 s)
    · intro hfront
      exact attributeEntry_fills shapely wf hfront
    · intro _
      exact errorToken_fills shapely wf none _
    · exact hafter

/-- Attributes between brackets are one node. -/
theorem attributeGroup_fills (shapely : rules.Shapely) (wf : s.scanner.WellFormed)
    (hfront : s.front = .mark .bracketL) : Ensures s (attributeGroup rules) (Fills 1 s) := by
  rw [attributeGroup]
  refine branch_labelled wf rfl rfl (Node.admits_one nofun trivial) ?_
  intro before t passed
  apply Ensures.bind (openBracket_fills passed.wellFormed (passed.front.trans hfront) rfl)
  intro opened u hopened
  apply Ensures.bind
    (loop_shaped (fun _ _ => attributeEntryStep_turns shapely) _ () hopened.wellFormed)
  intro entries v hentries
  apply Ensures.bind (closeBracket_fills hentries.wellFormed rfl)
  intro closed w hclosed
  apply Ensures.bind (bumpIf_shaped hclosed.wellFormed .newline nofun rfl)
  rintro newline x ⟨hnewline, -⟩
  exact ((hopened.append_one hentries).append_one hclosed.toShaped).append_one hnewline

theorem attributesStep_turns (shapely : rules.Shapely) (attributed : Bool)
    (wf : s.scanner.WellFormed) :
    Ensures s (attributesStep rules attributed) (Turns False (fun _ => 1) attributed s) := by
  have hdone : Turns False (fun _ => 1) attributed s ([], none) s := .done (.nil wf) not_false
  rw [attributesStep]
  apply Ensures.isAtMark
  · intro hfront
    apply Ensures.bind (attributeGroup_fills shapely wf hfront)
    intro nodes t h
    exact .again_fills h (one_mul 1).le
  · intro _
    apply Ensures.isAt
    · intro hfront
      cases attributed with
      | false => exact hdone
      | true =>
        apply Ensures.bind (bump_fills wf hfront nofun rfl none)
        intro nodes t h
        exact .again_fills h (one_mul 1).le
    · intro _
      cases attributed <;> exact hdone

/-- The groups of attributes in front of an item are nodes without fields. -/
theorem attributes_shaped (shapely : rules.Shapely) (wf : s.scanner.WellFormed) :
    Ensures s (attributes rules) (Shaped 1 s) :=
  loop_shaped (fun attributed _ => attributesStep_turns shapely attributed) _ false wf

/-! ## Single items -/

section Items

variable {r : State} {adopted : Forest}

/-- An assignment is one node around the attributes in front of it. -/
theorem assignment_fills (shapely : rules.Shapely) (wf : s.scanner.WellFormed)
    (flush : r.stream.Flush) (hadopted : Shaped 1 r adopted s) :
    Ensures s (assignment rules adopted) (Fills 1 r) := by
  rw [assignment]
  refine enclose_fills flush hadopted rfl rfl (Node.admits_sides (.inl rfl)) ?_
  apply Ensures.bind (expectIdentifier_fills wf _ _)
  intro name t hname
  apply Ensures.bind (expectMark_fills hname.wellFormed rfl)
  intro sign u hsign
  apply Ensures.bind (shapely _ u hsign.wellFormed)
  intro value v hvalue
  apply Ensures.bind (lineEnd_shaped shapely hvalue.wellFormed)
  intro ending w hending
  exact ((hname.append_one hsign.toShaped).append hvalue.toShaped).append_one hending

/-- An exported or unexported name is one node around the attributes in front of it. -/
theorem exported_fills (shapely : rules.Shapely) (wf : s.scanner.WellFormed)
    (flush : r.stream.Flush) (hadopted : Shaped 1 r adopted s) {kind : Node.Kind}
    (hkind : kind = .exportItem ∨ kind = .unexportItem) (word : Keyword) :
    Ensures s (exported rules kind word adopted) (Fills 1 r) := by
  have htrivia : kind.isTrivia = false := by rcases hkind with rfl | rfl <;> rfl
  have hcounted : kind.isCounted = false := by rcases hkind with rfl | rfl <;> rfl
  have admits : kind.Admits 1 := by
    rcases hkind with rfl | rfl <;> exact Node.admits_one nofun trivial
  rw [exported]
  refine enclose_fills flush hadopted htrivia hcounted admits ?_
  apply Ensures.bind (bumpKeyword_shaped wf word)
  intro first t hfirst
  apply Ensures.bind (trivia_passed hfirst.wellFormed)
  intro before u passed
  apply Ensures.bind (assignment_fills shapely passed.wellFormed passed.flush (.nil passed.wellFormed))
  intro inner v hinner
  have hall := hfirst.one_append_fills (passed.append hinner)
  rw [← List.append_assoc] at hall
  exact hall

/-- An alias is one node with both names, also where one is missing. -/
theorem aliasItem_fills (shapely : rules.Shapely) (wf : s.scanner.WellFormed)
    (flush : r.stream.Flush) (hadopted : Shaped 1 r adopted s) :
    Ensures s (aliasItem rules adopted) (Fills 1 r) := by
  rw [aliasItem]
  refine enclose_fills flush hadopted rfl rfl (Node.admits_sides (.inr rfl)) ?_
  apply Ensures.bind (bumpKeyword_shaped wf _)
  intro word t hword
  apply Ensures.bind (expectIdentifier_fills hword.wellFormed _ _)
  intro name u hname
  apply Ensures.bind (expectMark_fills hname.wellFormed rfl)
  intro sign v hsign
  apply Ensures.isAt_join (P := Fills (labelled (some .right)) v)
  · intro hfront
    exact namePath_fills hsign.wellFormed hfront _
  · intro _
    exact missing_fills hsign.wellFormed _ _
  · intro target w htarget
    apply Ensures.bind (lineEnd_shaped shapely htarget.wellFormed)
    intro ending x hending
    have hnamed := (hword.one_append_fills hname).append_one hsign.toShaped
    exact (hnamed.append htarget.toShaped).append_one hending

/-- An import is one node with the path, also where it is missing. -/
theorem importItem_fills (shapely : rules.Shapely) (wf : s.scanner.WellFormed)
    (flush : r.stream.Flush) (hadopted : Shaped 1 r adopted s) :
    Ensures s (importItem rules adopted) (Fills 1 r) := by
  rw [importItem]
  refine enclose_fills flush hadopted rfl rfl (Node.admits_one nofun trivial) ?_
  apply Ensures.bind (bumpKeyword_shaped wf _)
  intro word t hword
  apply Ensures.bind (bumpIf_shaped hword.wellFormed (.mark .question) nofun rfl)
  rintro sign u ⟨hsign, -⟩
  apply Ensures.bind (stringOr_fills shapely hsign.wellFormed _ _)
  intro path v hpath
  apply Ensures.bind (lineEnd_shaped shapely hpath.wellFormed)
  intro ending w hending
  exact ((hword.one_append hsign).one_append_fills hpath).append_one hending

/-- A module has a path or none. -/
theorem modulePath_shaped (shapely : rules.Shapely) (wf : s.scanner.WellFormed) :
    Ensures s (modulePath rules) (Shaped 1 s) := by
  rw [modulePath]
  apply Ensures.peek
  split
  · next hfront => exact (string_fills shapely wf hfront none).mono fun _ _ h => h.toShaped
  · exact .nil wf

/-- A module is one node with its name and perhaps its path. -/
theorem moduleItem_fills (shapely : rules.Shapely) (wf : s.scanner.WellFormed)
    (flush : r.stream.Flush) (hadopted : Shaped 1 r adopted s) :
    Ensures s (moduleItem rules adopted) (Fills 1 r) := by
  rw [moduleItem]
  refine enclose_fills flush hadopted rfl rfl
    (Node.admits_labelled .name nofun fun _ => trivial) ?_
  apply Ensures.bind (bumpKeyword_shaped wf _)
  intro word t hword
  apply Ensures.bind (bumpIf_shaped hword.wellFormed (.mark .question) nofun rfl)
  rintro sign u ⟨hsign, -⟩
  apply Ensures.bind (expectIdentifier_fills hsign.wellFormed _ _)
  intro name v hname
  apply Ensures.bind (modulePath_shaped shapely hname.wellFormed)
  intro path w hpath
  apply Ensures.bind (lineEnd_shaped shapely hpath.wellFormed)
  intro ending x hending
  exact (((hword.one_append hsign).one_append_fills hname).append_one hpath).append_one hending

/-! ## Settings -/

/-- The elements of an array have the element field only, also where a comma is missing. -/
theorem arrayStep_turns (shapely : rules.Shapely) (wf : s.scanner.WellFormed) :
    Ensures s (arrayStep rules ()) (Turns False (fun _ => allOf .element) () s) := by
  have hdone : Turns False (fun _ => allOf .element) () s ([], none) s :=
    .done ((Shaped.nil wf).mono (Node.one_le_allOf _)) not_false
  have hafter : ∀ element t, Fills (1 + labelled (some .element)) s element t →
      Ensures t (do
        if ← isAtMark .comma then
          let comma ← bump
          again (element ++ comma)
        else if (← peek).isStringOpen then again element
        else done element) (Turns False (fun _ => allOf .element) () s) := by
    intro element t helement
    apply Ensures.isAtMark
    · intro hfront
      apply Ensures.bind (bump_fills helement.wellFormed hfront nofun rfl none)
      intro comma u hcomma
      exact .again_fills (helement.append_one hcomma.toShaped) (Node.labelled_mul_allOf _)
    · intro _
      apply Ensures.peek
      split
      · exact .again_fills helement (Node.labelled_mul_allOf _)
      · exact .done_fills (helement.mono (Node.labelled_le_allOf _))
  rw [arrayStep]
  apply Ensures.peek
  split
  · exact hdone
  · exact hdone
  · split
    · next hfront =>
      apply Ensures.bind (string_fills shapely wf hfront _)
      intro element t helement
      exact hafter element t (helement.mono le_add_self)
    · apply Ensures.bind (errorToken_fills shapely wf none _)
      intro element t helement
      exact hafter element t (helement.mono le_self_add)

/-- An array is one node with the field that it is read for. -/
theorem array_fills (shapely : rules.Shapely) (wf : s.scanner.WellFormed)
    (hfront : s.front = .mark .bracketL) (field : Field) :
    Ensures s (array rules field) (Fills (labelled (some field)) s) := by
  rw [array]
  refine branch_labelled wf rfl rfl Node.admits_array ?_
  intro before t passed
  apply Ensures.bind (openBracket_fills passed.wellFormed (passed.front.trans hfront) rfl)
  intro opened u hopened
  apply Ensures.bind (loop_shaped (fun _ _ => arrayStep_turns shapely) _ () hopened.wellFormed)
  intro elements v helements
  apply Ensures.bind (closeBracket_fills helements.wellFormed rfl)
  intro closed w hclosed
  exact (hopened.one_append helements).append_one hclosed.toShaped

/-- A truth value is one node with the field that it is read for. -/
theorem boolean_fills (wf : s.scanner.WellFormed) (hfront : s.front = .identifier)
    (field : Field) : Ensures s (boolean field) (Fills (labelled (some field)) s) := by
  rw [boolean]
  refine branch_labelled wf rfl rfl (Node.admits_one nofun trivial) ?_
  intro before t passed
  have hne : t.front ≠ .endOfInput := by
    rw [passed.front, hfront]
    exact nofun
  apply Ensures.isKeywordAt
  · intro _
    exact bumpKeyword_fills passed.wellFormed hne _
  · exact bumpKeyword_fills passed.wellFormed hne _

/-- The value of a setting is one node on the right, or an error without a field. -/
theorem settingValue_fills (shapely : rules.Shapely) (wf : s.scanner.WellFormed)
    (arrayOnly : Bool) :
    Ensures s (settingValue rules arrayOnly) (Fills (1 + labelled (some .right)) s) := by
  have hwrapped : ∀ expected, Ensures s (recoverLine rules expected)
      (Fills (1 + labelled (some .right)) s) := by
    intro expected
    exact (recoverLine_fills shapely wf expected).mono fun _ _ h => h.mono le_self_add
  rw [settingValue]
  apply Ensures.peek
  split
  · next hfront => exact (array_fills shapely wf hfront _).mono fun _ _ h => h.mono le_add_self
  · split
    · exact hwrapped _
    · split
      · next hfront =>
        exact (string_fills shapely wf hfront _).mono fun _ _ h => h.mono le_add_self
      · have hboolean : (s.stream.nth 0).kind = .identifier →
            Ensures s (boolean .right) (Fills (1 + labelled (some .right)) s) := by
          intro hfront
          exact (boolean_fills wf hfront _).mono fun _ _ h => h.mono le_add_self
        apply Ensures.isKeywordAt
        · intro hword
          apply Ensures.isKeywordAt
          · intro _
            exact hboolean hword
          · exact hboolean hword
        · apply Ensures.isKeywordAt
          · intro hword
            exact hboolean hword
          · exact hwrapped _

/-- A setting is one node with its name, and its value if there is a sign behind the name. -/
theorem setting_fills (shapely : rules.Shapely) (wf : s.scanner.WellFormed)
    (hfront : s.front = .identifier) (flush : r.stream.Flush) (hadopted : Shaped 1 r adopted s) :
    Ensures s (setting rules adopted) (Fills 1 r) := by
  rw [setting]
  refine enclose_fills flush hadopted rfl rfl Node.admits_setting ?_
  apply Ensures.bind (bumpKeyword_fills wf (by rw [hfront]; exact nofun) _)
  intro word t hword
  apply Ensures.peekToken
  apply Ensures.bind (bump_shaped hword.wellFormed _)
  intro name u hname
  have hend : ∀ value v, Shaped (1 + labelled (some .right)) u value v →
      Ensures v (lineEnd rules >>= fun ending => pure (word ++ name ++ value ++ ending))
        (Fills (atMost (some .left) * (1 + labelled (some .right))) s) := by
    intro value v hvalue
    apply Ensures.bind (lineEnd_shaped shapely hvalue.wellFormed)
    intro ending w hending
    exact ((hword.one_append hname).append hvalue).append_one hending
  apply Ensures.isAtMark
  · intro hsign
    apply Ensures.bind (bump_fills hname.wellFormed hsign nofun rfl none)
    intro sign v hsign
    apply Ensures.bind (settingValue_fills shapely hsign.wellFormed _)
    intro nodes w hnodes
    exact hend _ w (hsign.one_append hnodes.toShaped).toShaped
  · intro _
    exact hend [] u ((Shaped.nil hname.wellFormed).mono le_self_add)

/-! ## All items -/

/-- Whatever item the tokens in front announce, it is one node around its attributes. -/
theorem itemOfKind_fills (shapely : rules.Shapely) (wf : s.scanner.WellFormed) {kind : ItemKind}
    (hstarts : kind.Starts s) (flush : r.stream.Flush) (hadopted : Shaped 1 r adopted s) :
    Ensures s (itemOfKind rules kind adopted) (Fills 1 r) := by
  cases kind with
  | aliasItem => exact aliasItem_fills shapely wf flush hadopted
  | assignment => exact assignment_fills shapely wf flush hadopted
  | exportItem => exact exported_fills shapely wf flush hadopted (.inl rfl) _
  | unexportItem => exact exported_fills shapely wf flush hadopted (.inr rfl) _
  | importItem => exact importItem_fills shapely wf flush hadopted
  | moduleItem => exact moduleItem_fills shapely wf flush hadopted
  | setting =>
    have hfront : s.front = .identifier := hstarts.first.resolve_right fun h => nomatch h.1
    exact setting_fills shapely wf hfront flush hadopted
  | recipe => exact recipe_fills shapely wf flush hadopted

/-- Where no item starts, attributes without one are followed by an error. -/
theorem noItem_fills (shapely : rules.Shapely) (wf : s.scanner.WellFormed)
    (hadopted : Shaped 1 r adopted s) : Ensures s (noItem rules adopted) (Fills 1 r) := by
  rw [noItem]
  split
  · next hempty =>
    have hnil : adopted = [] := List.isEmpty_iff.1 hempty
    subst hnil
    apply Ensures.bind (recoverLine_fills shapely wf _)
    intro wrapped t hwrapped
    apply Ensures.bind (bumpIf_shaped hwrapped.wellFormed .newline nofun rfl)
    rintro newline u ⟨hnewline, -⟩
    exact (hadopted.one_append_fills hwrapped).append_one hnewline
  · apply Ensures.bind (recoverLine_fills shapely wf _)
    intro wrapped t hwrapped
    exact hadopted.one_append_fills hwrapped

end Items

/-- Attributes with the item behind them are one node, or an error where no item follows. -/
theorem attributedItem_fills (shapely : rules.Shapely) (wf : s.scanner.WellFormed) :
    Ensures s (attributedItem rules) (Fills 1 s) := by
  rw [attributedItem]
  apply Ensures.bind (trivia_passed wf)
  intro before r passed
  apply Ensures.bind (attributes_shaped shapely passed.wellFormed)
  intro adopted t hadopted
  apply Ensures.peekToken
  apply Ensures.peekAt
  apply Ensures.peekAt
  dsimp only
  split
  · next kind hkind =>
    apply Ensures.bind (itemOfKind_fills shapely hadopted.wellFormed
      (ItemKind.starts_of_detect? hkind) passed.flush hadopted)
    intro nodes u h
    exact passed.append h
  · apply Ensures.bind (noItem_fills shapely hadopted.wellFormed hadopted)
    intro nodes u h
    exact passed.append h

/-- **Every item of a file is a node without a field**, and one is made for every call. -/
theorem item_fills (shapely : rules.Shapely) (wf : s.scanner.WellFormed) :
    Ensures s (item rules) (Fills 1 s) := by
  rw [item]
  apply Ensures.peek
  split
  · next hfront => exact bump_fills wf hfront nofun rfl none
  · next hfront => exact bump_fills wf hfront nofun rfl none
  · next hfront => exact bump_fills wf hfront nofun rfl none
  · next hfront => exact bump_fills wf hfront nofun rfl none
  · exact attributedItem_fills shapely wf

/-! ## Files -/

/-- A shebang is a node without a field, or nothing. -/
theorem fileShebang_shaped (shapely : rules.Shapely) (wf : s.scanner.WellFormed) :
    Ensures s (fileShebang rules) (Shaped 1 s) := by
  rw [fileShebang]
  apply Ensures.isAt
  · intro hfront
    apply Ensures.bind (shebang_fills wf hfront none)
    intro line t hline
    apply Ensures.bind (lineEnd_shaped shapely hline.wellFormed)
    intro ending u hending
    exact (hline.append_one hending).toShaped
  · intro _
    exact .nil wf

/-- The items of a file have no fields. -/
theorem fileStep_turns (shapely : rules.Shapely) (wf : s.scanner.WellFormed) :
    Ensures s (fileStep rules ()) (Turns False (fun _ => 1) () s) := by
  rw [fileStep]
  apply Ensures.isAt
  · intro _
    exact .done (.nil wf) not_false
  · intro _
    apply Ensures.bind (item_fills shapely wf)
    intro nodes t h
    exact .again_fills h (one_mul 1).le

/-- The nodes of a file, behind which trivia may stand. -/
theorem file_conforms (shapely : rules.Shapely) (wf : s.scanner.WellFormed) :
    Ensures s (file rules) fun nodes t => t.exhausted = false →
      (∀ node ∈ Node.preorderList nodes, node.Conforms) ∧ Node.word nodes = [] := by
  rw [file]
  apply Ensures.bind (fileShebang_shaped shapely wf)
  intro first t hfirst
  apply Ensures.bind (loop_shaped (fun _ _ => fileStep_turns shapely) _ () hfirst.wellFormed)
  intro items u hitems
  apply Ensures.bind (trivia_passed hitems.wellFormed)
  intro last v passed
  have hall := hfirst.append_one hitems
  intro hrun
  have hshape := hall.shape (passed.exhausted ▸ hrun)
  change (∀ node ∈ Node.preorderList (first ++ items ++ last), node.Conforms) ∧
    Node.word (first ++ items ++ last) = []
  constructor
  · intro node hmem
    rw [Node.preorderList_append] at hmem
    rcases List.mem_append.1 hmem with hmem | hmem
    · exact hshape.conforms node hmem
    · exact passed.conforms node hmem
  · rw [Node.word_append, passed.word, List.append_nil]
    exact hshape.word

/-- The nodes of a source: no budget runs out, whatever the source is. -/
theorem run_conforms (limit : Nat) (source : Text) :
    (∀ node ∈ Node.preorderList (run limit source).1, node.Conforms) ∧
      Node.word (run limit source).1 = [] := by
  have hfile : Ensures (.ofText source) (file (.tie limit (budgetFor source.length))) _ :=
    file_conforms (shapely_tie limit _) (Scanner.wellFormed_ofText source)
  have hrun := exhausted_run limit source
  unfold Ensures at hfile
  rw [run_eq] at hrun ⊢
  exact hfile hrun

end Grammar

end Justfile
