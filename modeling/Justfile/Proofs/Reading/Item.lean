import Justfile.Proofs.Reading.Recipe

/-!
# Reading items

Items follow the rules of derivations, around the attributes in front of them. Every item consumes
something: it starts with the token that shows which one it is, and a line that starts none is
wrapped.
-/

set_option autoImplicit false

namespace Justfile.Grammar

variable {rules : Rules} {bound base height : Nat} {s : State}

/-! ## Attributes -/

theorem namedArgument_spec (place : Place) (serves : Serves rules bound)
    (entry : Entry rules.limit (bound + 1) base s) (hfront : s.front = .identifier)
    (hle : base + 4 ≤ height) (field : Field) :
    Ensures s (namedArgument rules field) (Reads True place height s) := by
  unfold namedArgument
  refine branch_reads (base + 3) entry rfl (by omega) ?_
  intro before t trimmed hentry
  have hpos : 0 < base + 3 := by omega
  refine (bump_spec place.below hentry.wellFormed (trimmed.front ▸ hfront) rfl _).bind ?_
  intro name u hnamed
  have hname := hnamed.outcome hpos
  have hu := hentry.after hname.toRan
  refine Ensures.isAtMark ?_ ?_
  · intro hequals
    refine (bump_spec place.below hu.wellFormed hequals rfl none).bind ?_
    intro sign v hsigned
    have hsign := hsigned.outcome hpos
    have hv := hu.after hsign.toRan
    have hcredit : base + 3 ≤ base + 3 + place.below.credit := by omega
    refine (stringOr_spec place.below serves hv.toAffords hcredit (by omega) _ _).bind ?_
    intro value w hvalue
    exact ((hnamed.reads hpos).append hsign).append hvalue
  · intro _
    exact hnamed.reads hpos

theorem attributeArgument_spec (place : Place) (serves : Serves rules bound)
    (entry : Entry rules.limit (bound + 1) base s) (hne : s.front ≠ .endOfInput)
    (hle : base + 4 ≤ height) :
    Ensures s (attributeArgument rules) (Reads True place height s) := by
  unfold attributeArgument
  refine Ensures.peek ?_
  split
  · next hfront =>
    exact string_spec place serves entry.toAffords hfront (by omega) (by omega) _
  · next hfront => exact namedArgument_spec place serves entry hfront hle _
  · exact errorToken_spec place serves entry hne (by omega) none _

theorem attributeArgumentStep_spec (place : Place) (serves : Serves rules bound)
    (entry : Entry rules.limit (bound + 1) base s) (hle : base + 4 ≤ height) :
    Ensures s (attributeArgumentStep rules ())
      (Iterates (fun _ => Entry rules.limit (bound + 1) base) place height s) := by
  have hpos : 0 < height := by omega
  unfold attributeArgumentStep
  refine Ensures.peek ?_
  split
  · exact .done (.nil place height s)
  · exact .done (.nil place height s)
  · next hparen hend =>
    refine (attributeArgument_spec place serves entry hend hle).bind ?_
    intro argument t hargument
    have ht := entry.after hargument.toRan
    refine Ensures.isAtMark ?_ ?_
    · intro hcomma
      refine (bump_spec place ht.wellFormed hcomma rfl none).bind ?_
      intro comma u bumped
      have hreads := hargument.append (bumped.outcome hpos)
      exact .again hreads (entry.after hreads.toRan)
    · intro _
      exact .done hargument.toOutcome

theorem attributeEntry_spec (place : Place) (serves : Serves rules bound)
    (entry : Entry rules.limit (bound + 1) base s) (hfront : s.front = .identifier)
    (hle : base + 5 ≤ height) :
    Ensures s (attributeEntry rules) (Reads True place height s) := by
  have hpos : 0 < base + 4 := by omega
  unfold attributeEntry
  refine Ensures.peekAt ?_
  -- The token behind the name tells whether arguments, one value or nothing follows.
  split
  · next hnext =>
    refine branch_reads (base + 4) entry rfl (by omega) ?_
    intro before t trimmed hentry
    refine (bump_spec place.below hentry.wellFormed (trimmed.front ▸ hfront) rfl _).bind ?_
    intro name u hnamed
    have hu := hentry.bumped hnamed
    have hparen : u.front = .mark .parenL := by
      rw [hnamed.front, trimmed.nth, hnext]
    refine (openBracket_spec place.below hu.wellFormed hparen).bind ?_
    intro opened v hopened
    have hv := (hu.weaken.opened hopened).weaken
    refine (loop_outcome
      (fun _ w hw => attributeArgumentStep_spec place.below serves hw (Nat.le_refl _)) hv
      (serves.work_lt hv.toAffords)).bind ?_
    intro arguments w harguments
    refine (closeBracket_spec place.below (hv.after harguments.toRan).wellFormed hpos _).bind ?_
    intro closed x hclosed
    have hall := (hnamed.reads hpos (c := True)).append
      (hopened.bracketed harguments hclosed hpos (c := True)).toOutcome
    rw [← List.append_assoc, ← List.append_assoc] at hall
    exact hall
  · next hnext =>
    refine branch_reads (base + 4) entry rfl (by omega) ?_
    intro before t trimmed hentry
    refine (bump_spec place.below hentry.wellFormed (trimmed.front ▸ hfront) rfl _).bind ?_
    intro name u hnamed
    have hu := hentry.after (hnamed.outcome hpos).toRan
    have hcolon : u.front = .mark .colon := by
      rw [hnamed.front, trimmed.nth, hnext]
    refine (bump_spec place.below hu.wellFormed hcolon rfl none).bind ?_
    intro colon v bumped
    have hv := hu.after (bumped.outcome hpos).toRan
    have hcredit : base + 3 ≤ base + 4 + place.below.credit := by omega
    refine (stringOr_spec place.below serves hv.toAffords hcredit (by omega) _ _).bind ?_
    intro value w hvalue
    exact ((hnamed.reads hpos).append (bumped.outcome hpos)).append hvalue
  · refine branch_reads (base + 4) entry rfl (by omega) ?_
    intro before t trimmed hentry
    refine (bump_spec place.below hentry.wellFormed (trimmed.front ▸ hfront) rfl _).mono ?_
    intro name u hnamed
    exact hnamed.reads hpos

theorem attributeEntryStep_spec (place : Place) (serves : Serves rules bound)
    (entry : Entry rules.limit (bound + 1) base s) (hle : base + 5 ≤ height) :
    Ensures s (attributeEntryStep rules ())
      (Iterates (fun _ => Entry rules.limit (bound + 1) base) place height s) := by
  have hpos : 0 < height := by omega
  have hmissing : Ensures s (missing none .attributeName >>= done)
      (Iterates (fun (_ : Unit) => Entry rules.limit (bound + 1) base) place height s) := by
    refine (missing_spec place s hpos none _).bind ?_
    intro nodes t houtcome
    exact .done houtcome
  unfold attributeEntryStep
  refine Ensures.peek ?_
  split
  · exact hmissing
  · exact hmissing
  · next hbracket hend =>
    refine Ensures.join (P := Reads True place height s) ?_ ?_ ?_
    · intro hfront
      exact attributeEntry_spec place serves entry hfront hle
    · intro _
      exact errorToken_spec place serves entry hend (by omega) none _
    · intro nodes t hnodes
      have ht := entry.after hnodes.toRan
      refine Ensures.isAtMark ?_ ?_
      · intro hcomma
        refine (bump_spec place ht.wellFormed hcomma rfl none).bind ?_
        intro comma u bumped
        have hreads := hnodes.append (bumped.outcome hpos)
        exact .again hreads (entry.after hreads.toRan)
      · intro _
        exact .done hnodes.toOutcome

/-- A node is always there, whatever is in it. -/
theorem branch_ne_nil (s : State) (field : Option Field) (kind : Node.Kind) (body : Parse Forest) :
    Ensures s (branch field kind body) fun nodes _ => nodes ≠ [] :=
  List.append_ne_nil_of_right_ne_nil _ nofun

theorem attributeGroup_spec (place : Place) (serves : Serves rules bound)
    (entry : Entry rules.limit (bound + 1) base s) (hfront : s.front = .mark .bracketL)
    (hle : base + 6 ≤ height) :
    Ensures s (attributeGroup rules) fun nodes t =>
      Reads True place height s nodes t ∧ nodes ≠ [] := by
  refine ⟨?_, branch_ne_nil s none .attributeGroup _⟩
  refine branch_reads (base + 5) entry rfl (by omega) ?_
  intro before t trimmed hentry
  have hpos : 0 < base + 5 := by omega
  refine (openBracket_spec place.below hentry.wellFormed (trimmed.front ▸ hfront)).bind ?_
  intro opened u hopened
  have hu := (hentry.opened hopened).weaken
  refine (loop_outcome
    (fun _ v hv => attributeEntryStep_spec place.below serves hv (Nat.le_refl _)) hu
    (serves.work_lt hu.toAffords)).bind ?_
  intro entries v hentries
  refine (closeBracket_spec place.below (hu.after hentries.toRan).wellFormed hpos _).bind ?_
  intro closed w hclosed
  have hall := hopened.bracketed hentries hclosed hpos (c := True)
  refine (bumpIf_spec place.below (hentry.after hall.toRan).wellFormed rfl hpos).bind ?_
  rintro newline x ⟨hnewline, -⟩
  exact hall.append hnewline.toOutcome

/-- The attributes in front of an item have been read: there is none, and nothing has changed, or
something has been consumed. -/
structure Attributed (place : Place) (height : Nat) (s : State) (nodes : Forest) (t : State) : Prop
    extends Reads (nodes ≠ []) place height s nodes t where
  idle : nodes = [] → t = s

theorem attributesStep_spec (place : Place) (serves : Serves rules bound)
    (entry : Entry rules.limit (bound + 1) base s) (hle : base + 6 ≤ height) (attributed : Bool) :
    Ensures s (attributesStep rules attributed)
      (Steps (fun _ => Entry rules.limit (bound + 1) base) (fun _ => Attributed place height)
        attributed s) := by
  have hpos : 0 < height := by omega
  have hagain : ∀ nodes t, Reads True place height s nodes t → nodes ≠ [] →
      Steps (fun (_ : Bool) => Entry rules.limit (bound + 1) base)
        (fun _ => Attributed place height) attributed s (nodes, some true) t := by
    intro nodes t hreads hne
    refine ⟨entry.after hreads.toRan, hreads.work_lt trivial, ?_⟩
    intro more u hmore
    refine ⟨⟨hreads.toOutcome.append hmore.toOutcome, ?_⟩, ?_⟩
    · intro _
      exact Nat.lt_of_le_of_lt hmore.work_le (hreads.work_lt trivial)
    · intro hnil
      exact absurd (List.append_eq_nil_iff.1 hnil).1 hne
  have hdone : Steps (fun (_ : Bool) => Entry rules.limit (bound + 1) base)
      (fun _ => Attributed place height) attributed s ([], none) s :=
    ⟨⟨.nil place height s, fun hne => absurd rfl hne⟩, fun _ => rfl⟩
  unfold attributesStep
  refine Ensures.isAtMark ?_ ?_
  · intro hfront
    refine (attributeGroup_spec place serves entry hfront hle).bind ?_
    rintro nodes t ⟨hreads, hne⟩
    exact hagain nodes t hreads hne
  · intro _
    refine Ensures.isAt ?_ ?_
    · intro hfront
      cases attributed with
      | false => exact hdone
      | true =>
        refine (bump_spec place entry.wellFormed hfront rfl none).bind ?_
        intro nodes t bumped
        exact hagain nodes t (bumped.reads hpos) bumped.ne_nil
    · intro _
      cases attributed <;> exact hdone

theorem attributes_spec (place : Place) (serves : Serves rules bound)
    (entry : Entry rules.limit (bound + 1) base s) (hle : base + 6 ≤ height) :
    Ensures s (attributes rules) (Attributed place height s) :=
  loop_spec (Q := fun _ => Attributed place height)
    (fun attributed _ hentry => attributesStep_spec place serves hentry hle attributed) entry
    (serves.work_lt entry.toAffords)

/-! ## Single items -/

section Items

variable {place : Place} (hplace : place.below = place) {r : State} {adopted : Forest}

include hplace

theorem assignment_spec (serves : Serves rules bound)
    (entry : Entry rules.limit (bound + 1) base s) (hfront : s.front = .identifier) {inner : Nat}
    (hadopted : Ran place inner r adopted s) (hle : base ≤ inner) (hlt : inner < height) :
    Ensures s (assignment rules adopted) fun nodes t =>
      Ran place height r nodes t ∧ t.scanner.work < s.scanner.work := by
  have hpos : 0 < inner := Nat.lt_of_lt_of_le (Nat.lt_of_lt_of_le (by decide) entry.four_le) hle
  unfold assignment
  refine enclose_spec inner hplace hadopted rfl hlt ?_
  refine (expectIdentifier_spec place entry.wellFormed hpos _ _).bind ?_
  intro name t hname
  have hwork := hname.work_lt hfront
  have ht := entry.lower hname.toRan hwork
  refine (expectMark_spec place ht.wellFormed hpos _).bind ?_
  intro sign u hsign
  have hu := ht.after hsign.toRan
  refine (serves.expression hu place hle _).bind ?_
  intro value v hvalue
  have hv := hu.after hvalue.toRan
  refine (lineEnd_spec place serves hv.weaken hle).bind ?_
  intro ending w hending
  have hrest := (hsign.append hvalue.toOutcome).append hending
  refine ⟨(((hname.toOutcome.append hsign).append hvalue.toOutcome).append hending).toRan, ?_⟩
  exact Nat.lt_of_le_of_lt hrest.work_le hwork

theorem exported_spec (serves : Serves rules bound)
    (entry : Entry rules.limit (bound + 1) base s) (hfront : s.front = .identifier)
    (hname : (s.stream.nth 1).kind = .identifier) {kind : Node.Kind} (hkind : kind.isGroup = true)
    (word : Keyword) (hadopted : Ran place (base + 9) r adopted s) (hle : base + 10 ≤ height) :
    Ensures s (exported rules kind word adopted) fun nodes t =>
      Ran place height r nodes t ∧ t.scanner.work < s.scanner.work := by
  have hpos : 0 < base + 9 := by omega
  unfold exported
  refine enclose_spec (base + 9) hplace hadopted hkind (by omega) ?_
  refine (bumpKeyword_spec place entry.wellFormed hfront word).bind ?_
  intro first t hfirst
  have ht := entry.after (hfirst.outcome hpos).toRan
  refine (trivia_spec ht.wellFormed).bind ?_
  intro before u trimmed
  have hbefore := trimmed.outcome place hpos
  have hu := ht.after hbefore.toRan
  have hnext : u.front = .identifier := by
    rw [trimmed.front, hfirst.front, hname]
  have hnil := (Outcome.nil place (base + 8) u).toRan
  refine (assignment_spec hplace serves hu hnext hnil (by omega)
    (Nat.lt_succ_self (base + 8))).bind ?_
  rintro inner v ⟨hinner, -⟩
  refine ⟨((hfirst.outcome hpos).append hbefore).toRan.append hinner, ?_⟩
  exact Nat.lt_of_le_of_lt (Nat.le_trans hinner.work_le hbefore.work_le) hfirst.work_lt

theorem aliasItem_spec (serves : Serves rules bound)
    (entry : Entry rules.limit (bound + 1) base s) (hfront : s.front = .identifier)
    (hadopted : Ran place (base + 9) r adopted s) (hle : base + 10 ≤ height) :
    Ensures s (aliasItem rules adopted) fun nodes t =>
      Ran place height r nodes t ∧ t.scanner.work < s.scanner.work := by
  have hpos : 0 < base + 9 := by omega
  unfold aliasItem
  refine enclose_spec (base + 9) hplace hadopted rfl (by omega) ?_
  refine (bumpKeyword_spec place entry.wellFormed hfront _).bind ?_
  intro word t hword
  have ht := entry.after (hword.outcome hpos).toRan
  refine (expectIdentifier_spec place ht.wellFormed hpos _ _).bind ?_
  intro name u hname
  have hu := ht.after hname.toRan
  refine (expectMark_spec place hu.wellFormed hpos _).bind ?_
  intro sign v hsign
  have hv := hu.after hsign.toRan
  refine Ensures.isAt_join (P := Outcome place (base + 9) v) ?_ ?_ ?_
  · intro htarget
    exact Ensures.toOutcome (namePath_spec place serves hv htarget (by omega) _)
  · intro _
    exact missing_spec place v hpos _ _
  · intro target w htarget
    have hw := hv.after htarget.toRan
    refine (lineEnd_spec place serves hw (Nat.le_add_right base 9)).bind ?_
    intro ending x hending
    have hall := ((((hword.reads hpos (c := True)).append hname.toOutcome).append hsign).append
      htarget).append hending
    exact ⟨hall.toRan, hall.work_lt trivial⟩

theorem importItem_spec (serves : Serves rules bound)
    (entry : Entry rules.limit (bound + 1) base s) (hfront : s.front = .identifier)
    (hadopted : Ran place (base + 9) r adopted s) (hle : base + 10 ≤ height) :
    Ensures s (importItem rules adopted) fun nodes t =>
      Ran place height r nodes t ∧ t.scanner.work < s.scanner.work := by
  have hpos : 0 < base + 9 := by omega
  have hcredit : base + 3 ≤ base + 9 + place.credit := by omega
  unfold importItem
  refine enclose_spec (base + 9) hplace hadopted rfl (by omega) ?_
  refine (bumpKeyword_spec place entry.wellFormed hfront _).bind ?_
  intro word t hword
  have ht := entry.after (hword.outcome hpos).toRan
  refine (bumpIf_spec place ht.wellFormed rfl hpos).bind ?_
  rintro sign u ⟨hsign, -⟩
  have hu := ht.after hsign.toRan
  refine (stringOr_spec place serves hu.toAffords hcredit (by omega) _ _).bind ?_
  intro path v hpath
  have hv := hu.after hpath.toRan
  refine (lineEnd_spec place serves hv (Nat.le_add_right base 9)).bind ?_
  intro ending w hending
  have hall := (((hword.reads hpos (c := True)).append hsign.toOutcome).append hpath).append hending
  exact ⟨hall.toRan, hall.work_lt trivial⟩

theorem moduleItem_spec (serves : Serves rules bound)
    (entry : Entry rules.limit (bound + 1) base s) (hfront : s.front = .identifier)
    (hadopted : Ran place (base + 9) r adopted s) (hle : base + 10 ≤ height) :
    Ensures s (moduleItem rules adopted) fun nodes t =>
      Ran place height r nodes t ∧ t.scanner.work < s.scanner.work := by
  have hpos : 0 < base + 9 := by omega
  unfold moduleItem
  refine enclose_spec (base + 9) hplace hadopted rfl (by omega) ?_
  refine (bumpKeyword_spec place entry.wellFormed hfront _).bind ?_
  intro word t hword
  have ht := entry.after (hword.outcome hpos).toRan
  refine (bumpIf_spec place ht.wellFormed rfl hpos).bind ?_
  rintro sign u ⟨hsign, -⟩
  have hu := ht.after hsign.toRan
  refine (expectIdentifier_spec place hu.wellFormed hpos _ _).bind ?_
  intro name v hname
  have hv := hu.after hname.toRan
  refine Ensures.bind (P := Outcome place (base + 9) v) ?_ ?_
  · unfold modulePath
    refine Ensures.peek ?_
    split
    · next hpath =>
      exact Ensures.toOutcome
        (string_spec place serves hv.toAffords hpath (by omega) (by omega) none)
    · exact .nil place (base + 9) v
  · intro path w hpath
    have hw := hv.after hpath.toRan
    refine (lineEnd_spec place serves hw (Nat.le_add_right base 9)).bind ?_
    intro ending x hending
    have hall := ((((hword.reads hpos (c := True)).append hsign.toOutcome).append
      hname.toOutcome).append hpath).append hending
    exact ⟨hall.toRan, hall.work_lt trivial⟩

end Items

/-! ## Settings -/

theorem arrayStep_spec (place : Place) (serves : Serves rules bound)
    (entry : Entry rules.limit (bound + 1) base s) (hle : base + 3 ≤ height) :
    Ensures s (arrayStep rules ())
      (Iterates (fun _ => Entry rules.limit (bound + 1) base) place height s) := by
  have hpos : 0 < height := by omega
  unfold arrayStep
  refine Ensures.peek ?_
  split
  · exact .done (.nil place height s)
  · exact .done (.nil place height s)
  · next hbracket hend =>
    have hgoOn : ∀ element t, Reads True place height s element t →
        Ensures t (do
          if ← isAtMark .comma then
            let comma ← bump
            again (element ++ comma)
          else if (← peek).isStringOpen then again element
          else done element)
          (Iterates (fun _ => Entry rules.limit (bound + 1) base) place height s) := by
      intro element t helement
      have ht := entry.after helement.toRan
      refine Ensures.isAtMark ?_ ?_
      · intro hcomma
        refine (bump_spec place ht.wellFormed hcomma rfl none).bind ?_
        intro comma u bumped
        have hreads := helement.append (bumped.outcome hpos)
        exact .again hreads (entry.after hreads.toRan)
      · intro _
        refine Ensures.peek ?_
        split
        · exact .again helement ht
        · exact .done helement.toOutcome
    split
    · next hfront =>
      exact (string_spec place serves entry.toAffords hfront (by omega) (by omega) _).bind hgoOn
    · exact (errorToken_spec place serves entry hend (by omega) none _).bind hgoOn

theorem array_spec (place : Place) (serves : Serves rules bound)
    (entry : Entry rules.limit (bound + 1) base s) (hfront : s.front = .mark .bracketL)
    (hle : base + 4 ≤ height) (field : Field) :
    Ensures s (array rules field) (Reads True place height s) := by
  unfold array
  refine branch_reads (base + 3) entry rfl (by omega) ?_
  intro before t trimmed hentry
  have hpos : 0 < base + 3 := by omega
  refine (openBracket_spec place.below hentry.wellFormed (trimmed.front ▸ hfront)).bind ?_
  intro opened u hopened
  have hu := (hentry.opened hopened).weaken
  refine (loop_outcome (fun _ v hv => arrayStep_spec place.below serves hv (Nat.le_refl _)) hu
    (serves.work_lt hu.toAffords)).bind ?_
  intro elements v helements
  refine (closeBracket_spec place.below (hu.after helements.toRan).wellFormed hpos _).bind ?_
  intro closed w hclosed
  exact hopened.bracketed helements hclosed hpos

theorem boolean_spec (place : Place) {limit : Nat} (entry : Entry limit bound base s)
    (hfront : s.front = .identifier) (hlt : 1 < height) (field : Field) :
    Ensures s (boolean field) (Outcome place height s) := by
  unfold boolean
  refine branch_spec 1 entry rfl hlt ?_
  intro before t trimmed hentry
  have hword : ∀ word, Ensures t (bumpKeyword word) (Outcome place.below 1 t) := by
    intro word
    refine (bumpKeyword_spec place.below hentry.wellFormed (trimmed.front ▸ hfront) word).mono ?_
    intro nodes u bumped
    exact bumped.outcome Nat.one_pos
  exact Ensures.isKeywordAt (fun _ => hword _) (hword _)

theorem settingValue_spec (place : Place) (serves : Serves rules bound)
    (entry : Entry rules.limit (bound + 1) base s) (hle : base + 4 ≤ height) (arrayOnly : Bool) :
    Ensures s (settingValue rules arrayOnly) (Outcome place height s) := by
  have hrecover : ∀ expected,
      Ensures s (recoverLine rules expected) (Outcome place height s) := by
    intro expected
    exact Ensures.toOutcome (recoverLine_spec place serves entry (by omega) expected)
  unfold settingValue
  refine Ensures.peek ?_
  split
  · next hfront => exact Ensures.toOutcome (array_spec place serves entry hfront hle _)
  · split
    · exact hrecover _
    · split
      · next hfront =>
        exact Ensures.toOutcome
          (string_spec place serves entry.toAffords hfront (by omega) (by omega) _)
      · refine Ensures.isKeywordAt ?_ ?_
        · intro hfront
          refine Ensures.isKeywordAt ?_ ?_
          · intro _
            exact boolean_spec place entry hfront (by omega) _
          · exact boolean_spec place entry hfront (by omega) _
        · refine Ensures.isKeywordAt ?_ (hrecover _)
          intro hfront
          exact boolean_spec place entry hfront (by omega) _

theorem setting_spec {place : Place} (hplace : place.below = place) (serves : Serves rules bound)
    (entry : Entry rules.limit (bound + 1) base s) (hfront : s.front = .identifier)
    (hname : (s.stream.nth 1).kind = .identifier) {r : State} {adopted : Forest}
    (hadopted : Ran place (base + 9) r adopted s) (hle : base + 10 ≤ height) :
    Ensures s (setting rules adopted) fun nodes t =>
      Ran place height r nodes t ∧ t.scanner.work < s.scanner.work := by
  have hpos : 0 < base + 9 := by omega
  unfold setting
  refine enclose_spec (base + 9) hplace hadopted rfl (by omega) ?_
  refine (bumpKeyword_spec place entry.wellFormed hfront _).bind ?_
  intro word t hword
  have ht := entry.after (hword.outcome hpos).toRan
  have hnext : t.front = .identifier := by
    rw [hword.front, hname]
  refine Ensures.peekToken ((bump_spec place ht.wellFormed hnext rfl _).bind ?_)
  intro name u hnamed
  have hu := ht.after (hnamed.outcome hpos).toRan
  have hend : ∀ value v, Outcome place (base + 9) u value v →
      Ensures v (lineEnd rules >>= fun ending => pure (word ++ name ++ value ++ ending))
        fun nodes w => Ran place (base + 9) s nodes w ∧ w.scanner.work < s.scanner.work := by
    intro value v hvalue
    refine (lineEnd_spec place serves (hu.after hvalue.toRan) (Nat.le_add_right base 9)).bind ?_
    intro ending w hending
    have hall := (((hword.reads hpos (c := True)).append (hnamed.outcome hpos)).append
      hvalue).append hending
    exact ⟨hall.toRan, hall.work_lt trivial⟩
  refine Ensures.isAtMark ?_ ?_
  · intro hsign
    refine (bump_spec place hu.wellFormed hsign rfl none).bind ?_
    intro sign v bumped
    have hv := hu.after (bumped.outcome hpos).toRan
    have hbase : base + 4 ≤ base + 9 := by omega
    refine (settingValue_spec place serves hv hbase _).bind ?_
    intro nodes w hnodes
    exact hend _ w ((bumped.outcome hpos).append hnodes)
  · intro _
    exact hend [] u (.nil place (base + 9) u)

/-! ## All items -/

/-- What the first tokens of an item are, as far as reading it depends on them. -/
structure ItemKind.Starts (kind : ItemKind) (s : State) : Prop where
  first : s.front = .identifier ∨ (kind = .recipe ∧ s.front = .mark .atSign)
  second : kind = .exportItem ∨ kind = .unexportItem ∨ kind = .setting →
    (s.stream.nth 1).kind = .identifier

theorem ItemKind.starts_of_detect? {kind : ItemKind}
    (h : detect? (s.stream.nth 0) (s.stream.nth 1).kind (s.stream.nth 2).kind = some kind) :
    kind.Starts s := by
  unfold detect? at h
  split at h
  · next hfirst =>
    cases h
    refine ⟨.inr ⟨rfl, hfirst⟩, ?_⟩
    rintro (hkind | hkind | hkind) <;> cases hkind
  · next hfirst =>
    refine ⟨.inl hfirst, ?_⟩
    -- The kinds in question are found only after an identifier in the second place.
    rintro (rfl | rfl | rfl) <;> simp only [Option.some.injEq] at h
    all_goals
      by_cases hsecond : (s.stream.nth 1).kind = .identifier
      · exact hsecond
      · simp [hsecond] at h
        repeat' split at h
        all_goals cases h
  · cases h

theorem itemOfKind_spec {place : Place} (hplace : place.below = place) (serves : Serves rules bound)
    (entry : Entry rules.limit (bound + 1) base s) (hmode : s.stream.mode = .normal)
    {kind : ItemKind} (hstarts : kind.Starts s) {r : State} {adopted : Forest}
    (hadopted : Ran place (base + 9) r adopted s) (hle : base + 10 ≤ height) :
    Ensures s (itemOfKind rules kind adopted) fun nodes t =>
      Ran place height r nodes t ∧ t.scanner.work < s.scanner.work := by
  have hname : kind ≠ .recipe → s.front = .identifier := by
    intro hne
    exact hstarts.first.resolve_right fun hrecipe => hne hrecipe.1
  cases kind with
  | aliasItem => exact aliasItem_spec hplace serves entry (hname nofun) hadopted hle
  | assignment =>
    exact assignment_spec hplace serves entry (hname nofun) hadopted (by omega) (by omega)
  | exportItem =>
    exact exported_spec hplace serves entry (hname nofun) (hstarts.second (.inl rfl)) rfl _
      hadopted hle
  | unexportItem =>
    exact exported_spec hplace serves entry (hname nofun) (hstarts.second (.inr (.inl rfl))) rfl _
      hadopted hle
  | importItem => exact importItem_spec hplace serves entry (hname nofun) hadopted hle
  | moduleItem => exact moduleItem_spec hplace serves entry (hname nofun) hadopted hle
  | setting =>
    exact setting_spec hplace serves entry (hname nofun) (hstarts.second (.inr (.inr rfl))) hadopted
      hle
  | recipe =>
    have hfront : s.front = .identifier ∨ s.front = .mark .atSign :=
      hstarts.first.imp_right fun hrecipe => hrecipe.2
    exact recipe_spec hplace serves entry hmode hfront hadopted hle

/-- A line that starts no item is wrapped, unless there is nothing of it. -/
theorem noItem_spec (place : Place) (serves : Serves rules bound)
    (entry : Entry rules.limit (bound + 1) base s) {r : State} {adopted : Forest}
    (hadopted : Attributed place height r adopted s) (hfront : endsLine r.front = false)
    (hle : base ≤ height) :
    Ensures s (noItem rules adopted) fun nodes t =>
      Ran place height r nodes t ∧ t.scanner.work < r.scanner.work := by
  have hpos : 0 < height := Nat.lt_of_lt_of_le (Nat.lt_of_lt_of_le (by decide) entry.four_le) hle
  unfold noItem
  split
  · next hempty =>
    have hnil : adopted = [] := List.isEmpty_iff.1 hempty
    have hsame := hadopted.idle hnil
    subst hsame
    refine (recoverLine_spec place serves entry hle _).bind ?_
    intro wrapped t hwrapped
    have ht := entry.after hwrapped.toRan
    refine (bumpIf_spec place ht.wellFormed rfl hpos).bind ?_
    rintro newline u ⟨hnewline, -⟩
    have hall := hwrapped.append hnewline.toOutcome
    exact ⟨hall.toRan, hall.work_lt hfront⟩
  · next hempty =>
    have hne : adopted ≠ [] := fun hnil => hempty (List.isEmpty_iff.2 hnil)
    refine (recoverLine_spec place serves entry hle _).bind ?_
    intro wrapped t hwrapped
    have hall := hadopted.toReads.append hwrapped.toOutcome
    exact ⟨hall.toRan, hall.work_lt hne⟩

theorem attributedItem_spec {place : Place} (hplace : place.below = place)
    (serves : Serves rules bound) (entry : Entry rules.limit (bound + 1) base s)
    (hmode : s.stream.mode = .normal) (hfront : endsLine s.front = false)
    (hle : base + 10 ≤ height) :
    Ensures s (attributedItem rules) fun nodes t =>
      Ran place height s nodes t ∧ t.scanner.work < s.scanner.work := by
  have hpos : 0 < height := by omega
  unfold attributedItem
  refine (trivia_spec entry.wellFormed).bind ?_
  intro before r trimmed
  have hbefore := trimmed.outcome place hpos
  have hr := entry.after hbefore.toRan
  have hattributes : base + 6 ≤ base + 9 := by omega
  refine (attributes_spec place serves hr hattributes).bind ?_
  intro adopted t hadopted
  have ht := hr.after hadopted.toRan
  have htmode := (hbefore.keeps.mode.trans hmode ▸ hadopted.keeps.mode : t.stream.mode = .normal)
  have hend : ∀ nodes u, Ran place height r nodes u ∧ u.scanner.work < r.scanner.work →
      Ran place height s (before ++ nodes) u ∧ u.scanner.work < s.scanner.work := by
    rintro nodes u ⟨hnodes, hwork⟩
    exact ⟨hbefore.toRan.append hnodes, Nat.lt_of_lt_of_le hwork hbefore.work_le⟩
  refine Ensures.peekToken (Ensures.peekAt (Ensures.peekAt ?_))
  dsimp only
  split
  · next kind hkind =>
    refine (itemOfKind_spec hplace serves ht htmode (ItemKind.starts_of_detect? hkind)
      hadopted.toRan hle).bind ?_
    rintro nodes u ⟨hnodes, hwork⟩
    exact hend nodes u ⟨hnodes, Nat.lt_of_lt_of_le hwork hadopted.work_le⟩
  · have hhigh : Attributed place height r adopted t :=
      ⟨hadopted.toReads.mono (by omega), hadopted.idle⟩
    exact (noItem_spec place serves ht hhigh (trimmed.front ▸ hfront) (by omega)).bind hend

/-- Every item consumes something, unless the input is at its end. -/
theorem item_spec {place : Place} (hplace : place.below = place) (serves : Serves rules bound)
    (entry : Entry rules.limit (bound + 1) base s) (hmode : s.stream.mode = .normal)
    (hne : s.front ≠ .endOfInput) (hle : base + 10 ≤ height) :
    Ensures s (item rules) fun nodes t =>
      Ran place height s nodes t ∧ t.scanner.work < s.scanner.work := by
  have hpos : 0 < height := by omega
  have hbumped : ∀ nodes t, Bumped place s nodes t →
      Ran place height s nodes t ∧ t.scanner.work < s.scanner.work := by
    intro nodes t bumped
    exact ⟨(bumped.outcome hpos).toRan, bumped.work_lt⟩
  unfold item
  refine Ensures.peek ?_
  split
  · next hfront => exact (bump_spec place entry.wellFormed hfront rfl none).mono hbumped
  · next hfront => exact (bump_spec place entry.wellFormed hfront rfl none).mono hbumped
  · next hfront => exact (bump_spec place entry.wellFormed hfront rfl none).mono hbumped
  · next hfront => exact (bump_fault_spec place entry hfront none).mono hbumped
  · next hnewline _ hdedent _ =>
    exact attributedItem_spec hplace serves entry hmode (endsLine_eq_false hnewline hne hdedent)
      hle

end Justfile.Grammar
