import Justfile.Proofs.Printed.Enclosed
import Justfile.Proofs.Printed.Yield

/-!
# Reading printed expressions

Every printed expression is read as its layout (`ReadsExpr`). What stands after an expression
matters as well: a sign would go on with it. So each construct is read in front of a text with a
known first token (`Follow`).

There is one lemma for each production, which takes the expressions nested in it as read; they are
put together along the syntax once chains are read too (`readsExpr_tie`). Nested expressions are read
on less fuel and at a greater depth than the one around them; the size of an expression bounds both.
-/

set_option autoImplicit false

namespace Justfile

/-- Whether a token can stand after an expression. -/
def Token.Kind.endsSum : Token.Kind → Bool
  | .mark .braceL | .mark .braceR | .mark .equalsEquals | .mark .bangEquals | .mark .equalsTilde
  | .mark .comma | .mark .parenR | .newline => true
  | _ => false

/-- Whether a token can stand after a term. -/
def Token.Kind.endsTerm : Token.Kind → Bool
  | .mark .plus => true
  | kind => kind.endsSum

/-- Whether a token can stand after an operand. -/
def Token.Kind.endsOperand : Token.Kind → Bool
  | .mark .slash => true
  | kind => kind.endsTerm

theorem Token.Kind.endsTerm_of_endsSum {kind : Token.Kind} (h : kind.endsSum = true) :
    kind.endsTerm = true := by
  unfold endsTerm
  split
  · rfl
  · exact h

theorem Token.Kind.endsOperand_of_endsTerm {kind : Token.Kind} (h : kind.endsTerm = true) :
    kind.endsOperand = true := by
  unfold endsOperand
  split
  · rfl
  · exact h

namespace Grammar

open Scanner Printed Layout

/-! ## What follows -/

/-- The text ends a word, and the first token in it is of a kind that `ends` admits. -/
structure Follow (ends : Token.Kind → Bool) (spot : Spot) (text : Text) : Prop where
  endsWord : Measure.endsWord text = true
  sees : ∃ kind word, Sees spot text kind word ∧ ends kind = true

section Follow

variable {ends : Token.Kind → Bool} {a : Spot} {text gap rest : Text} {sign : Mark} {y : Layout}

theorem Follow.mono {more : Token.Kind → Bool} (h : Follow ends a text)
    (hmore : ∀ kind, ends kind = true → more kind = true) : Follow more a text := by
  obtain ⟨kind, word, hsees, hends⟩ := h.sees
  exact ⟨h.endsWord, kind, word, hsees, hmore kind hends⟩

/-- What follows does not depend on the depth. -/
theorem Follow.atDepth (h : Follow ends a text) (depth : Nat) :
    Follow ends { a with depth := depth } text :=
  ⟨h.endsWord, h.sees⟩

theorem cut_alone (hmode : a.mode = .normal) (halone : sign.isAlone = true) (after : Text) :
    Cut a.mode (.mark sign) sign.name.toList after := by
  rw [hmode]
  exact cut_mark (Mark.detect?_append halone after)

theorem mark_leads (hmode : a.mode = .normal) (sign : Mark) (halone : sign.isAlone = true)
    (after : Text) : Leads a (sign.name.toList ++ after) (.mark sign) sign.name.toList :=
  leads_of_cut (cut_alone hmode halone after) (by nofun)

/-- A mark follows, behind a blank or not. -/
theorem follow_mark (hmode : a.mode = .normal) (hgap : IsGap a gap) (sign : Mark)
    (halone : sign.isAlone = true) (hends : ends (.mark sign) = true) (after : Text) :
    Follow ends a (gap ++ (sign.name.toList ++ after)) := by
  refine ⟨?_, .mark sign, sign.name.toList, (mark_leads hmode sign halone after).sees_gap hgap,
    hends⟩
  rcases hgap with rfl | ⟨rfl, -⟩
  · exact Mark.endsWord_append sign after
  · rfl

/-- A layout follows that starts with a mark. -/
theorem follow_layout (hmode : a.mode = .normal) (hgap : IsGap a gap) (sign : Mark)
    (halone : sign.isAlone = true) (hends : ends (.mark sign) = true) :
    Follow ends a ((.gap gap ++ (mark sign ++ y)).text ++ rest) := by
  rw [text_append, text_append, text_gap, List.append_assoc, List.append_assoc]
  exact follow_mark hmode hgap sign halone hends _

theorem follow_newline (hmode : a.mode = .normal) (hnesting : a.nesting = 0)
    (hends : ends .newline = true) (after : Text) : Follow ends a ('\n' :: after) := by
  have hlead : Leads a ('\n' :: after) .newline ['\n'] := by
    refine ⟨after, rfl, ?_, fun _ => hnesting⟩
    rw [hmode]
    exact cut_newline after
  exact ⟨rfl, .newline, ['\n'], hlead.sees, hends⟩

/-- A mark is taken, behind a blank or not. -/
theorem bump_mark (hmode : a.mode = .normal) (hgap : IsGap a gap) (sign : Mark)
    (halone : sign.isAlone = true) (rest : Text) :
    Spells a a bump id [] (.gap gap ++ mark sign) rest :=
  bump_spells none hgap (cut_alone hmode halone rest) (by nofun)

theorem open_mark (hmode : a.mode = .normal) (hgap : IsGap a gap) (sign : Mark)
    (halone : sign.isAlone = true) (rest : Text) :
    Spells a { a with nesting := a.nesting + 1 } openBracket id [] (.gap gap ++ mark sign) rest :=
  openBracket_spells hgap (cut_alone hmode halone rest)

theorem close_mark (hmode : a.mode = .normal) (hgap : IsGap a gap) (sign : Mark)
    (halone : sign.isAlone = true) (rest : Text) :
    Spells { a with nesting := a.nesting + 1 } a (closeBracket sign) id [] (.gap gap ++ mark sign)
      rest :=
  closeBracket_spells hgap (cut_alone hmode halone rest)

end Follow

/-! ## Strings -/

section String

variable {rules : Rules} {a : Spot} {gap rest : Text} {d : Dialect} {count : Nat} {x : Layout}

/-- A token of the contents. -/
theorem stringStep_piece {kind : Token.Kind} {word : Text}
    (hkind : kind = .stringContent ∨ kind = .escapeSequence) (cut : Cut a.mode kind word rest) :
    Spells a a (stringStep rules ()) (·, some ()) [] (leaf none kind word) rest := by
  have hlead : Leads a (word ++ rest) kind word := by
    refine leads_of_cut cut ?_
    rcases hkind with rfl | rfl <;> nofun
  unfold stringStep
  refine .peek (fun s hs => hlead.sees.front hs) ?_
  rcases hkind with rfl | rfl
  all_goals exact .last (bump_spells none (isGap_nil a) cut (by nofun)) fun _ => rfl

theorem stringStep_closing (hmode : a.mode = .stringContent d) :
    Spells a a (stringStep rules ()) (·, none) [] (leaf none (.stringClose d) d.closing) rest := by
  have cut : Cut a.mode (.stringClose d) d.closing rest := by
    rw [hmode]
    exact cut_closing d rest
  have hlead : Leads a (d.closing ++ rest) (.stringClose d) d.closing := leads_of_cut cut (by nofun)
  unfold stringStep
  refine .peek (fun s hs => hlead.sees.front hs) ?_
  exact .last (bump_spells none (isGap_nil a) cut (by nofun)) fun _ => rfl

/-- The tokens between the delimiters are read one by one, and then the closing delimiter. -/
theorem stringLoop_spells (h : d.Inner rest count x) (hmode : a.mode = .stringContent d)
    {fuel : Nat} (hfuel : count < fuel) :
    Spells a a (loop (stringStep rules) fuel ()) id [] (x ++ leaf none (.stringClose d) d.closing)
      rest := by
  induction h generalizing fuel with
  | nil =>
    obtain ⟨fuel, rfl⟩ : ∃ n, fuel = n + 1 := ⟨fuel - 1, by omega⟩
    exact loop_done (stringStep_closing hmode) fuel
  | cons hkind cut _ ih =>
    obtain ⟨fuel, rfl⟩ : ∃ n, fuel = n + 1 := ⟨fuel - 1, by omega⟩
    rw [← hmode] at cut
    rw [Layout.append_assoc]
    refine .loop_again (stringStep_piece hkind ?_) (ih (by omega))
    rw [text_append, List.append_assoc]
    exact cut

/-- The opening delimiter stands in front of a string. -/
theorem opening_cut (hmode : a.mode = .normal)
    (hdialect : Dialect.detect? (d.opening ++ (x.text ++ (d.closing ++ rest))) = some d) :
    Cut a.mode (.stringOpen d) d.opening
      ((x ++ leaf none (.stringClose d) d.closing).text ++ rest) := by
  rw [hmode, text_append, List.append_assoc]
  exact cut_opening hdialect

theorem stringParts_spells (h : d.Inner rest count x) (hmode : a.mode = .normal)
    (hbudget : count < rules.budget)
    (hdialect : Dialect.detect? (d.opening ++ (x.text ++ (d.closing ++ rest))) = some d) :
    Spells a a (stringParts rules d) id []
      (leaf none (.stringOpen d) d.opening ++ (x ++ leaf none (.stringClose d) d.closing))
      rest := by
  let b : Spot := { a with mode := .stringContent d }
  have hloop : Spells b b (loop (stringStep rules) rules.budget ()) id []
      (x ++ leaf none (.stringClose d) d.closing) rest := stringLoop_spells h rfl hbudget
  unfold stringParts
  refine .get fun s hs => ?_
  refine .bind (x := leaf none (.stringOpen d) d.opening)
    (bump_spells none (isGap_nil a) (opening_cut hmode hdialect) (by nofun)) fun opened => ?_
  refine .setMode ?_
  rw [← append_empty (x ++ _)]
  refine .bind hloop fun contents => ?_
  refine .setMode ?_
  rw [hs]
  exact .pure rfl

theorem string_leads (hmode : a.mode = .normal)
    (hdialect : Dialect.detect? (d.opening ++ (x.text ++ (d.closing ++ rest))) = some d) :
    Leads a ((d.layout x).text ++ rest) (.stringOpen d) d.opening := by
  have hlead := leads_of_cut (opening_cut hmode hdialect) (by nofun)
  rw [text_append, List.append_assoc] at hlead
  rw [Dialect.text_layout, List.append_assoc, List.append_assoc]
  exact hlead

/-- A string, behind a blank or not. -/
theorem string_spells (h : d.Inner rest count x) (hmode : a.mode = .normal) (hgap : IsGap a gap)
    (hbudget : count < rules.budget)
    (hdialect : Dialect.detect? (d.opening ++ (x.text ++ (d.closing ++ rest))) = some d) :
    Spells a a (string rules none d) id [] (.gap gap ++ d.layout x) rest := by
  have hlead := leads_of_cut (opening_cut hmode hdialect) (by nofun)
  have hparts := stringParts_spells h hmode hbudget hdialect
  unfold string
  rw [Dialect.layout]
  cases d.isFormat with
  | false => exact branch_spells none .string hgap (.append hlead) hparts
  | true =>
    exact branch_spells none .string hgap (.append hlead)
      (branch_spells none .formatString (isGap_nil a) (.append hlead) hparts)

end String

section Quoted

variable {rules : Rules} {a : Spot} {gap rest : Text}

/-- A printed string announces its dialect. -/
theorem quoted_detect? (q : Quoted) (hrest : Measure.endsWord rest = true) :
    Dialect.detect? (quotes.opening ++ (q.inner.text ++ (quotes.closing ++ rest))) =
      some quotes := by
  have hhead : rest.head? ≠ some '\'' := by
    cases rest with
    | nil => nofun
    | cons c rest =>
      intro h
      cases h
      cases hrest
  rw [q.text_inner]
  exact q.encloses.detect? hhead

theorem quoted_leads (hmode : a.mode = .normal) (q : Quoted)
    (hrest : Measure.endsWord rest = true) :
    Leads a (q.layout.text ++ rest) (.stringOpen quotes) ['\''] :=
  string_leads hmode (quoted_detect? q hrest)

/-- A printed string, behind a blank or not. -/
theorem quoted_spells (q : Quoted) (hmode : a.mode = .normal) (hgap : IsGap a gap)
    (hbudget : 2 ≤ rules.budget) (hrest : Measure.endsWord rest = true) :
    Spells a a (string rules none quotes) id [] (.gap gap ++ q.layout) rest := by
  obtain ⟨count, hcount, hinner⟩ := q.exists_inner rest
  exact string_spells hinner hmode hgap (by omega) (quoted_detect? q hrest)

end Quoted

/-! ## First tokens -/

section Leads

variable {a : Spot} {rest : Text}

/-- A value starts with a token that can start one, and never with `if`. -/
theorem atom_leads (hmode : a.mode = .normal) (v : Atom) (hrest : Measure.endsWord rest = true) :
    ∃ kind word, Leads a (v.print ++ rest) kind word ∧ kind.startsValue = true ∧
      (kind == .identifier && word == Keyword.ifWord.spelling) = false := by
  have hname : ∀ (n : Name) (after : Text), Measure.endsWord after = true →
      Leads a (n.text ++ after) .identifier n.text ∧
        (Token.Kind.identifier == .identifier && n.text == Keyword.ifWord.spelling) = false := by
    intro n after hafter
    refine ⟨leads_of_cut ?_ (by nofun), ?_⟩
    · rw [hmode]
      exact cut_word n.toWord hafter
    · simp [n.not_if]
  cases v with
  | name n =>
    obtain ⟨hlead, hword⟩ := hname n rest hrest
    exact ⟨.identifier, n.text, hlead, rfl, hword⟩
  | string q =>
    have hlead := quoted_leads hmode q hrest
    rw [Quoted.text_layout] at hlead
    exact ⟨.stringOpen quotes, ['\''], hlead, rfl, rfl⟩
  | call f arguments =>
    obtain ⟨hlead, hword⟩ := hname f ('(' :: (arguments.print ++ ')' :: rest)) rfl
    refine ⟨.identifier, f.text, ?_, rfl, hword⟩
    simpa [Atom.print] using hlead
  | group inner =>
    have hlead := mark_leads hmode .parenL rfl (inner.print ++ ')' :: rest)
    refine ⟨.mark .parenL, Mark.parenL.name.toList, ?_, rfl, rfl⟩
    simpa [Atom.print, Mark.name] using hlead

/-- A keyword is a word to the scanner. -/
theorem keyword_cut (hmode : a.mode = .normal) (word : Keyword) {after : Text}
    (hafter : Measure.endsWord after = true) : Cut a.mode .identifier word.spelling after := by
  have hword : word.spelling ≠ [] ∧
      Measure.identifier word.spelling = word.spelling.length := by
    cases word <;> exact ⟨nofun, rfl⟩
  rw [hmode]
  exact cut_word ⟨word.spelling, hword.1, hword.2⟩ hafter

theorem keyword_leads (hmode : a.mode = .normal) (word : Keyword) {after : Text}
    (hafter : Measure.endsWord after = true) :
    Leads a (word.spelling ++ after) .identifier word.spelling :=
  leads_of_cut (keyword_cut hmode word hafter) (by nofun)

theorem operand_leads (hmode : a.mode = .normal) (o : Operand)
    (hrest : Measure.endsWord rest = true) :
    ∃ kind word, Leads a (o.print ++ rest) kind word ∧ kind.startsValue = true := by
  cases o with
  | value v =>
    obtain ⟨kind, word, hlead, hstarts, -⟩ := atom_leads hmode v hrest
    exact ⟨kind, word, hlead, hstarts⟩
  | conditional test consequence more =>
    have hafter : ∀ after : Text, Measure.endsWord (' ' :: after) = true := fun _ => rfl
    refine ⟨.identifier, Keyword.ifWord.spelling, ?_, rfl⟩
    simp only [Operand.print, List.cons_append, List.append_assoc]
    exact keyword_leads hmode .ifWord (hafter _)

theorem term_leads (hmode : a.mode = .normal) : (t : Term) → {rest : Text} →
    Measure.endsWord rest = true →
    ∃ kind word, Leads a (t.print ++ rest) kind word ∧ kind.startsValue = true
  | .operand only, _, hrest => operand_leads hmode only hrest
  | .slash left right, rest, _ => by
    have hafter : Measure.endsWord (' ' :: '/' :: ' ' :: (right.print ++ rest)) = true := rfl
    simpa [Term.print] using term_leads hmode left hafter

theorem sum_leads (hmode : a.mode = .normal) : (s : Sum) → {rest : Text} →
    Measure.endsWord rest = true →
    ∃ kind word, Leads a (s.print ++ rest) kind word ∧ kind.startsValue = true
  | .term only, _, hrest => term_leads hmode only hrest
  | .plus left right, rest, _ => by
    have hafter : Measure.endsWord (' ' :: '+' :: ' ' :: (right.print ++ rest)) = true := rfl
    simpa [Sum.print] using sum_leads hmode left hafter

/-- An expression starts with a token that can start one. -/
theorem expr_leads (hmode : a.mode = .normal) (e : Expr) (field : Option Field)
    (hrest : Measure.endsWord rest = true) :
    ∃ kind word, Leads a ((e.layout field).text ++ rest) kind word ∧
      startsExpression kind = true := by
  rw [e.text_layout field]
  obtain ⟨rooted, sum⟩ := e
  cases rooted with
  | true =>
    have hlead := mark_leads hmode .slash rfl (' ' :: (sum.print ++ rest))
    refine ⟨.mark .slash, Mark.slash.name.toList, ?_, rfl⟩
    simpa [Expr.print, Mark.name] using hlead
  | false =>
    obtain ⟨kind, word, hlead, hstarts⟩ := sum_leads hmode sum hrest
    refine ⟨kind, word, hlead, ?_⟩
    rw [startsExpression, hstarts, Bool.true_or]

end Leads

/-! ## Nested expressions -/

section Nested

variable (rules : Rules)

/-- The rules read the expression wherever it stands. -/
def ReadsExpr (e : Expr) : Prop :=
  ∀ (a : Spot) (field : Option Field) (gap rest : Text), a.mode = .normal → IsGap a gap →
    a.depth + e.size ≤ rules.limit → Follow Token.Kind.endsSum a rest →
    Spells a a (rules.expression field) id [] (.gap gap ++ e.layout field) rest

/-- The rules read the further arguments of a call. -/
def ReadsArgs (more : Args) : Prop :=
  ∀ (a : Spot) (fuel : Nat) (rest : Text), a.mode = .normal → a.depth + more.size ≤ rules.limit →
    more.size < fuel →
    Spells a a (loop (argumentStep rules) fuel ()) id [] more.layoutMore
      (Mark.parenR.name.toList ++ rest)

variable {rules} {a : Spot} {rest : Text}

theorem readsArgs_nil : ReadsArgs rules .nil := by
  intro a fuel rest hmode _ hfuel
  obtain ⟨fuel, rfl⟩ : ∃ n, fuel = n + 1 := ⟨fuel - 1, by omega⟩
  refine loop_done ?_ fuel
  unfold argumentStep
  refine .isAt (fun s hs => (mark_leads hmode .parenR rfl rest).sees.front hs) ?_
  exact .pure rfl

/-- What follows an argument: a comma, or the end of the call. -/
theorem args_follow (hmode : a.mode = .normal) (more : Args) (rest : Text) :
    Follow Token.Kind.endsSum a (more.layoutMore.text ++ (Mark.parenR.name.toList ++ rest)) := by
  cases more with
  | nil => exact follow_mark hmode (isGap_nil a) .parenR rfl rfl rest
  | cons first more => exact follow_layout hmode (isGap_nil a) .comma rfl rfl

theorem readsArgs_cons {first : Expr} {more : Args} (hfirst : ReadsExpr rules first)
    (hmore : ReadsArgs rules more) : ReadsArgs rules (.cons first more) := by
  intro a fuel rest hmode hdepth hfuel
  obtain ⟨fuel, rfl⟩ : ∃ n, fuel = n + 1 := ⟨fuel - 1, by omega⟩
  simp only [Args.size] at hdepth hfuel
  have hpos := first.size_pos
  have hfollow := args_follow hmode more rest
  obtain ⟨kind, word, hlead, hstarts⟩ := expr_leads hmode first none hfollow.endsWord
  have hstep : Spells a a (argumentStep rules ()) (·, some ()) []
      (mark .comma ++ (blank ++ first.layout none))
      (more.layoutMore.text ++ (Mark.parenR.name.toList ++ rest)) := by
    unfold argumentStep
    refine .isAt (fun s hs => (mark_leads hmode .comma rfl _).append.sees.front hs) ?_
    refine Spells.bind (x := mark .comma) (bump_mark hmode (isGap_nil a) .comma rfl _)
      fun comma => ?_
    -- After the comma an argument stands, and no closing parenthesis.
    have hkind : (kind == .mark .parenR) = false := by
      rw [beq_eq_false_iff_ne]
      rintro rfl
      cases hstarts
    refine .isAt (fun s hs => (hlead.sees_layout (isGap_blank hmode)).front hs) ?_
    rw [hkind]
    exact .last (hfirst a none [' '] _ hmode (isGap_blank hmode) (by omega) hfollow) fun _ => rfl
  have hlayout : (Args.cons first more).layoutMore =
      mark .comma ++ (blank ++ first.layout none) ++ more.layoutMore := by
    simp only [Args.layoutMore, Layout.append_assoc]
  rw [hlayout]
  exact .loop_again hstep (hmore a fuel rest hmode (by omega) (by omega))

/-- The arguments of a call are read as a whole. -/
theorem arguments_spells {first : Expr} {more : Args} (hfirst : ReadsExpr rules first)
    (hmore : ReadsArgs rules more) (hmode : a.mode = .normal)
    (hdepth : a.depth + (Args.cons first more).size ≤ rules.limit)
    (hbudget : (Args.cons first more).size < rules.budget) :
    Spells a a (arguments rules) id [] (Args.cons first more).layout
      (Mark.parenR.name.toList ++ rest) := by
  simp only [Args.size] at hdepth hbudget
  have hfollow := args_follow hmode more rest
  obtain ⟨kind, word, hlead, -⟩ := expr_leads hmode first none hfollow.endsWord
  refine branch_spells (some .arguments) .sequence (isGap_nil a) hlead.append ?_
  refine Spells.bind (x := first.layout none)
    (hfirst a none [] _ hmode (isGap_nil a) (by omega) hfollow) fun nodes => ?_
  exact .last (hmore a rules.budget rest hmode (by omega) (by omega)) fun _ => rfl

/-- The rules read all arguments of a call. -/
def ReadsAllArgs (rules : Rules) : Args → Prop
  | .nil => True
  | .cons first more => ReadsExpr rules first ∧ ReadsArgs rules more

theorem call_cut (hmode : a.mode = .normal) (f : Name) (arguments : Args) (rest : Text) :
    Cut a.mode .identifier f.text
      ((mark .parenL ++ (arguments.layout ++ mark .parenR)).text ++ rest) := by
  rw [hmode, text_append, List.append_assoc]
  exact cut_word f.toWord (Mark.endsWord_append _ _)

theorem functionCall_spells (f : Name) {arguments : Args} (hread : ReadsAllArgs rules arguments)
    (hmode : a.mode = .normal) (hdepth : a.depth + arguments.size ≤ rules.limit)
    (hbudget : arguments.size < rules.budget) (rest : Text) :
    Spells a a (functionCall rules) id [] (Atom.call f arguments).layout rest := by
  have hcut := call_cut hmode f arguments rest
  refine branch_spells none .functionCall (isGap_nil a)
    (Leads.append (leads_of_cut hcut (by nofun))) ?_
  refine Spells.bind (x := leaf (some .name) .identifier f.text)
    (bump_spells (some .name) (isGap_nil a) hcut (by nofun)) fun name => ?_
  refine Spells.bind (x := mark .parenL) (open_mark hmode (isGap_nil a) .parenL rfl _)
    fun opened => ?_
  let b : Spot := { a with nesting := a.nesting + 1 }
  have hclose : Spells b a (closeBracket .parenR) id [] (mark .parenR) rest :=
    close_mark hmode (isGap_nil a) .parenR rfl rest
  have hb : b.mode = .normal := hmode
  cases arguments with
  | nil =>
    refine .peek (fun s hs => (mark_leads hb .parenR rfl rest).sees.front hs) ?_
    refine Spells.bind (x := .empty) (.pure rfl) fun inner => ?_
    exact .last hclose fun _ => rfl
  | cons first more =>
    obtain ⟨hfirst, hmore⟩ := hread
    obtain ⟨kind, word, hlead, hstarts⟩ :=
      expr_leads hb first none (args_follow hb more rest).endsWord
    have hsees : Sees b (((Args.cons first more).layout ++ mark .parenR).text ++ rest) kind word := by
      refine Leads.sees (.append ?_)
      exact hlead.append
    refine .peek (fun s hs => hsees.front hs) ?_
    rw [if_pos hstarts]
    refine Spells.bind (arguments_spells hfirst hmore hb hdepth hbudget) fun inner => ?_
    exact .last hclose fun _ => rfl

/-! ## Values -/

theorem parenthesized_spells {inner : Expr} (hinner : ReadsExpr rules inner)
    (hmode : a.mode = .normal) (hdepth : a.depth + inner.size ≤ rules.limit) :
    Spells a a (parenthesized rules) id []
      (mark .parenL ++ (inner.layout none ++ mark .parenR)) rest := by
  let b : Spot := { a with nesting := a.nesting + 1 }
  have hfollow : Follow Token.Kind.endsSum b (Mark.parenR.name.toList ++ rest) :=
    follow_mark (a := b) hmode (isGap_nil b) .parenR rfl rfl rest
  refine Spells.bind (x := mark .parenL) (open_mark hmode (isGap_nil a) .parenL rfl _)
    fun opened => ?_
  refine Spells.bind (x := inner.layout none)
    (hinner b none [] _ hmode (isGap_nil b) hdepth hfollow) fun nodes => ?_
  exact .last (close_mark hmode (isGap_nil a) .parenR rfl rest) fun _ => rfl

/-- A string is a value. -/
theorem stringValue_spells {d : Dialect} {count : Nat} {x : Layout} (h : d.Inner rest count x)
    (hmode : a.mode = .normal) (hbudget : count < rules.budget)
    (hdialect : Dialect.detect? (d.opening ++ (x.text ++ (d.closing ++ rest))) = some d) :
    Spells a a (value rules none) id [] (group none .value (d.layout x)) rest := by
  have hlead := string_leads hmode hdialect
  unfold value
  refine .peek (fun s hs => hlead.sees.front hs) ?_
  exact branch_spells none .value (isGap_nil a) hlead
    (string_spells h hmode (isGap_nil a) hbudget hdialect)

/-- The rules read the expressions inside a value. -/
def ReadsAtom (rules : Rules) : Atom → Prop
  | .call _ arguments => ReadsAllArgs rules arguments
  | .group inner => ReadsExpr rules inner
  | _ => True

theorem value_spells {v : Atom} (hread : ReadsAtom rules v) (hmode : a.mode = .normal)
    (hdepth : a.depth + v.size ≤ rules.limit) (hbudget : v.size + 1 < rules.budget)
    (hfollow : Follow Token.Kind.endsOperand a rest) :
    Spells a a (value rules none) id [] (group none .value v.layout) rest := by
  obtain ⟨kind, word, hsees, hends⟩ := hfollow.sees
  have hrest := hfollow.endsWord
  cases v with
  | name n =>
    unfold value
    have hcut : Cut a.mode .identifier n.text rest := by
      rw [hmode]
      exact cut_word n.toWord hrest
    have hlead : Leads a (n.text ++ rest) .identifier n.text := leads_of_cut hcut (by nofun)
    refine .peek (fun s hs => hlead.sees.front hs) ?_
    refine .peekAt (fun s hs => (hsees.nth_one hcut (by nofun) (isGap_nil a) hs).1) ?_
    -- No parenthesis stands after a name, so that it is no call.
    have hparen : (kind == .mark .parenL) = false := by
      rw [beq_eq_false_iff_ne]
      rintro rfl
      cases hends
    rw [hparen]
    exact branch_spells none .value (isGap_nil a) hlead
      (bump_spells none (isGap_nil a) hcut (by nofun))
  | string q =>
    obtain ⟨count, hcount, hinner⟩ := q.exists_inner rest
    exact stringValue_spells hinner hmode (by omega) (quoted_detect? q hrest)
  | call f arguments =>
    simp only [Atom.size] at hdepth hbudget
    unfold value
    have hcut := call_cut hmode f arguments rest
    have hlead : Leads a ((Atom.call f arguments).layout.text ++ rest) .identifier f.text :=
      Leads.append (leads_of_cut hcut (by nofun))
    have hparen : Sees a ((mark .parenL ++ (arguments.layout ++ mark .parenR)).text ++ rest)
        (.mark .parenL) Mark.parenL.name.toList := (mark_leads hmode .parenL rfl _).append.sees
    refine .peek (fun s hs => hlead.sees.front hs) ?_
    refine .peekAt (k := .mark .parenL) ?_ ?_
    · intro s hs
      rw [text_group, Atom.layout, text_group, text_append, List.append_assoc] at hs
      exact (hparen.nth_one hcut (by nofun) (isGap_nil a) hs).1
    · exact branch_spells none .value (isGap_nil a) hlead
        (functionCall_spells f hread hmode hdepth (by omega) rest)
  | group inner =>
    unfold value
    have hlead : Leads a ((mark .parenL ++ (inner.layout none ++ mark .parenR)).text ++ rest)
        (.mark .parenL) Mark.parenL.name.toList := .append (mark_leads hmode .parenL rfl _)
    refine .peek (fun s hs => hlead.sees.front hs) ?_
    exact branch_spells none .value (isGap_nil a) hlead (parenthesized_spells hread hmode hdepth)

/-! ## Conditionals -/

/-- Whether the token opens the branch of a conditional. -/
def opensBranch (kind : Token.Kind) : Bool := kind == .mark .braceL

theorem braced_follow (hmode : a.mode = .normal) (inner : Layout) :
    Follow opensBranch a ((inBraces inner).text ++ rest) :=
  follow_layout hmode (isGap_blank hmode) .braceL rfl rfl

/-- An expression in braces, behind a blank. -/
theorem braced_spells {e : Expr} (hread : ReadsExpr rules e) (hmode : a.mode = .normal)
    (hdepth : a.depth + e.size ≤ rules.limit) (field : Field) (rest : Text) :
    Spells a a (braced rules field) id [] (inBraces (e.layout (some field))) rest := by
  let b : Spot := { a with nesting := a.nesting + 1 }
  have hb : b.mode = .normal := hmode
  have hfollow : Follow Token.Kind.endsSum b ((blank ++ mark .braceR).text ++ rest) :=
    follow_mark hb (isGap_blank hb) .braceR rfl rfl rest
  have hsees : Sees a ((inBraces (e.layout (some field))).text ++ rest) (.mark .braceL)
      Mark.braceL.name.toList :=
    Leads.sees_layout (.append (mark_leads hmode .braceL rfl _)) (isGap_blank hmode)
  unfold braced
  refine .isAt (fun s hs => hsees.front hs) ?_
  refine Spells.bind₂ (open_mark hmode (isGap_blank hmode) .braceL rfl _) fun opened => ?_
  refine Spells.bind₂ (hread b (some field) [' '] _ hb (isGap_blank hb) hdepth hfollow)
    fun inner => ?_
  exact .last (close_mark hmode (isGap_blank hmode) .braceR rfl rest) fun _ => rfl

/-- The rules read the expressions inside a condition. -/
def ReadsTest (rules : Rules) : Test → Prop
  | .alone left => ReadsExpr rules left
  | .compare left _ right => ReadsExpr rules left ∧ ReadsExpr rules right
  | .pattern left _ => ReadsExpr rules left

theorem endsSum_of_opensBranch (kind : Token.Kind) (h : opensBranch kind = true) :
    kind.endsSum = true := by
  rw [beq_iff_eq.1 h]
  rfl

/-- What follows the left side of a condition: a comparison, or the branch. -/
theorem comparison_follow (hmode : a.mode = .normal) (test : Test)
    (hrest : Follow opensBranch a rest) :
    Follow Token.Kind.endsSum a (test.comparison.text ++ rest) := by
  cases test with
  | alone left => exact hrest.mono endsSum_of_opensBranch
  | compare left equal right =>
    refine follow_layout hmode (isGap_blank hmode) (equality equal) ?_ ?_
    all_goals cases equal <;> rfl
  | pattern left right => exact follow_layout hmode (isGap_blank hmode) .equalsTilde rfl rfl

theorem comparison_spells {test : Test} (hread : ReadsTest rules test) (hmode : a.mode = .normal)
    (hdepth : a.depth + test.size ≤ rules.limit) (hbudget : 2 ≤ rules.budget)
    (hrest : Follow opensBranch a rest) :
    Spells a a (comparison rules) id [] test.comparison rest := by
  have hblank : IsGap a [' '] := isGap_blank hmode
  unfold comparison
  cases test with
  | alone left =>
    obtain ⟨kind, word, hsees, hkind⟩ := hrest.sees
    refine .peek (fun s hs => hsees.front hs) ?_
    rw [beq_iff_eq.1 hkind]
    exact .pure rfl
  | compare left equal right =>
    simp only [Test.size] at hdepth
    have halone : (equality equal).isAlone = true := by cases equal <;> rfl
    have hsees : Sees a ((Test.compare left equal right).comparison.text ++ rest)
        (.mark (equality equal)) (equality equal).name.toList :=
      (mark_leads hmode _ halone _).append.sees_layout hblank
    have hright := hread.2 a (some .right) [' '] rest hmode hblank (by omega)
      (hrest.mono endsSum_of_opensBranch)
    refine .peek (fun s hs => hsees.front hs) ?_
    cases equal with
    | true =>
      refine Spells.bind₂ (bump_mark hmode hblank .equalsEquals rfl _) fun sign => ?_
      exact .last hright fun _ => rfl
    | false =>
      refine Spells.bind₂ (bump_mark hmode hblank .bangEquals rfl _) fun sign => ?_
      exact .last hright fun _ => rfl
  | pattern left right =>
    have hsees : Sees a ((Test.pattern left right).comparison.text ++ rest) (.mark .equalsTilde)
        Mark.equalsTilde.name.toList :=
      (mark_leads hmode .equalsTilde rfl _).append.sees_layout hblank
    have hlead := quoted_leads hmode right hrest.endsWord
    refine .peek (fun s hs => hsees.front hs) ?_
    refine Spells.bind₂ (bump_mark hmode hblank .equalsTilde rfl _) fun sign => ?_
    refine .last ?_ fun _ => rfl
    unfold pattern
    refine .peek (fun s hs => (hlead.sees_layout hblank).front hs) ?_
    exact branch_spells (some .right) .regexLiteral hblank hlead
      (quoted_spells right hmode (isGap_nil a) hbudget hrest.endsWord)

/-- A condition in front of the branch it decides on. -/
theorem condition_spells {test : Test} (hread : ReadsTest rules test) (hmode : a.mode = .normal)
    (hdepth : a.depth + test.size ≤ rules.limit) (hbudget : 2 ≤ rules.budget)
    (hrest : Follow opensBranch a rest) :
    Spells a a (condition rules) id [] (blank ++ test.layout) rest := by
  have hfollow := comparison_follow hmode test hrest
  obtain ⟨kind, word, hlead, -⟩ := expr_leads hmode test.left (some .left) hfollow.endsWord
  have hleft : ReadsExpr rules test.left ∧ a.depth + test.left.size ≤ rules.limit := by
    cases test with
    | alone left => exact ⟨hread, hdepth⟩
    | compare left equal right =>
      simp only [Test.size] at hdepth
      exact ⟨hread.1, by simp only [Test.left]; omega⟩
    | pattern left right => exact ⟨hread, hdepth⟩
  rw [test.layout_eq]
  refine branch_spells none .condition (isGap_blank hmode) hlead.append ?_
  refine Spells.bind (x := test.left.layout (some .left))
    (hleft.1 a (some .left) [] _ hmode (isGap_nil a) hleft.2 hfollow) fun left => ?_
  exact .last (comparison_spells hread hmode hdepth hbudget hrest) fun _ => rfl

theorem keyword_spells {gap : Text} (hmode : a.mode = .normal) (hgap : IsGap a gap)
    (word : Keyword) (hrest : Measure.endsWord rest = true) :
    Spells a a (bumpKeyword word) id [] (.gap gap ++ keyword word) rest :=
  bumpAs_spells none (some (.keyword word)) hgap (keyword_cut hmode word hrest) (by nofun) rfl

/-- What the two looks of a further branch see behind a blank: `else`, and what comes after it. -/
theorem else_looks {y : Layout} {kind : Token.Kind} {word : Text} {s : State}
    (hmode : a.mode = .normal) (hafter : Measure.endsWord (y.text ++ rest) = true)
    (hsees : Sees a (y.text ++ rest) kind word)
    (hs : At a ((blank ++ (keyword .elseWord ++ y)).text ++ rest) s) :
    isKeywordAt 0 .elseWord s = (true, s) ∧
      isKeywordAt 1 .ifWord s = (kind == .identifier && word == Keyword.ifWord.spelling, s) := by
  rw [text_append, text_append, text_gap, text_keyword, List.append_assoc, List.append_assoc] at hs
  have hcut := keyword_cut hmode .elseWord hafter
  have hfirst := hs.nth_zero (isGap_blank hmode) hcut (by nofun)
  have hsecond := hsees.nth_one hcut (by nofun) (isGap_blank hmode) hs
  exact ⟨isKeywordAt_eq hfirst .elseWord, isKeywordAt_eq hsecond .ifWord⟩

/-- The rules read the expressions inside further branches. -/
def ReadsElse (rules : Rules) : Else → Prop
  | .none => True
  | .otherwise body => ReadsExpr rules body
  | .elseIf test body more => ReadsTest rules test ∧ ReadsExpr rules body ∧ ReadsElse rules more

theorem elseClause_spells {body : Expr} (hread : ReadsExpr rules body) (hmode : a.mode = .normal)
    (hdepth : a.depth + body.size ≤ rules.limit) (rest : Text) :
    Spells a a (elseStep rules ()) (·, none) [] (Else.otherwise body).layout rest := by
  have hfollow : Follow opensBranch a ((inBraces (body.layout (some .body))).text ++ rest) :=
    braced_follow hmode _
  obtain ⟨kind, word, hsees, hkind⟩ := hfollow.sees
  obtain rfl : kind = .mark .braceL := beq_iff_eq.1 hkind
  unfold elseStep
  refine .look _ (fun s hs => (else_looks hmode hfollow.endsWord hsees hs).1) ?_
  refine .look _ (fun s hs => (else_looks hmode hfollow.endsWord hsees hs).2) ?_
  refine .last ?_ fun _ => rfl
  refine branch_spells (some .alternative) .elseClause (isGap_blank hmode)
    (.append (keyword_leads hmode .elseWord hfollow.endsWord)) ?_
  refine Spells.bind (x := keyword .elseWord)
    (keyword_spells hmode (isGap_nil a) .elseWord hfollow.endsWord) fun first => ?_
  exact .last (braced_spells hread hmode hdepth .body rest) fun _ => rfl

theorem elseIfClause_spells {test : Test} {body : Expr} (htest : ReadsTest rules test)
    (hbody : ReadsExpr rules body) (hmode : a.mode = .normal)
    (hdepth : a.depth + (test.size + body.size) ≤ rules.limit) (hbudget : 2 ≤ rules.budget)
    (rest : Text) :
    Spells a a (elseStep rules ()) (·, some ()) []
      (blank ++ group (some .alternative) .elseIfClause
        (keyword .elseWord ++ (blank ++ (keyword .ifWord ++
          (blank ++ (test.layout ++ inBraces (body.layout (some .body)))))))) rest := by
  have hafter : ∀ after : Text, Measure.endsWord (' ' :: after) = true := fun _ => rfl
  have hfollow : Follow opensBranch a ((inBraces (body.layout (some .body))).text ++ rest) :=
    braced_follow hmode _
  have hsees : Sees a ((blank ++ (keyword .ifWord ++
      (blank ++ (test.layout ++ inBraces (body.layout (some .body)))))).text ++ rest)
      .identifier Keyword.ifWord.spelling :=
    (keyword_leads hmode .ifWord (hafter _)).append.sees_layout (isGap_blank hmode)
  unfold elseStep
  refine .look _ (fun s hs => (else_looks hmode (hafter _) hsees hs).1) ?_
  refine .look _ (fun s hs => (else_looks hmode (hafter _) hsees hs).2) ?_
  refine .last ?_ fun _ => rfl
  refine branch_spells (some .alternative) .elseIfClause (isGap_blank hmode)
    (.append (keyword_leads hmode .elseWord (hafter _))) ?_
  refine Spells.bind (x := keyword .elseWord)
    (keyword_spells hmode (isGap_nil a) .elseWord (hafter _)) fun first => ?_
  refine Spells.bind₂ (keyword_spells hmode (isGap_blank hmode) .ifWord (hafter _))
    fun second => ?_
  refine Spells.bind₂ (condition_spells htest hmode (by omega) hbudget hfollow) fun test => ?_
  exact .last (braced_spells hbody hmode (by omega) .body rest) fun _ => rfl

/-- The further branches of a conditional, in front of what goes on after it. -/
theorem elseLoop_spells : {more : Else} → ReadsElse rules more → a.mode = .normal →
    a.depth + more.size ≤ rules.limit → 2 ≤ rules.budget → {fuel : Nat} → more.size < fuel →
    Follow Token.Kind.endsOperand a rest →
    Spells a a (loop (elseStep rules) fuel ()) id [] more.layout rest
  | .none, _, _, _, _, fuel + 1, _, hrest => by
    obtain ⟨kind, word, hsees, hends⟩ := hrest.sees
    have hkind : (kind == .identifier && word == Keyword.elseWord.spelling) = false := by
      rw [Bool.and_eq_false_iff, beq_eq_false_iff_ne]
      left
      rintro rfl
      cases hends
    refine loop_done ?_ fuel
    unfold elseStep
    refine .look _ (fun s hs => isKeywordAt_eq (hsees.nth_zero hs) .elseWord) ?_
    rw [hkind]
    exact .pure rfl
  | .otherwise body, hread, hmode, hdepth, _, fuel + 1, _, _ =>
    loop_done (elseClause_spells hread hmode hdepth rest) fuel
  | .elseIf test body more, ⟨htest, hbody, hmore⟩, hmode, hdepth, hbudget, fuel + 1, hfuel, hrest => by
    simp only [Else.size] at hdepth hfuel
    have hpos := body.size_pos
    rw [Else.layout, ← Layout.append_assoc]
    exact .loop_again (elseIfClause_spells htest hbody hmode (by omega) hbudget _)
      (elseLoop_spells hmore hmode (by omega) hbudget (by omega) hrest)

/-- The rules read the expressions inside an operand. -/
def ReadsOperand (rules : Rules) : Operand → Prop
  | .value v => ReadsAtom rules v
  | .conditional test consequence more =>
    ReadsTest rules test ∧ ReadsExpr rules consequence ∧ ReadsElse rules more

/-- An operand, in front of a sign or of what ends the chain. -/
theorem operand_spells {o : Operand} (hread : ReadsOperand rules o) (hmode : a.mode = .normal)
    (hdepth : a.depth + o.size ≤ rules.limit) (hbudget : o.size + 1 < rules.budget)
    (hrest : Follow Token.Kind.endsOperand a rest) :
    Spells a a (operand rules) id [] o.layout rest := by
  unfold operand
  cases o with
  | value v =>
    obtain ⟨kind, word, hlead, -, hword⟩ := atom_leads hmode v hrest.endsWord
    rw [← v.text_layout] at hlead
    refine .look _ (fun s hs => isKeywordAt_eq (hlead.sees.nth_zero hs) .ifWord) ?_
    rw [hword]
    exact value_spells hread hmode hdepth hbudget hrest
  | conditional test consequence more =>
    obtain ⟨htest, hconsequence, hmore⟩ := hread
    simp only [Operand.size] at hdepth hbudget
    have hafter : ∀ after : Text, Measure.endsWord (' ' :: after) = true := fun _ => rfl
    have hlead : Leads a ((keyword .ifWord ++ (blank ++ (test.layout ++
        (inBraces (consequence.layout (some .consequence)) ++ more.layout)))).text ++ rest)
        .identifier Keyword.ifWord.spelling := .append (keyword_leads hmode .ifWord (hafter _))
    refine .look _ (fun s hs => isKeywordAt_eq (hlead.sees.nth_zero hs) .ifWord) ?_
    rw [if_pos (by decide)]
    refine branch_spells none .ifExpression (isGap_nil a) hlead ?_
    refine Spells.bind (x := keyword .ifWord)
      (keyword_spells hmode (isGap_nil a) .ifWord (hafter _)) fun word => ?_
    refine Spells.bind₂ (condition_spells htest hmode (by omega) (by omega) ?_) fun test => ?_
    · rw [text_append, List.append_assoc]
      exact braced_follow hmode _
    refine Spells.bind (braced_spells hconsequence hmode (by omega) .consequence _) fun body => ?_
    exact .last (elseLoop_spells hmore hmode (by omega) (by omega) (by omega) hrest) fun _ => rfl

end Nested

end Grammar

end Justfile
