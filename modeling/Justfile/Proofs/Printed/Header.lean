import Justfile.Grammar.Item
import Justfile.Proofs.Printed.Declaration
import Justfile.Proofs.Printed.Expression

/-!
# Reading printed assignments and headers

The first line of a declaration: an assignment (`assigned_spells`), or the header of a recipe
(`recipeHeader_spells`). Names are looked at together with what follows them (`endsLabel`), since a
name in front of `::` would be the start of a path. Parameters and dependencies are lists of the
same form, which are read by one rule (`listed_spells`).
-/

set_option autoImplicit false

namespace Justfile.Grammar

open Scanner Printed Layout

/-- Whether a token can stand after a name in a header. -/
def endsLabel : Token.Kind → Bool
  | .identifier | .mark .colon | .newline => true
  | _ => false

variable {rules : Rules} {a : Spot} {gap rest : Text}

/-! ## Names and line breaks -/

theorem newline_cut (hmode : a.mode = .normal) (rest : Text) : Cut a.mode .newline ['\n'] rest := by
  rw [hmode]
  exact cut_newline rest

theorem newline_leads (hmode : a.mode = .normal) (hnesting : a.nesting = 0) (rest : Text) :
    Leads a ('\n' :: rest) .newline ['\n'] :=
  ⟨rest, rfl, newline_cut hmode rest, fun _ => hnesting⟩

theorem label_cut (hmode : a.mode = .normal) (name : Label) (hrest : Measure.endsWord rest = true) :
    Cut a.mode .identifier name.text rest := by
  rw [hmode]
  exact cut_word name.toWord hrest

theorem label_leads (hmode : a.mode = .normal) (name : Label)
    (hrest : Measure.endsWord rest = true) :
    Leads a (name.text ++ rest) .identifier name.text :=
  leads_of_cut (label_cut hmode name hrest) (by nofun)

/-- A name that has to be there, behind a blank or not. -/
theorem expectIdentifier_spells (hmode : a.mode = .normal) (hgap : IsGap a gap) (name : Label)
    (hrest : Measure.endsWord rest = true) (field : Field) (expected : Expected) :
    Spells a a (expectIdentifier field expected) id []
      (.gap gap ++ leaf (some field) .identifier name.text) rest := by
  have hsees : Sees a ((Layout.gap gap ++ leaf (some field) .identifier name.text).text ++ rest)
      .identifier name.text :=
    (label_leads hmode name hrest).sees_layout hgap
  refine .isAt (fun s hs => hsees.front hs) ?_
  rw [beq_self_eq_true]
  exact bump_spells (some field) hgap (label_cut hmode name hrest) (by nofun)

/-- A name that no `::` follows is the whole path. -/
theorem namePath_spells (hmode : a.mode = .normal) (name : Label) (hrest : Follow endsLabel a rest)
    (field : Field) :
    Spells a a (namePath rules field) id [] (leaf (some field) .identifier name.text) rest := by
  obtain ⟨kind, word, hsees, hends⟩ := hrest.sees
  have hcut := label_cut hmode name hrest.endsWord
  have hcolons : (kind == .mark .doubleColon) = false := by
    rw [beq_eq_false_iff_ne]
    rintro rfl
    cases hends
  refine .peekAt (fun s hs => (hsees.nth_one hcut (by nofun) (isGap_nil a) hs).1) ?_
  rw [hcolons]
  exact bump_spells (some field) (isGap_nil a) hcut (by nofun)

/-! ## Parameters and dependencies -/

theorem parameter_spells (hmode : a.mode = .normal) (hgap : IsGap a gap) (name : Label)
    (hrest : Follow endsLabel a rest) :
    Spells a a (parameter rules) id [] (.gap gap ++ named .parameter name) rest := by
  obtain ⟨kind, word, hsees, hends⟩ := hrest.sees
  have hlead := label_leads hmode name hrest.endsWord
  -- Neither a sign in front nor a default behind.
  have hequals : (kind == .mark .equals) = false := by
    rw [beq_eq_false_iff_ne]
    rintro rfl
    cases hends
  refine branch_spells none .parameter hgap hlead ?_
  refine .skip (bumpIf_idle (fun s hs => hlead.sees.front hs) (by nofun)) ?_
  rw [← append_empty (leaf _ _ _)]
  refine Spells.bind (expectIdentifier_spells hmode (isGap_nil a) name hrest.endsWord .name _)
    fun nodes => ?_
  refine .isAt (fun s hs => hsees.front hs) ?_
  rw [hequals]
  exact .pure rfl

theorem dependency_spells (hmode : a.mode = .normal) (hgap : IsGap a gap) (name : Label)
    (hrest : Follow endsLabel a rest) :
    Spells a a (dependency rules) id [] (.gap gap ++ named .dependency name) rest := by
  have hlead := label_leads hmode name hrest.endsWord
  refine branch_spells none .dependency hgap hlead ?_
  refine .isAt (fun s hs => hlead.sees.front hs) ?_
  exact namePath_spells hmode name hrest .name

/-- What follows a name in a list: a further name, or what follows the list. -/
theorem series_follow (hmode : a.mode = .normal) (kind : Node.Kind) (names : List Label)
    (hrest : Follow endsLabel a rest) : Follow endsLabel a ((series kind names).text ++ rest) := by
  induction names with
  | nil => exact hrest
  | cons name names ih =>
    have htext : (series kind (name :: names)).text ++ rest =
        [' '] ++ (name.text ++ ((series kind names).text ++ rest)) := by
      simp [printNames]
    rw [htext]
    exact ⟨rfl, .identifier, name.text,
      (label_leads hmode name ih.endsWord).sees_gap (isGap_blank hmode), rfl⟩

/-- Names in a node of their own, read by a step for each and a last one. -/
theorem listed_spells {σ : Type} {step : σ → Parse (Forest × Option σ)} {memory : σ} {budget : Nat}
    (hmode : a.mode = .normal) (outer inner : Node.Kind) (name : Label) (names : List Label)
    (hstep : ∀ (name : Label) (gap rest : Text), IsGap a gap → Follow endsLabel a rest →
      Spells a a (step memory) (·, some memory) [] (.gap gap ++ named inner name) rest)
    (hend : Spells a a (step memory) (·, none) [] .empty rest) (hrest : Follow endsLabel a rest)
    (hbudget : names.length + 1 < budget) :
    Spells a a (branch none outer (loop step budget memory)) id []
      (listed outer inner (name :: names)) rest := by
  obtain ⟨fuel, rfl⟩ : ∃ fuel, budget = fuel + 1 + names.length + 1 :=
    ⟨budget - names.length - 2, by omega⟩
  have hfollow := series_follow hmode inner names hrest
  have hseries : Spells a a (loop step (fuel + 1 + names.length) memory) id [] (series inner names)
      rest := by
    have hall := loop_concat (fun name => blank ++ named inner name)
      (fun names => At a ((series inner names).text ++ rest))
      (fun name more => by
        have hone := hstep name [' '] ((series inner more).text ++ rest) (isGap_blank hmode)
          (series_follow hmode inner more hrest)
        have htext : (series inner (name :: more)).text ++ rest =
            (blank ++ named inner name).text ++ ((series inner more).text ++ rest) := by
          simp [named, printNames]
        rw [htext]
        exact hone)
      (loop_done hend fuel) names
    rw [append_empty] at hall
    exact hall
  have hlead : Leads a ((named inner name ++ series inner names).text ++ rest) .identifier
      name.text := .append (label_leads hmode name hfollow.endsWord)
  refine branch_spells none outer (isGap_blank hmode) hlead ?_
  exact .loop_again (hstep name [] _ (isGap_nil a) hfollow) hseries

/-- What follows the name of a recipe or its colon: a list of names, or what follows the list. -/
theorem listed_follow (hmode : a.mode = .normal) (outer inner : Node.Kind) (names : List Label)
    (hrest : Follow endsLabel a rest) :
    Follow endsLabel a ((listed outer inner names).text ++ rest) := by
  have hfollow := series_follow hmode inner names hrest
  rw [text_series] at hfollow
  rw [text_listed]
  exact hfollow

/-- What follows a list of names decides whether there is one. -/
theorem listed_sees (hmode : a.mode = .normal) (outer inner : Node.Kind) (name : Label)
    (names : List Label) (hrest : Follow endsLabel a rest) :
    Sees a ((listed outer inner (name :: names)).text ++ rest) .identifier name.text := by
  have hfollow := series_follow hmode inner names hrest
  exact Leads.sees_layout (.append (label_leads hmode name hfollow.endsWord)) (isGap_blank hmode)

/-- The colon of a header. -/
theorem colon_cut (hmode : a.mode = .normal)
    (hrest : ∀ c ∈ rest.head?, c = ' ' ∨ c = '\n') :
    Cut a.mode (.mark .colon) Mark.colon.name.toList rest := by
  rw [hmode]
  apply cut_mark
  cases rest with
  | nil => rfl
  | cons c rest => rcases hrest c rfl with rfl | rfl <;> rfl

theorem parametersOpt_spells (hmode : a.mode = .normal) (names : List Label)
    (hrest : Sees a rest (.mark .colon) Mark.colon.name.toList)
    (hfollow : Measure.endsWord rest = true) (hbudget : names.length < rules.budget) :
    Spells a a (parametersOpt rules) id [] (listed .parameters .parameter names) rest := by
  have hends : Follow endsLabel a rest := ⟨hfollow, _, _, hrest, rfl⟩
  unfold parametersOpt
  cases names with
  | nil =>
    refine .peek (fun s hs => hrest.front hs) ?_
    exact .pure rfl
  | cons name names =>
    refine .peek
      (fun s hs => (listed_sees hmode .parameters .parameter name names hends).front hs) ?_
    refine listed_spells hmode .parameters .parameter name names ?_ ?_ hends hbudget
    · intro name gap rest hgap hrest
      have hsees : Sees a ((Layout.gap gap ++ named .parameter name).text ++ rest) .identifier
          name.text := (label_leads hmode name hrest.endsWord).sees_layout hgap
      unfold parameterStep
      refine .peek (fun s hs => hsees.front hs) ?_
      exact .last (parameter_spells hmode hgap name hrest) fun _ => rfl
    · unfold parameterStep
      refine .peek (fun s hs => hrest.front hs) ?_
      exact .pure rfl

theorem dependenciesOpt_spells (hmode : a.mode = .normal) (hnesting : a.nesting = 0)
    (names : List Label) (hbudget : names.length < rules.budget) :
    Spells a a (dependenciesOpt rules) id [] (listed .dependencies .dependency names)
      ('\n' :: rest) := by
  have hends : Follow endsLabel a ('\n' :: rest) := follow_newline hmode hnesting rfl rest
  have hrest := (newline_leads hmode hnesting rest).sees
  unfold dependenciesOpt
  cases names with
  | nil =>
    refine .peek (fun s hs => hrest.front hs) ?_
    exact .pure rfl
  | cons name names =>
    refine .peek
      (fun s hs => (listed_sees hmode .dependencies .dependency name names hends).front hs) ?_
    refine listed_spells hmode .dependencies .dependency name names ?_ ?_ hends hbudget
    · intro name gap rest hgap hrest
      have hsees : Sees a ((Layout.gap gap ++ named .dependency name).text ++ rest) .identifier
          name.text := (label_leads hmode name hrest.endsWord).sees_layout hgap
      unfold dependencyStep
      refine .isAt (fun s hs => hsees.front hs) ?_
      refine .skip (.pure rfl) ?_
      refine .peek (fun s hs => hsees.front hs) ?_
      exact .last (dependency_spells hmode hgap name hrest) fun _ => rfl
    · unfold dependencyStep
      refine .isAt (fun s hs => hrest.front hs) ?_
      refine .skip (.pure rfl) ?_
      refine .peek (fun s hs => hrest.front hs) ?_
      exact .pure rfl

/-! ## Headers -/

/-- The first characters after the colon are no part of a longer mark. -/
theorem dependencies_head (names : List Label) (rest : Text) :
    ∀ c ∈ ((listed .dependencies .dependency names).text ++ '\n' :: rest).head?,
      c = ' ' ∨ c = '\n' := by
  cases names with
  | nil =>
    intro c hc
    exact .inr (Option.some.inj hc).symm
  | cons name names =>
    intro c hc
    exact .inl (Option.some.inj hc).symm

theorem headerTail_spells (hmode : a.mode = .normal) (hnesting : a.nesting = 0)
    (names : List Label) (hbudget : names.length < rules.budget) :
    Spells a a (headerTail rules) id []
      (mark .colon ++ listed .dependencies .dependency names) ('\n' :: rest) := by
  have hcut := colon_cut hmode (dependencies_head names rest)
  have hlead : Leads a ((mark .colon ++ listed .dependencies .dependency names).text ++
      '\n' :: rest) (.mark .colon) Mark.colon.name.toList := .append (leads_of_cut hcut (by nofun))
  unfold headerTail
  refine .isAt (fun s hs => hlead.sees.front hs) ?_
  refine Spells.bind (x := mark .colon) (bump_spells none (isGap_nil a) hcut (by nofun))
    fun colon => ?_
  exact .last (dependenciesOpt_spells hmode hnesting names hbudget) fun _ => rfl

/-- What follows the name of a recipe. -/
theorem header_follow (hmode : a.mode = .normal) (parameters dependencies : List Label)
    (rest : Text) :
    Follow endsLabel a ((listed .parameters .parameter parameters ++
      (mark .colon ++ listed .dependencies .dependency dependencies)).text ++ '\n' :: rest) := by
  have hcut := colon_cut hmode (dependencies_head dependencies rest)
  have hcolon : Sees a ((mark .colon ++ listed .dependencies .dependency dependencies).text ++
      '\n' :: rest) (.mark .colon) Mark.colon.name.toList :=
    Leads.sees (.append (leads_of_cut hcut (by nofun)))
  rw [text_append, List.append_assoc]
  exact listed_follow hmode .parameters .parameter parameters ⟨rfl, _, _, hcolon, rfl⟩

/-- The header of a recipe is read up to the end of its line. -/
theorem recipeHeader_spells (hmode : a.mode = .normal) (hnesting : a.nesting = 0) (name : Label)
    (parameters dependencies : List Label) (hparameters : parameters.length < rules.budget)
    (hdependencies : dependencies.length < rules.budget) (rest : Text) :
    Spells a a (recipeHeader rules) id [] (headerLayout name parameters dependencies)
      ('\n' :: rest) := by
  have hcut := colon_cut hmode (dependencies_head dependencies rest)
  have hcolon : Sees a ((mark .colon ++ listed .dependencies .dependency dependencies).text ++
      '\n' :: rest) (.mark .colon) Mark.colon.name.toList :=
    Leads.sees (.append (leads_of_cut hcut (by nofun)))
  have hfollow := header_follow hmode parameters dependencies rest
  have hlead := label_leads hmode name hfollow.endsWord
  have hfirst : Leads a ((leaf (some .name) .identifier name.text ++
      (listed .parameters .parameter parameters ++
        (mark .colon ++ listed .dependencies .dependency dependencies))).text ++ '\n' :: rest)
      .identifier name.text := .append hlead
  refine branch_spells none .recipeHeader (isGap_nil a) hfirst ?_
  refine .skip (bumpIf_idle (fun s hs => hfirst.sees.front hs) (by nofun)) ?_
  refine Spells.bind (x := leaf (some .name) .identifier name.text)
    (expectIdentifier_spells hmode (isGap_nil a) name hfollow.endsWord .name _) fun first => ?_
  refine Spells.bind (x := listed .parameters .parameter parameters)
    (parametersOpt_spells hmode parameters hcolon rfl hparameters) fun inputs => ?_
  exact .last (headerTail_spells hmode hnesting dependencies hdependencies) fun _ => rfl

/-! ## Assignments -/

/-- The line break at the end of a line is taken with it. -/
theorem lineEnd_spells (hmode : a.mode = .normal) (hnesting : a.nesting = 0) (rest : Text) :
    Spells a a (lineEnd rules) id [] newline rest := by
  unfold lineEnd
  refine .peek (fun s hs => (newline_leads hmode hnesting rest).sees.front hs) ?_
  exact bump_spells none (isGap_nil a) (newline_cut hmode rest) fun _ => hnesting

/-- An assignment is read with the end of its line, if its value is read. -/
theorem assigned_spells (hmode : a.mode = .normal) (hnesting : a.nesting = 0) (name : Label)
    {value : Layout} (rest : Text)
    (hread : Spells a a (rules.expression (some .right)) id [] (blank ++ value) ('\n' :: rest)) :
    Spells a a (assignment rules []) id [] (assigned name value) rest := by
  have hblank : IsGap a [' '] := isGap_blank hmode
  have hafter : ∀ after : Text, Measure.endsWord (' ' :: after) = true := fun _ => rfl
  refine enclose_yields .assignment ?_
  refine Spells.bind (x := leaf (some .left) .identifier name.text)
    (expectIdentifier_spells hmode (isGap_nil a) name (hafter _) .left _) fun first => ?_
  refine Spells.bind₂ (expectMark_spells hblank (cut_alone hmode rfl _)) fun sign => ?_
  refine Spells.bind₂ hread fun nodes => ?_
  exact .last (lineEnd_spells hmode hnesting rest) fun _ => rfl

end Justfile.Grammar
