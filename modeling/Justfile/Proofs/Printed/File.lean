import Justfile.Grammar.File
import Justfile.Proofs.Printed.Body
import Justfile.Proofs.Printed.Chain

/-!
# Reading printed files

A printed file is read as its layout, and nothing is reported (`parse_printFile`). The induction is
on the entries: each is read by one step of the loop, or by one and one more for each empty line
after it, and leaves the place in front of the next one.
-/

set_option autoImplicit false

namespace Justfile.Grammar

open Scanner Printed Layout

/-! ## Items -/

section Items

variable {rules : Rules} {rest text word more : Text} {kind : Token.Kind} {x : Layout}

/-- A name that is no keyword starts an assignment in front of `:=`, and a recipe otherwise. -/
def declared (second : Token.Kind) : ItemKind :=
  if second = .mark .colonEquals then .assignment else .recipe

theorem detect?_label (name : Label) {first : Token} (hkind : first.kind = .identifier)
    (htext : first.text = name.text) (second third : Token.Kind) :
    ItemKind.detect? first second third = some (declared second) := by
  have hword : ∀ word : Keyword, (first.text == word.spelling) = false := by
    intro word
    rw [htext, beq_eq_false_iff_ne]
    exact name.not_keyword word
  simp only [ItemKind.detect?, hkind, hword, Bool.false_and, Bool.false_eq_true, if_false,
    declared, beq_iff_eq]

/-- In front of a name there are no attributes. -/
theorem attributes_draws (hlead : Leads {} text .identifier word) (hbudget : 0 < rules.budget) :
    Draws (At {} text) (At {} text) (attributes rules) .empty := by
  obtain ⟨fuel, hfuel⟩ : ∃ fuel, rules.budget = fuel + 1 := ⟨rules.budget - 1, by omega⟩
  unfold attributes
  rw [hfuel]
  refine loop_done ?_ fuel
  unfold attributesStep
  refine .isAt (fun s hs => hlead.sees.front hs) ?_
  refine .isAt (fun s hs => hlead.sees.front hs) ?_
  exact .pure rfl

/-- An item that starts with a name is read by the production that the token after it calls for. -/
theorem fileStep_item (name : Label) (htext : text = name.text ++ more)
    (hmore : Measure.endsWord more = true) (hsecond : Sees {} more kind word)
    (hbudget : 0 < rules.budget)
    (hitem : Draws (At {} text) (At {} rest) (itemOfKind rules (declared kind) []) x) :
    Yields (At {} text) (At {} rest) (fileStep rules ()) (·, some ()) [] x := by
  have hcut : Cut ({} : Spot).mode .identifier name.text more := label_cut rfl name hmore
  have hlead : Leads {} text .identifier name.text := by
    rw [htext]
    exact leads_of_cut hcut (by nofun)
  unfold fileStep
  refine .isAt (fun s hs => hlead.sees.front hs) ?_
  refine .last ?_ fun _ => rfl
  unfold item
  refine .peek (fun s hs => hlead.sees.front hs) ?_
  unfold attributedItem
  refine .skip (trivia_spells (isGap_nil _) hlead) ?_
  refine .skip (attributes_draws hlead hbudget) ?_
  -- The three looks: the name, the token after it, and one that does not matter.
  refine .glance (fun first => first.kind = .identifier ∧ first.text = name.text)
    (fun s hs => ⟨_, rfl, hlead.sees.nth_zero hs⟩) fun first hfirst => ?_
  refine .peekAt (k := kind) ?_ ?_
  · intro s hs
    rw [htext] at hs
    exact (hsecond.nth_one hcut (by nofun) (isGap_nil _) hs).1
  refine .glance (fun _ => True) (fun s hs => ⟨_, rfl, trivial⟩) fun third _ => ?_
  rw [detect?_label name hfirst.1 hfirst.2]
  exact .last hitem fun _ => rfl

/-- A line break between items. -/
theorem fileStep_newline (text : Text) :
    Yields (At {} ('\n' :: text)) (At {} text) (fileStep rules ()) (·, some ()) [] newline := by
  have hsees : Sees {} ('\n' :: text) .newline ['\n'] := (newline_leads rfl rfl text).sees
  unfold fileStep
  refine .isAt (fun s hs => hsees.front hs) ?_
  refine .last ?_ fun _ => rfl
  unfold item
  refine .peek (fun s hs => hsees.front hs) ?_
  exact bump_spells none (isGap_nil _) (newline_cut rfl text) fun _ => rfl

/-- The end of the input is next when nothing is left. -/
theorem At.front_nil {s : State} (h : At {} [] s) : s.front = .endOfInput := by
  obtain ⟨hflush, -⟩ := h.front_resumes (.inl rfl) (.inl rfl)
  rw [front_of_flush hflush]
  change (s.scanner.next s.stream.mode).1.kind = _
  rw [h.mode, h.ready.normal_eq, Scanner.normal, h.rest]
  rfl

theorem fileStep_end : Yields (At {} []) (At {} []) (fileStep rules ()) (·, none) [] .empty := by
  unfold fileStep
  refine .isAt (fun s hs => hs.front_nil) ?_
  exact .pure rfl

end Items

/-! ## Entries -/

section Entries

variable {limit budget bound : Nat} {rest : Text} {y : Layout} {R : State → Prop}

/-- The number of names is bounded by the characters they are written with. -/
theorem length_le_printNames (names : List Label) : names.length ≤ (printNames names).length := by
  induction names with
  | nil => exact Nat.le_refl _
  | cons name names ih =>
    simp only [printNames, List.flatMap_cons, List.length_cons, List.length_append] at ih ⊢
    omega

theorem length_le_printLines (indent : Indent) (lines : List Line) :
    lines.length ≤ (printLines indent lines).length := by
  induction lines with
  | nil => exact Nat.le_refl _
  | cons line lines ih =>
    simp only [printLines, List.flatMap_cons, List.length_cons, List.length_append] at ih ⊢
    omega

/-- An assignment is an item, if its value is read. -/
theorem assigned_step {rules : Rules} (name : Label) (value : Layout) (rest : Text)
    (hbudget : 0 < rules.budget)
    (hread : Spells {} {} (rules.expression (some .right)) id [] (blank ++ value) ('\n' :: rest)) :
    Yields (At {} ((assigned name value).text ++ rest)) (At {} rest) (fileStep rules ())
      (·, some ()) [] (assigned name value) := by
  let more : Text := ' ' :: (Mark.colonEquals.name.toList ++ (' ' :: (value.text ++ '\n' :: rest)))
  have htext : (assigned name value).text ++ rest = name.text ++ more := by
    simp [assigned, newline, more]
  have hsecond : Sees {} more (.mark .colonEquals) Mark.colonEquals.name.toList :=
    (mark_leads rfl .colonEquals rfl _).sees_gap (isGap_blank rfl)
  exact fileStep_item name htext rfl hsecond hbudget (assigned_spells rfl rfl name rest hread)

theorem assignment_step (name : Label) (value : Expr) (hsize : value.size ≤ limit)
    (hroom : value.size + 1 < budget) (rest : Text) :
    Yields (At {} ((assignmentLayout name value).text ++ rest)) (At {} rest)
      (fileStep (.tie limit budget) ()) (·, some ()) [] (assignmentLayout name value) := by
  have hdepth : ({} : Spot).depth + value.size ≤ (Rules.tie limit budget).limit := by
    change 0 + value.size ≤ limit
    omega
  have hbudget : 0 < (Rules.tie limit budget).budget := by
    change 0 < budget
    omega
  rw [assignmentLayout_eq]
  exact assigned_step name _ rest hbudget
    (readsExpr_tie limit budget value hroom {} (some .right) [' '] _ rfl (isGap_blank rfl) hdepth
      (follow_newline rfl rfl rfl rest))

/-- A recipe is an item, with a body or without one. -/
theorem recipe_step {rules : Rules} (name : Label) (parameters dependencies : List Label)
    {body : Layout} {text : Text} (hbudget : 0 < rules.budget)
    (hrecipe : Draws (At {} ((headerLayout name parameters dependencies).text ++ '\n' :: text))
      (At {} rest) (recipe rules [])
      (recipeLayout (headerLayout name parameters dependencies) body)) :
    Yields (At {} ((headerLayout name parameters dependencies).text ++ '\n' :: text)) (At {} rest)
      (fileStep rules ()) (·, some ()) []
      (recipeLayout (headerLayout name parameters dependencies) body) := by
  have hfollow : Follow endsLabel {} _ := header_follow rfl parameters dependencies text
  obtain ⟨kind, word, hsees, hends⟩ := hfollow.sees
  -- What follows the name is no `:=`.
  have hkind : declared kind = .recipe := by
    unfold declared
    rw [if_neg]
    rintro rfl
    cases hends
  refine fileStep_item name ?_ hfollow.endsWord hsees hbudget ?_
  · rw [headerLayout, text_group, text_append, List.append_assoc]
    rfl
  · rw [hkind]
    exact hrecipe

/-- A recipe without a body ends with the line of its header. -/
theorem bare_step (rules : Rules) (name : Label) (parameters dependencies : List Label) (count : Nat)
    (hresumes : Resumes rest) (hparameters : parameters.length < rules.budget)
    (hdependencies : dependencies.length < rules.budget) :
    Yields (At {} ((headerLayout name parameters dependencies).text ++
        '\n' :: (List.replicate count '\n' ++ rest)))
      (At {} (List.replicate count '\n' ++ rest)) (fileStep rules ()) (·, some ()) []
      (recipeLayout (headerLayout name parameters dependencies) .empty) := by
  have hheader := recipeHeader_spells (a := {}) rfl rfl name parameters dependencies hparameters
    hdependencies (List.replicate count '\n' ++ rest)
  refine recipe_step name parameters dependencies (by omega)
    (recipe_draws false .bodyStart hheader ?_ ?_)
  · intro s hs
    rw [beq_eq_false_iff_ne]
    exact front_ne_indent hresumes hs.toAt
  · exact Yields.mono (.pure rfl) (fun _ hs => hs.toAt) fun _ hs => hs

/-- A recipe with a body ends with the empty lines after it. -/
theorem body_step (rules : Rules) (name : Label) (parameters dependencies : List Label)
    (indent : Indent) (line : Line) (lines : List Line) (count : Nat) (hopens : line.Opens)
    (hresumes : Resumes rest) (hparameters : parameters.length < rules.budget)
    (hdependencies : dependencies.length < rules.budget)
    (hlines : (line :: lines).length + count + 2 ≤ rules.budget) :
    Yields (At {} ((headerLayout name parameters dependencies).text ++
        '\n' :: (printLines indent (line :: lines) ++ (List.replicate count '\n' ++ rest))))
      (At {} rest) (fileStep rules ()) (·, some ()) []
      (recipeLayout (headerLayout name parameters dependencies)
        (bodyLayout indent (line :: lines) count)) := by
  have hheader := recipeHeader_spells (a := {}) rfl rfl name parameters dependencies hparameters
    hdependencies (printLines indent (line :: lines) ++ (List.replicate count '\n' ++ rest))
  have hbody := recipeBody_draws indent lines count hopens hresumes hlines
  refine recipe_step name parameters dependencies (by omega)
    (recipe_draws true .body hheader ?_ hbody)
  intro s hs
  have htext : printLines indent (line :: lines) ++ (List.replicate count '\n' ++ rest) =
      indent.text ++ (line.text ++
        '\n' :: (printLines indent lines ++ (List.replicate count '\n' ++ rest))) := by
    simp [printLines]
  rw [htext] at hs
  rw [(moves_indent hopens).front (fun _ _ => rfl) hs]
  rfl

theorem length_printRecipe_le (name : Label) (parameters dependencies : List Label) (lines : Lines)
    (indent : Indent) :
    parameters.length + dependencies.length + lines.list.length + 2 ≤
      ((Decl.recipe name parameters dependencies lines).print indent).length := by
  have hparameters := length_le_printNames parameters
  have hdependencies := length_le_printNames dependencies
  have hlines := length_le_printLines indent lines.list
  simp only [Decl.print, List.length_append, List.length_cons]
  omega

/-- The item of an entry is read by one step, up to the empty lines after it. -/
theorem entry_step {entry : Printed.Entry} (hresumes : Resumes rest)
    (hsize : entry.decl.size ≤ limit) (hroom : entry.print.length < budget) :
    Yields (At {} (entry.item.text ++ (List.replicate entry.trailing '\n' ++ rest)))
      (At {} (List.replicate entry.trailing '\n' ++ rest)) (fileStep (.tie limit budget) ())
      (·, some ()) [] entry.item := by
  obtain ⟨decl, indent, count⟩ := entry
  simp only [Printed.Entry.print, List.length_append, List.length_replicate] at hroom
  cases decl with
  | assignment name value =>
    have hlength := value.size_le
    simp only [Decl.print, List.length_append, List.length_cons] at hroom
    exact assignment_step name value hsize (by omega) _
  | recipe name parameters dependencies lines =>
    obtain ⟨lines, hopens⟩ := lines
    have hlength := length_printRecipe_le name parameters dependencies ⟨lines, hopens⟩ indent
    have hparameters : parameters.length < budget := by omega
    have hdependencies : dependencies.length < budget := by omega
    have hlines : lines.length + count + 2 ≤ budget := by
      dsimp only at hlength
      omega
    cases lines with
    | nil =>
      have hstep := bare_step (.tie limit budget) name parameters dependencies count
        hresumes hparameters hdependencies
      simpa [Printed.Entry.item, Printed.Entry.trailing, recipeLayout, newline] using hstep
    | cons line lines =>
      have hstep := body_step (.tie limit budget) name parameters dependencies indent line
        lines count (hopens line rfl) hresumes hparameters hdependencies hlines
      simpa [Printed.Entry.item, Printed.Entry.trailing, recipeLayout, bodyLayout, newline] using
        hstep

/-! ## Files -/

theorem resumes_printFile (entries : List Printed.Entry) : Resumes (printFile entries) := by
  cases entries with
  | nil => exact .inl rfl
  | cons entry entries =>
    obtain ⟨decl, indent, count⟩ := entry
    right
    cases decl with
    | assignment name value =>
      refine ⟨name, [' ', ':', '=', ' '] ++ value.print ++ ['\n'] ++ List.replicate count '\n' ++
        printFile entries, ?_, rfl⟩
      simp [printFile, Printed.Entry.print, Decl.print]
    | recipe name parameters dependencies lines =>
      refine ⟨name, printNames parameters ++ [':'] ++ printNames dependencies ++ ['\n'] ++
        printLines indent lines.list ++ List.replicate count '\n' ++ printFile entries, ?_, ?_⟩
      · simp [printFile, Printed.Entry.print, Decl.print]
      · cases parameters <;> rfl

theorem Entry.trailing_lt (entry : Printed.Entry) : entry.trailing < entry.print.length := by
  obtain ⟨decl, indent, count⟩ := entry
  match decl with
  | .assignment name value =>
    simp only [Printed.Entry.trailing, Printed.Entry.print, Decl.print, List.length_append,
      List.length_replicate, List.length_cons]
    omega
  | .recipe name parameters dependencies ⟨[], _⟩ =>
    simp only [Printed.Entry.trailing, Printed.Entry.print, Decl.print, List.length_append,
      List.length_replicate, List.length_cons]
    omega
  | .recipe name parameters dependencies ⟨_ :: _, _⟩ =>
    simp only [Printed.Entry.trailing, Printed.Entry.print, Decl.print, List.length_append,
      List.length_cons]
    omega

/-- The entries of a file are read in order, and nothing is left. -/
theorem entries_draws (entries : List Printed.Entry)
    (hsize : ∀ entry ∈ entries, entry.decl.size ≤ limit)
    (hroom : (printFile entries).length < budget) {fuel : Nat}
    (hfuel : (printFile entries).length < fuel) :
    Draws (At {} (printFile entries)) (At {} []) (loop (fileStep (.tie limit budget)) fuel ())
      (fileLayout entries) := by
  induction entries generalizing fuel with
  | nil =>
    obtain ⟨fuel, rfl⟩ : ∃ n, fuel = n + 1 := ⟨fuel - 1, by omega⟩
    exact loop_done fileStep_end fuel
  | cons entry entries ih =>
    have hresumes := resumes_printFile entries
    have htext : printFile (entry :: entries) = entry.print ++ printFile entries := rfl
    have hprint : entry.print = entry.item.text ++ List.replicate entry.trailing '\n' := by
      rw [← entry.text_layout, Printed.Entry.layout, text_append, text_newlines]
    have hlayout : fileLayout (entry :: entries) =
        entry.item ++ (newlines entry.trailing ++ fileLayout entries) := by
      rw [← Layout.append_assoc]
      rfl
    have htrailing := Entry.trailing_lt entry
    rw [htext, List.length_append] at hroom hfuel
    obtain ⟨fuel, rfl⟩ : ∃ n, fuel = n + entry.trailing + 1 := ⟨fuel - entry.trailing - 1, by omega⟩
    have hmore := ih (fun e he => hsize e (List.mem_cons_of_mem _ he)) (by omega)
      (show (printFile entries).length < fuel by omega)
    have hstep := entry_step hresumes (hsize entry List.mem_cons_self)
      (show entry.print.length < budget by omega)
    have hnewlines := loop_newlines (P := fun text => At {} text) fileStep_newline hmore
      entry.trailing
    rw [htext, hprint, List.append_assoc, hlayout]
    exact loop_again hstep hnewlines

end Entries

/-- A file is read as its items, if it has no shebang line. -/
theorem file_draws_of_items {rules : Rules} {text : Text} {x : Layout} (hresumes : Resumes text)
    (hitems : Draws (At {} text) (At {} []) (loop (fileStep rules) rules.budget ()) x) :
    Draws (At {} text) (At {} []) (file rules) x := by
  have hshebang : Draws (At {} text) (At {} text) (fileShebang rules) .empty := by
    refine .look false (fun s hs => congrArg (·, s) ?_) (.pure rfl)
    obtain ⟨hflush, hkind⟩ := hs.front_resumes (.inl rfl) hresumes
    change (s.front == .shebangStart) = false
    rw [front_of_flush hflush]
    rcases hkind with hkind | hkind <;> rw [hkind] <;> rfl
  have hlast : Draws (At {} []) (At {} []) trivia .empty :=
    trivia_idle fun s hs => (hs.front_resumes (.inl rfl) (.inl rfl)).1
  refine .skip hshebang ?_
  rw [← append_empty x]
  refine .bind hitems fun items => ?_
  exact .last hlast fun _ => rfl

/-- The file is read as its layout. -/
theorem file_draws {limit budget : Nat} (entries : List Printed.Entry)
    (hsize : ∀ entry ∈ entries, entry.decl.size ≤ limit)
    (hroom : (printFile entries).length < budget) :
    Draws (At {} (printFile entries)) (At {} []) (file (.tie limit budget)) (fileLayout entries) :=
  file_draws_of_items (resumes_printFile entries) (entries_draws entries hsize hroom hroom)

/-- Nothing is read before the first declaration. -/
theorem at_ofText {text : Text} (hresumes : Resumes text) : At {} text (.ofText text) := by
  have hhead : (text.head? == some byteOrderMark) = false := by
    rcases hresumes with rfl | ⟨name, after, rfl, -⟩
    · rfl
    · obtain ⟨c, rest, htext, hstart, -⟩ := name.cons
      rw [htext, beq_eq_false_iff_ne]
      intro heq
      rw [Option.some.inj heq] at hstart
      revert hstart
      decide
  have hbase : (Scanner.ofText text).base = 0 := by simp [Scanner.ofText, hhead]
  exact ⟨⟨rfl, Nat.le_of_eq hbase, rfl, rfl⟩, rfl, rfl, rfl, rfl, rfl⟩

end Justfile.Grammar

namespace Justfile

open Printed Grammar

/-- A text that is read as a layout parses to the nodes of the layout, without faults. -/
theorem parse_of_draws {limit : Nat} {x : Layout} (hresumes : Resumes x.text)
    (hfile : Draws (At {} x.text) (At {} []) (file (.tie limit (budgetFor x.text.length))) x) :
    parse limit x.text =
      { source := x.text
        root := .branch none .sourceFile (x.nodes 0) x.text.byteSize
        diagnostics := [] } := by
  obtain ⟨hnodes, -, hpass⟩ := hfile _ (at_ofText hresumes)
  have hrun : Grammar.run limit x.text =
      file (.tie limit (budgetFor x.text.length)) (.ofText x.text) := rfl
  rw [← hrun] at hnodes hpass
  have hoffset : (Grammar.run limit x.text).2.stream.offset = x.text.byteSize :=
    hpass.offset.trans (Nat.zero_add _)
  have hreports : (Grammar.run limit x.text).2.reports = [] := hpass.reports
  unfold parse
  dsimp only
  rw [hnodes, hoffset, hreports]
  rfl

/-- **A printed file is read as its layout, without faults.** -/
theorem parse_printFile (limit : Nat) (entries : List Printed.Entry)
    (hsize : ∀ entry ∈ entries, entry.decl.size ≤ limit) :
    parse limit (printFile entries) =
      { source := printFile entries
        root := .branch none .sourceFile ((fileLayout entries).nodes 0) (printFile entries).byteSize
        diagnostics := [] } := by
  have hroom : (printFile entries).length < budgetFor (printFile entries).length := by
    unfold budgetFor
    omega
  have hresumes := resumes_printFile entries
  have hfile := file_draws entries hsize hroom
  rw [← text_fileLayout] at hresumes hfile ⊢
  exact parse_of_draws hresumes hfile

end Justfile
