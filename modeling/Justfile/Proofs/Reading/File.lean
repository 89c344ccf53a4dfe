import Justfile.Proofs.Diagnostic
import Justfile.Proofs.Reading.Item

/-!
# Reading files

Reading a source is a derivation that ends with the input (`derives_file`). The height of what
it makes depends on the limit on nested expressions alone, as long as no interpolation stands inside
an error node; no budget runs out.
-/

set_option autoImplicit false

namespace Justfile.Grammar

section File

variable {rules : Rules} {bound base height : Nat} {s : State}

theorem fileShebang_spec (place : Place) (serves : Serves rules bound)
    (entry : Entry rules.limit (bound + 1) base s) (hle : base ≤ height) :
    Ensures s (fileShebang rules) (Outcome place height s) := by
  have hfour := entry.four_le
  have hlt : 1 < height := by omega
  unfold fileShebang
  refine Ensures.isAt ?_ ?_
  · intro hfront
    refine (shebang_spec place serves entry hfront hlt none).bind ?_
    intro line t hline
    refine (lineEnd_spec place serves (entry.after hline.toRan) hle).bind ?_
    intro ending u hending
    exact hline.toOutcome.append hending
  · intro _
    exact .nil place height s

/-- The items of a file have been read, up to the end of the input. -/
def Exhausted (place : Place) (height : Nat) (s : State) (nodes : Forest) (t : State) : Prop :=
  Ran place height s nodes t ∧ t.front = .endOfInput

theorem fileStep_spec {place : Place} (hplace : place.below = place) (serves : Serves rules bound)
    (entry : Entry rules.limit (bound + 1) base s) (hmode : s.stream.mode = .normal)
    (hle : base + 10 ≤ height) :
    Ensures s (fileStep rules ())
      (Steps (fun _ t => Entry rules.limit (bound + 1) base t ∧ t.stream.mode = .normal)
        (fun _ => Exhausted place height) () s) := by
  unfold fileStep
  refine Ensures.isAt ?_ ?_
  · intro hend
    exact ⟨(Outcome.nil place height s).toRan, hend⟩
  · intro hne
    refine (item_spec hplace serves entry hmode hne hle).bind ?_
    rintro nodes t ⟨hnodes, hwork⟩
    refine ⟨⟨entry.after hnodes, hnodes.keeps.mode.trans hmode⟩, hwork, ?_⟩
    rintro more u ⟨hmore, hend⟩
    exact ⟨hnodes.append hmore, hend⟩

/-- Reading a file stops right in front of the end of the input. -/
theorem file_spec {place : Place} (hplace : place.below = place) (serves : Serves rules bound)
    (entry : Entry rules.limit (bound + 1) base s) (hmode : s.stream.mode = .normal)
    (hle : base + 10 ≤ height) :
    Ensures s (file rules) fun nodes t =>
      Ran place height s nodes t ∧ t.step.1.kind = .endOfInput := by
  have hpos : 0 < height := by omega
  unfold file
  refine (fileShebang_spec place serves entry (by omega : base ≤ height)).bind ?_
  intro first t hfirst
  have ht := entry.after hfirst.toRan
  refine (loop_spec (Q := fun _ => Exhausted place height)
    (fun _ u hu => fileStep_spec hplace serves hu.1 hu.2 hle)
    ⟨ht, hfirst.keeps.mode.trans hmode⟩ (serves.work_lt ht.toAffords)).bind ?_
  rintro items u ⟨hitems, hend⟩
  refine (trivia_spec (ht.after hitems).wellFormed).bind ?_
  intro last v trimmed
  exact ⟨(hfirst.toRan.append hitems).append (trimmed.outcome place hpos).toRan,
    trimmed.step_kind.trans hend⟩

end File

/-- The height of the nodes of a file, counting no interpolation inside an error node. -/
def fileReach (limit : Nat) : Nat := reach limit + 10

/-- The state before reading can be entered with the budget of the source. -/
theorem entry_ofText (limit : Nat) (source : Text) :
    Entry limit (budgetFor source.length) (reach limit) (.ofText source) := by
  refine ⟨⟨Scanner.wellFormed_ofText source, ?_, Nat.le_refl _⟩, rfl⟩
  have hwork := Scanner.work_ofText_le source
  change (Scanner.ofText source).work < 8 * (source.length + 1)
  omega

theorem file_tie_spec (limit : Nat) (source : Text) :
    Ensures (.ofText source) (file (.tie limit (budgetFor source.length))) fun nodes t =>
      Ran .outside (fileReach limit) (.ofText source) nodes t ∧ t.scanner.rest = [] := by
  obtain ⟨bound, hbound⟩ : ∃ bound, budgetFor source.length = bound + 1 :=
    ⟨8 * source.length + 7, by unfold budgetFor; omega⟩
  have entry := entry_ofText limit source
  rw [hbound] at entry ⊢
  have houtside : Place.outside.below = .outside := rfl
  refine (file_spec houtside serves_tie entry rfl (Nat.le_refl _)).mono ?_
  rintro nodes t ⟨hran, hend⟩
  have hwf := (entry.after hran).wellFormed
  have hinv := (Scanner.step_next t.scanner t.stream.mode).endOfInput_inv hwf hend
  exact ⟨hran, hinv.1⟩

theorem run_eq (limit : Nat) (source : Text) :
    run limit source = file (.tie limit (budgetFor source.length)) (.ofText source) := rfl

/-- Reading a source is a derivation, and nothing is left after it. -/
theorem derives_file (limit : Nat) (source : Text) :
    Derives .outside (fileReach limit) (.ofText source) (run limit source).1 (run limit source).2 ∧
      (run limit source).2.scanner.rest = [] := by
  rw [run_eq]
  exact ⟨(file_tie_spec limit source).1.derives, (file_tie_spec limit source).2⟩

/-- Behind the last item, no expression is open. -/
theorem depth_run (limit : Nat) (source : Text) : (run limit source).2.depth = 0 := by
  rw [run_eq]
  exact (file_tie_spec limit source).1.keeps.depth

/-- No loop runs out of its budget. -/
theorem exhausted_run (limit : Nat) (source : Text) : (run limit source).2.exhausted = false :=
  (derives_file limit source).1.advances.exhausted_eq

end Justfile.Grammar

namespace Justfile

/-- The root of a tree is around what its run returns. -/
theorem root_parse (limit : Nat) (source : Text) :
    (parse limit source).root = .branch none .sourceFile (Grammar.run limit source).1
      (Grammar.run limit source).2.stream.offset := rfl

/-- The diagnostics of a tree are what its run reports, in order. -/
theorem diagnostics_parse (limit : Nat) (source : Text) :
    (parse limit source).diagnostics =
      (Report.sort (Grammar.run limit source).2.reports.reverse).map (Report.located source) := by
  unfold parse
  dsimp only
  rw [Report.diagnose_eq]

end Justfile
