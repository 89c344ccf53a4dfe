import Justfile.Proofs.Append.Tree

/-!
# The calls of items

A file is read item by item. `Calls` lists the states in which items are called, from a state on up to the
end of the input, without a budget: each item is called where the one before it returned. That the loop of a
file comes to its end is that there is such a list (`exists_calls`).

What holds in front of the first item, and is kept by each, holds at all calls (`Calls.forall_mem`).
-/

set_option autoImplicit false

namespace Justfile.Grammar

/-- The states in which items are called from a state on, and the state at the end of the input. -/
inductive Calls (rules : Rules) : State → List State → State → Prop
  | stop {s : State} : s.front = .endOfInput → Calls rules s [] s
  | call {s t : State} {states : List State} : s.front ≠ .endOfInput →
      Calls rules (item rules s).2 states t → Calls rules s (s :: states) t

/-- The rules that a source is read with. -/
abbrev rulesFor (limit : Nat) (source : Text) : Rules := .tie limit (budgetFor source.length)

/-- The state in front of the first item: behind the shebang line, if there is one. -/
def firstItem (limit : Nat) (source : Text) : State :=
  (fileShebang (rulesFor limit source) (.ofText source)).2

section Calls

variable {rules : Rules} {s t : State} {states : List State}

/-- What each item keeps holds at all calls. -/
theorem Calls.forall_mem {P : State → Prop} (calls : Calls rules s states t) (start : P s)
    (step : ∀ u, P u → u.front ≠ .endOfInput → P (item rules u).2) :
    ∀ u ∈ states, P u ∧ u.front ≠ .endOfInput := by
  induction calls with
  | stop => exact fun _ hmem => absurd hmem List.not_mem_nil
  | @call s t states hne _ ih =>
    exact List.forall_mem_cons.2 ⟨⟨start, hne⟩, ih (step s start hne)⟩

/-- A loop that did not run out of its budget has called items up to the end of the input. -/
theorem exists_calls_of_loop {fuel : Nat}
    (hlive : (loop (fileStep rules) fuel () s).2.exhausted = false) :
    ∃ states, Calls rules s states (loop (fileStep rules) fuel () s).2 := by
  induction fuel generalizing s with
  -- A loop without budget would have left its mark.
  | zero => cases hlive
  | succ fuel ih =>
    by_cases hend : s.front = .endOfInput
    · rw [loop_fileStep_end hend]
      exact ⟨[], .stop hend⟩
    · rw [loop_fileStep_item hend] at hlive ⊢
      obtain ⟨states, calls⟩ := ih hlive
      exact ⟨s :: states, .call hend calls⟩

end Calls

theorem exhausted_flushed (s : State) : s.flushed.exhausted = s.exhausted := rfl

/-- Reading a source calls items up to its end. -/
theorem exists_calls (limit : Nat) (source : Text) :
    ∃ states last, Calls (rulesFor limit source) (firstItem limit source) states last ∧
      (run limit source).2 = last.flushed := by
  have hlive := exhausted_run limit source
  unfold firstItem
  rw [run_eq, file_eq, items_eq] at hlive ⊢
  dsimp only at hlive
  rw [exhausted_flushed] at hlive
  obtain ⟨states, calls⟩ := exists_calls_of_loop hlive
  exact ⟨states, _, calls, rfl⟩

/-! ## Between two items -/

/-- What is known between two items besides the state of the scanner: an item can be entered, outside of
all brackets, expressions and literals. -/
structure Between (limit bound : Nat) (s : State) : Prop where
  entry : Entry limit (bound + 1) (reach limit) s
  mode : s.stream.mode = .normal
  nesting : s.stream.nesting = 0
  lineBound : s.stream.lineBound = false
  depth : s.depth = 0
  live : s.exhausted = false

section Between

variable {limit bound : Nat} {rules : Rules} {s t : State} {nodes : Forest}

theorem Between.after {place : Place} {height : Nat} (between : Between limit bound s)
    (ran : Ran place height s nodes t) : Between limit bound t :=
  ⟨between.entry.after ran, ran.keeps.mode.trans between.mode,
    ran.keeps.nesting.trans between.nesting, ran.keeps.lineBound.trans between.lineBound,
    ran.keeps.depth.trans between.depth, ran.derives.advances.exhausted_eq.trans between.live⟩

/-- An item reads something. -/
theorem Between.ran (serves : Serves rules bound) (between : Between rules.limit bound s)
    (hne : s.front ≠ .endOfInput) :
    Ran .outside (reach rules.limit + 10) s (item rules s).1 (item rules s).2 ∧
      (item rules s).2.scanner.work < s.scanner.work :=
  item_spec rfl serves between.entry between.mode hne (Nat.le_refl _)

/-- It ends where the next one can be called. -/
theorem Between.item (serves : Serves rules bound) (between : Between rules.limit bound s)
    (hne : s.front ≠ .endOfInput) : Between rules.limit bound (item rules s).2 :=
  between.after (between.ran serves hne).1

end Between

theorem exists_bound (source : Text) : ∃ bound, budgetFor source.length = bound + 1 :=
  ⟨8 * source.length + 7, rfl⟩

theorem serves_rulesFor (limit : Nat) {source : Text} {bound : Nat}
    (hbound : budgetFor source.length = bound + 1) : Serves (rulesFor limit source) bound := by
  unfold rulesFor
  rw [hbound]
  exact serves_tie

theorem between_firstItem (limit : Nat) (source : Text) {bound : Nat}
    (hbound : budgetFor source.length = bound + 1) :
    Between limit bound (firstItem limit source) := by
  have entry := entry_ofText limit source
  rw [hbound] at entry
  have start : Between limit bound (.ofText source) := ⟨entry, rfl, rfl, rfl, rfl, rfl⟩
  have houtcome := fileShebang_spec .outside (serves_rulesFor limit hbound) entry (Nat.le_refl _)
  exact start.after houtcome.toRan

end Justfile.Grammar
