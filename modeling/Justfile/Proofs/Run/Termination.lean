import Justfile.Proofs.Reading.Progress
import Justfile.Proofs.Run.Calls
import Justfile.Proofs.Simulation.Nested

/-!
# Reading comes to its end

The loops and the nesting of expressions run on a budget, which is never used up. The reason is told here
without it (`reading_terminates`): an item consumes a token unless the input is at its end, a loop that goes
on has consumed one, and an expression leads to another one only behind one. So with more budget a source is
read in the same way, and there are no more calls of items than tokens.

Wherever its scanner has read some of a source, the budget of that source is enough (`State.On`). This holds
in all states of a run, and beyond them.
-/

set_option autoImplicit false

namespace Justfile.Grammar

section Source

variable {limit : Nat} {source : Text} {s t : State}

theorem State.On.entry (h : s.On source) (houter : s.stream.mode.fault? = none) {bound : Nat}
    (hbound : budgetFor source.length = bound + 1) (limit : Nat) :
    Entry limit bound (reach (limit - s.depth)) s :=
  ⟨h.affords hbound limit, houter⟩

/-! ## Items -/

/-- An item consumes a token, unless the input is at its end. -/
theorem item_consumes (limit : Nat) (hs : s.On source) (hmode : s.stream.mode = .normal)
    (hne : s.front ≠ .endOfInput) :
    s.consumed.length < (item (rulesFor limit source) s).2.consumed.length ∧
      (item (rulesFor limit source) s).2.On source ∧
      (item (rulesFor limit source) s).2.stream.mode = .normal := by
  obtain ⟨bound, hbound⟩ := exists_bound source
  have entry := hs.entry (by rw [hmode]; rfl) hbound limit
  have hplace : Place.outside.below = .outside := rfl
  obtain ⟨hran, hwork⟩ := item_spec hplace (serves_rulesFor limit hbound)
    entry.weaken hmode hne (Nat.le_refl _)
  exact ⟨hran.derives.grows.length_lt hwork, hran.derives.on hs, hran.keeps.mode.trans hmode⟩

/-- There are no more calls of items than tokens that they consume. -/
theorem Calls.length_le {states : List State} (calls : Calls (rulesFor limit source) s states t)
    (hs : s.On source) (hmode : s.stream.mode = .normal) :
    s.consumed.length + states.length ≤ t.consumed.length := by
  -- Each call pays for itself, and leads to a place in the source where the next one can do so.
  induction calls with
  | stop => exact Nat.le_refl _
  | @call s t states hne _ ih =>
    obtain ⟨hlt, hon, hafter⟩ := item_consumes limit hs hmode hne
    have hmore := ih hon hafter
    rw [List.length_cons]
    omega

/-! ## Loops -/

section Loops

variable {l? : Option Literal} {σ : Type} {step : σ → Parse (Forest × Option σ)}

/-- A loop goes on only if it consumed a token, and is then where it was before, with less work ahead. -/
theorem Loop.consumes (loop : Loop (rulesFor limit source) l? step) (hs : s.On source)
    (hplace : Surrounds l? s) {memory next : σ} (hnext : (step memory s).1.2 = some next) :
    (s.consumed.length < (step memory s).2.consumed.length ∧ (step memory s).2.On source ∧
      Surrounds l? (step memory s).2) ∧ (step memory s).2.scanner.work < s.scanner.work := by
  obtain ⟨bound, hbound⟩ := exists_bound source
  have hgoes := loop.goesOn (serves_rulesFor limit hbound) (hs.affords hbound limit) hplace memory
  obtain ⟨⟨_, _, _, hderives⟩, hwork, hmode⟩ := hgoes (by rw [hnext]; exact nofun)
  exact ⟨⟨hderives.grows.length_lt hwork, hderives.on hs, hplace.of_mode hmode⟩, hwork⟩

/-- A loop comes to its end, without a budget: it goes through rounds, each of which consumes a token, up
to a step that does not go on. -/
theorem Loop.exists_rounds (loop : Loop (rulesFor limit source) l? step) (hs : s.On source)
    (hplace : Surrounds l? s) (memory : σ) :
    ∃ count last t, Rounds step memory s count last t ∧ (step last t).1.2 = none ∧
      s.consumed.length + count ≤ t.consumed.length ∧ count ≤ s.scanner.work := by
  generalize hwork : s.scanner.work = work
  -- The work ahead bounds the rounds: it gets less with each.
  induction work using Nat.strong_induction_on generalizing s memory with
  | h work ih =>
    subst hwork
    cases hnext : (step memory s).1.2 with
    | none => exact ⟨0, memory, s, .start, hnext, Nat.le_refl _, Nat.zero_le _⟩
    | some next =>
      obtain ⟨⟨hlt, hon, hafter⟩, hless⟩ := loop.consumes hs hplace hnext
      obtain ⟨count, last, t, rounds, hend, hlength, hcount⟩ := ih _ hless hon hafter next rfl
      exact ⟨count + 1, last, t, .round hnext rounds, hend, by omega, by omega⟩

end Loops

end Source

/-! ## All of it -/

theorem on_firstItem (limit : Nat) (source : Text) : (firstItem limit source).On source := by
  obtain ⟨bound, hbound⟩ := exists_bound source
  have entry := (on_ofText source).entry rfl hbound limit
  have houtcome := fileShebang_spec .outside (serves_rulesFor limit hbound) entry.weaken (Nat.le_refl _)
  exact houtcome.derives.on (on_ofText source)

/-- Reading comes to its end, whatever the limit: no budget is used up, and a larger one makes no difference.
For an item consumes a token unless the input is at its end, a loop that goes on consumed one, and so did an
expression that leads to another one. So each loop goes through no more rounds than it consumes tokens, and
fewer than the budget, which then makes no difference to it either; and there are no more calls of items than
tokens. -/
theorem reading_terminates (limit : Nat) (source : Text) :
    (run limit source).2.exhausted = false ∧
    (∀ budget, budgetFor source.length ≤ budget →
      file (.tie limit budget) (.ofText source) = run limit source) ∧
    (∀ s : State, s.On source → s.stream.mode = .normal → s.front ≠ .endOfInput →
      s.consumed.length < (item (rulesFor limit source) s).2.consumed.length) ∧
    (∀ {l? : Option Literal} {σ : Type} {step : σ → Parse (Forest × Option σ)},
      Loop (rulesFor limit source) l? step → ∀ (s : State) (memory next : σ), s.On source →
        Surrounds l? s → (step memory s).1.2 = some next →
          s.consumed.length < (step memory s).2.consumed.length ∧
            (step memory s).2.On source ∧ Surrounds l? (step memory s).2) ∧
    (∀ {l? : Option Literal} {σ : Type} {step : σ → Parse (Forest × Option σ)},
      Loop (rulesFor limit source) l? step → ∀ (s : State) (memory : σ), s.On source →
        Surrounds l? s → ∃ count last t, Rounds step memory s count last t ∧
          (step last t).1.2 = none ∧ s.consumed.length + count ≤ t.consumed.length ∧
          count < budgetFor source.length ∧
          ∀ fuel, count < fuel → (loop step fuel memory s).2 = (step last t).2) ∧
    (∀ (right? : Token.Kind → Option (Parse Forest)) (s t : State) (nodes last : Forest) (count : Nat),
      Rounds (chainStep (rulesFor limit source) right?) nodes s count last t →
        (chainStep (rulesFor limit source) right? last t).1.2 = none → ∀ fuel wraps, count < fuel →
          (chainFrom (rulesFor limit source) right? fuel wraps nodes s).2 =
            (surface (wraps + count) (chainStep (rulesFor limit source) right? last t).2).2) ∧
    (∀ s : State, s.On source → s.stream.mode = .normal → s.exhausted = false → ∀ field,
      (rulesFor limit source).expression field s = expression (rulesFor limit source) field s ∧
      ∀ other : Option Field → Parse Forest,
        (∀ field t, s.consumed.length < t.consumed.length →
          other field t = (rulesFor limit source).expression field t) →
        expression { rulesFor limit source with expression := other } field s =
          expression (rulesFor limit source) field s) ∧
    ∃ states last, Calls (rulesFor limit source) (firstItem limit source) states last ∧
      (run limit source).2 = last.flushed ∧
      (∀ s ∈ states, s.On source ∧ s.stream.mode = .normal ∧ s.front ≠ .endOfInput) ∧
      states.length ≤ (run limit source).2.consumed.length := by
  obtain ⟨bound, hbound⟩ := exists_bound source
  refine ⟨exhausted_run limit source, fun budget => file_tie_of_le limit source, fun s hs hmode hne =>
    (item_consumes limit hs hmode hne).1, fun loop s memory next hs hplace hnext =>
    (loop.consumes hs hplace hnext).1, ?_, ?_, ?_, ?_⟩
  · -- Every round consumes a token, and there are fewer tokens than the budget.
    intro l? σ step loop s memory hs hplace
    obtain ⟨count, last, t, rounds, hend, hlength, hcount⟩ := loop.exists_rounds hs hplace memory
    refine ⟨count, last, t, rounds, hend, hlength, ?_, fun fuel => loop_of_rounds rounds hend⟩
    have hwork := (hs.affords hbound limit).work_lt
    omega
  · -- A chain also counts its signs, and takes them back from the depth at its end.
    intro right? s t nodes last count rounds hend fuel wraps
    exact chainFrom_of_rounds rounds hend
  · -- Nested expressions: the production is tied to itself, and leads to itself behind a token only.
    intro s hs hmode hlive field
    have entry := hs.entry (by rw [hmode]; rfl) hbound limit
    unfold rulesFor
    rw [hbound]
    exact ⟨expression_tie entry hmode hlive field,
      fun other hagree => expression_of_agree entry hmode hlive hagree field⟩
  · -- The calls of this run, each in a state that the part on items is about.
    obtain ⟨states, last, calls, hrun⟩ := exists_calls limit source
    have hmode := (between_firstItem limit source hbound).mode
    have hon := on_firstItem limit source
    have hstates := calls.forall_mem
      (P := fun s => s.On source ∧ s.stream.mode = .normal) ⟨hon, hmode⟩
      fun s ⟨hs, hnormal⟩ hne => (item_consumes limit hs hnormal hne).2
    refine ⟨states, last, calls, hrun, fun s hmem => ?_, ?_⟩
    · obtain ⟨⟨hs, hnormal⟩, hne⟩ := hstates s hmem
      exact ⟨hs, hnormal, hne⟩
    · have hcount := calls.length_le hon hmode
      rw [hrun]
      change states.length ≤ (last.stream.takeTrivia.1.reverse ++ last.consumed).length
      rw [List.length_append]
      omega

end Justfile.Grammar
