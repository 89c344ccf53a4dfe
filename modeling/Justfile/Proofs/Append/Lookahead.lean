import Justfile.Proofs.Append.Dangling
import Justfile.Proofs.Simulation.Balance

/-!
# Looking ahead in joined texts

What the stream skips and sees in front of a text that ends with a line, with another text behind it. As
long as something of the first text is left, it is the same (`Stream.ahead_normal`). Where nothing is left,
the end of the input is seen without the second text, and the start of an item with it.

A line of the first text that goes on to its end would go on in the second one. `Doomed` says that reading
came into such a line. It never comes out again.
-/

set_option autoImplicit false

namespace Justfile

namespace Scanner

open Justfile.Measure

variable {s : Scanner} {more : Text}

/-! ## Looking ahead -/

theorem Run.fed {mode : Mode} {s t : Scanner} {tokens : List Token} (run : Run mode s tokens t)
    (fed : s.Fed) : t.Fed := by
  induction run with
  | nil => exact fed
  | cons _ ih => exact ih (fed.next mode)

/-- Items and expressions do not reach beyond the first text. -/
theorem Extends.eq_of_normal {out out' : Token × Scanner} (h : Extends .normal more out out') :
    out' = follow more out := by
  cases h with
  | same => rfl
  | text hmode => cases hmode
  | fault hmode => cases hmode

/-- White space among the contents of a literal was decided ahead, and something is left behind it. -/
theorem Fed.next_contents (fed : s.Fed) {mode : Mode} (hmode : mode.fault?.isSome = true)
    (hrest : s.rest ≠ []) (hskipped : Scanner.isSkipped (s.next mode).1.kind = true) :
    (s.next mode).2.rest ≠ [] := by
  have hlines := fed.isLines hrest
  have hdrop : ∀ {size : Nat}, size < s.rest.length → s.rest.drop size ≠ [] :=
    fun hlt hnil => absurd (List.drop_eq_nil_iff.1 hnil) (Nat.not_le.2 hlt)
  rcases s.ahead_cases with ⟨kind, size, queued, hqueued⟩ | ⟨hqueued, hbase⟩ |
    ⟨hqueued, hbase, count, hpending⟩ | ⟨hqueued, hbase, hpending, fault, hfault⟩ | ready
  · have htotal := fed.queued (hqueued ▸ List.cons_ne_nil _ _)
    rw [hqueued, Interpreter.total] at htotal
    have hlt := line_lt hlines
    rw [next_of_queued hqueued]
    exact hdrop (by omega)
  · obtain ⟨rest, hcons⟩ := List.head?_eq_some_iff.1 (fed.mark hbase)
    rw [hcons] at hlines
    rw [next_of_lt_base hqueued hbase]
    refine hdrop ?_
    rw [hcons]
    exact Nat.succ_lt_succ (List.length_pos_iff.2 (hlines.tail (by decide)).ne_nil)
  · rw [next_of_pendingDedents hqueued hbase hpending] at hskipped
    cases hskipped
  · rw [next_of_pendingFault hqueued hbase hpending hfault] at hskipped
    cases hskipped
  · rw [ready.isSkipped_content hmode] at hskipped
    cases hskipped

theorem Run.contents {mode : Mode} {s t : Scanner} {tokens : List Token} (run : Run mode s tokens t)
    (fed : s.Fed) (hmode : mode.fault?.isSome = true)
    (hskipped : ∀ token ∈ tokens, Scanner.isSkipped token.kind = true) (hrest : s.rest ≠ []) :
    t.rest ≠ [] := by
  induction run with
  | nil => exact hrest
  | @cons s t tokens _ ih =>
    exact ih (fed.next mode) (fun token hmem => hskipped token (List.mem_cons_of_mem _ hmem))
      (fed.next_contents hmode hrest (hskipped _ List.mem_cons_self))

end Scanner

namespace Stream

open Scanner Justfile.Measure

variable {z : Stream} {s : Scanner} {more : Text}

theorem isTrivia_of_isSkipped {kind : Token.Kind} (h : isSkipped kind = false) :
    z.isTrivia kind = false := by
  unfold isTrivia
  unfold isSkipped at h
  split at h
  · cases h
  · next hkind =>
    rw [h, Bool.false_or, beq_eq_false_iff_ne.2 hkind]
    rfl

theorem isSkipped_of_isTrivia {kind : Token.Kind} (h : z.isTrivia kind = true) :
    isSkipped kind = true := by
  rw [← Bool.not_eq_false]
  intro hnot
  rw [isTrivia_of_isSkipped hnot] at h
  cases h

theorem isTrivia_extends {mode : Mode} {out out' : Token × Scanner} (h : Extends mode more out out')
    (hout : z.isTrivia out.1.kind = false) : z.isTrivia out'.1.kind = false := by
  cases h with
  | same => exact hout
  | text _ _ _ hkind =>
    rw [hkind]
    rfl
  | fault _ _ hkind => exact isTrivia_of_isSkipped hkind

theorem eq_of_isTrivia {mode : Mode} {out out' : Token × Scanner} (h : Extends mode more out out')
    (hout : z.isTrivia out.1.kind = true) : out' = follow more out := by
  cases h with
  | same => rfl
  | text _ hkind =>
    rw [hkind] at hout
    cases hout
  | fault _ hkind =>
    cases heq : out.1.kind with
    | errorRecovery =>
      rw [heq] at hout
      cases hout
    | _ =>
      rw [heq] at hkind
      cases hkind

section Followed

variable (fed : s.Fed) (hpending : s.pendingDedents = 0) (hmore : StartsItem more)
include fed hpending hmore

/-- The same trivia is skipped in front of more text. -/
theorem skip_followed {fuel fuel' : Text} (hfuel : s.rest.length ≤ fuel.length)
    (hfuel' : (s.rest ++ more).length ≤ fuel'.length) :
    z.skip fuel' (s.followed more) = ((z.skip fuel s).1, (z.skip fuel s).2.followed more) := by
  induction fuel generalizing s fuel' with
  | nil =>
    have hrest : s.rest = [] := List.length_eq_zero_iff.1 (Nat.le_zero.1 hfuel)
    rw [skip_of_not_isTrivia (isTrivia_of_isSkipped (fed.isSkipped_followed hmore hrest hpending _))]
    rfl
  | cons c fuel ih =>
    by_cases hrest : s.rest = []
    · have hstop : z.isTrivia (s.next z.mode).1.kind = false := by
        rw [Bool.eq_false_iff]
        intro htrivia
        have hlt := (step_next s z.mode).rest_lt fed.wellFormed (canBeEmpty_of_isTrivia htrivia)
        rw [hrest] at hlt
        exact Nat.not_lt_zero _ hlt
      rw [skip_of_not_isTrivia hstop,
        skip_of_not_isTrivia (isTrivia_of_isSkipped (fed.isSkipped_followed hmore hrest hpending _))]
    · have hext := next_followed (fed.isLines hrest) fed.wellFormed hmore z.mode
      cases htrivia : z.isTrivia (s.next z.mode).1.kind with
      | false =>
        rw [skip_of_not_isTrivia htrivia, skip_of_not_isTrivia (isTrivia_extends hext htrivia)]
      | true =>
        have hsame := eq_of_isTrivia hext htrivia
        have hlt := (step_next s z.mode).rest_lt fed.wellFormed (canBeEmpty_of_isTrivia htrivia)
        have hlevels := levels_next fed.wellFormed (isLevel_of_isTrivia htrivia)
        rw [List.length_append] at hfuel'
        rw [List.length_cons] at hfuel
        cases fuel' with
        | nil =>
          rw [List.length_nil] at hfuel'
          omega
        | cons c' fuel' =>
          rw [List.length_cons] at hfuel'
          have hskip := @ih _ (fed.next z.mode) (hlevels.2.trans hpending) fuel' (by omega) (by
            rw [List.length_append]
            omega)
          simp only [skip, hsame, follow, htrivia, if_true, hskip]

theorem ahead_followed :
    z.ahead (s.followed more) =
      ⟨(z.ahead s).trivia, (z.ahead s).before.followed more,
        (((z.ahead s).before.followed more).next z.mode).1,
        (((z.ahead s).before.followed more).next z.mode).2⟩ := by
  have hskip : z.skip (s.followed more).rest (s.followed more) = _ :=
    skip_followed fed hpending hmore (Nat.le_refl _) (Nat.le_refl _)
  unfold ahead
  rw [hskip]

omit hmore in
theorem fed_before : (z.ahead s).before.Fed ∧ (z.ahead s).before.pendingDedents = 0 := by
  obtain ⟨hrun, htrivia, -⟩ := skip_spec z s.rest s fed.wellFormed (Nat.le_refl _)
  have hlevels := hrun.levels fed.wellFormed fun token hmem => isLevel_of_isTrivia (htrivia token hmem)
  exact ⟨hrun.fed fed, hlevels.2.trans hpending⟩

/-- Items and expressions are read alike as long as something is left. Where nothing is left, the next
item starts. -/
theorem ahead_normal (hmode : z.mode = .normal) :
    ((z.ahead s).before.rest ≠ [] ∧ (z.ahead (s.followed more)).token = (z.ahead s).token ∧
      (z.ahead (s.followed more)).after = (z.ahead s).after.followed more) ∨
    ((z.ahead s).before.rest = [] ∧ (z.ahead s).token.kind = .endOfInput ∧
      isItemStart (z.ahead (s.followed more)).token.kind = true) := by
  obtain ⟨hfed, hnone⟩ := fed_before (z := z) fed hpending
  have hnext : (z.ahead s).token = ((z.ahead s).before.next z.mode).1 ∧
      (z.ahead s).after = ((z.ahead s).before.next z.mode).2 := ⟨rfl, rfl⟩
  rw [ahead_followed fed hpending hmore, hnext.1, hnext.2]
  generalize (z.ahead s).before = before at *
  dsimp only
  rw [hmode]
  by_cases hrest : before.rest = []
  · have ready := hfed.wellFormed.ready_of_nil hrest hnone
    refine .inr ⟨hrest, ?_, hfed.isItemStart_followed hmore hrest hnone (.inl rfl)⟩
    rw [ready.next_eq]
    dsimp only [normal]
    rw [hrest]
    rfl
  · have hext := next_followed (hfed.isLines hrest) hfed.wellFormed hmore .normal
    rw [hext.eq_of_normal]
    exact .inl ⟨hrest, rfl, rfl⟩

/-- Further tokens of items and expressions, as long as the input does not end in front of them. -/
theorem nthFrom_followed (hmode : z.mode = .normal) {n : Nat}
    (h : ∀ k < n, (z.nthFrom k s).kind ≠ .endOfInput) :
    z.nthFrom n (s.followed more) = z.nthFrom n s ∨
      ((z.nthFrom n s).kind = .endOfInput ∧
        isItemStart (z.nthFrom n (s.followed more)).kind = true) := by
  have hahead := ahead_normal (z := z) fed hpending hmore hmode
  induction n generalizing s with
  | zero =>
    rcases hahead with ⟨-, htoken, -⟩ | ⟨-, hend, hstart⟩
    · exact .inl htoken
    · exact .inr ⟨hend, hstart⟩
  | succ n ih =>
    have hfirst : (z.ahead s).token.kind ≠ .endOfInput := h 0 (Nat.succ_pos n)
    obtain ⟨hfed, hnone⟩ := fed_before (z := z) fed hpending
    have hlevel : ((z.ahead s).before.next z.mode).1.kind.isLevel = false :=
      isLevel_next hfed.wellFormed hnone (.inl (by rw [hmode]; rfl))
    have hafter := (levels_next hfed.wellFormed hlevel).2.trans hnone
    rcases hahead with ⟨-, htoken, hscanner⟩ | ⟨-, hend, -⟩
    · have hnth : ∀ k, z.nthFrom (k + 1) s = z.nthFrom k (z.ahead s).after := by
        intro k
        rw [nthFrom, if_neg hfirst]
      have hnth' : z.nthFrom (n + 1) (s.followed more) =
          z.nthFrom n ((z.ahead s).after.followed more) := by
        rw [nthFrom, htoken, if_neg hfirst, hscanner]
      rw [hnth', hnth]
      refine ih (s := (z.ahead s).after) (hfed.next z.mode) hafter (fun k hk => ?_)
        (ahead_normal (hfed.next z.mode) hafter hmore hmode)
      rw [← hnth]
      exact h (k + 1) (Nat.succ_lt_succ hk)
    · exact absurd hend hfirst

end Followed

end Stream

namespace Grammar

open Scanner Justfile.Measure

/-! ## Lines that do not end -/

/-- The last token that is no move between levels ends a line; the latest token is the first one. -/
def EndsLine (consumed : List Token) : Prop :=
  ∃ token, consumed.find? (fun token => !token.kind.isLevel) = some token ∧ token.kind = .newline

section EndsLine

variable {token : Token} {consumed : List Token}

theorem endsLine_cons_of_isLevel (h : token.kind.isLevel = true) :
    EndsLine (token :: consumed) ↔ EndsLine consumed := by
  unfold EndsLine
  rw [List.find?_cons_of_neg]
  rw [h]
  decide

theorem not_endsLine_cons (h : token.kind.isLevel = false) (hkind : token.kind ≠ .newline) :
    ¬EndsLine (token :: consumed) := by
  rintro ⟨found, hfound, hline⟩
  rw [List.find?_cons_of_pos] at hfound
  · cases hfound
    exact hkind hline
  · rw [h]
    rfl

end EndsLine

/-- Reading came into a line that does not end. -/
structure Doomed (s : Scanner) (consumed : List Token) : Prop where
  dangling : s.Dangling
  last : s.rest = [] → ¬EndsLine consumed

section Doomed

variable {s t : Scanner} {mode : Mode} {token : Token} {tokens consumed : List Token}

/-- Such a line goes on, unless what is read of it is at fault. -/
theorem Doomed.next (h : Doomed s consumed) (fed : s.Fed)
    (herror : (s.next mode).1.kind.isErrorRecovery = false)
    (hlevel : token.kind.isLevel = (s.next mode).1.kind.isLevel)
    (hline : token.kind = .newline → (s.next mode).1.kind = .newline) :
    Doomed (s.next mode).2 (token :: consumed) := by
  rcases h.dangling.next fed mode with hfault | ⟨hdangling, hkind, hsame⟩
  · rw [herror] at hfault
    cases hfault
  · refine ⟨hdangling, fun hrest => ?_⟩
    cases hcase : (s.next mode).1.kind.isLevel with
    | true =>
      rw [endsLine_cons_of_isLevel (hlevel.trans hcase)]
      exact h.last ((hsame hcase).symm.trans hrest)
    | false => exact not_endsLine_cons (hlevel.trans hcase) fun hnew => hkind (hline hnew)

theorem Doomed.run (h : Doomed s consumed) (run : Run mode s tokens t) (fed : s.Fed)
    (hclean : ∀ token ∈ tokens, token.kind.isErrorRecovery = false) :
    Doomed t (tokens.reverse ++ consumed) := by
  induction run generalizing consumed with
  | nil => exact h
  | @cons s t tokens _ ih =>
    have hnext := h.next fed (hclean _ List.mem_cons_self) rfl id
    rw [List.reverse_cons, List.append_assoc]
    exact ih hnext (fed.next mode) fun token hmem => hclean token (List.mem_cons_of_mem _ hmem)

end Doomed

end Grammar

end Justfile
