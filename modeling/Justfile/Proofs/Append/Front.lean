import Justfile.Proofs.Append.Joined
import Justfile.Proofs.Reading.File

/-!
# The first of two texts

A run on a text that ends with a line, and reports nothing, comes to its end with the last item. The run on
the same text with more behind it makes the same items first, and is at the same place then
(`file_joined`).
-/

set_option autoImplicit false

namespace Justfile.Grammar

open Justfile.Measure
open Text (IsLines)

/-- Items up to the end of the input. -/
def items (rules : Rules) (fuel : Nat) : Parse Forest := do
  let nodes ← loop (fileStep rules) fuel ()
  let last ← trivia
  return nodes ++ last

section Items

variable {rules rules' : Rules} {c : Context} {fuel : Nat} {s t : State}

theorem run_bind {α β : Type} {p : Parse α} {a : α} (h : p s = (a, t)) (f : α → Parse β) :
    (p >>= f) s = f a t := by
  change f (p s).1 (p s).2 = _
  rw [h]

theorem loop_fileStep_end (h : s.front = .endOfInput) :
    loop (fileStep rules) (fuel + 1) () s = ([], s) := by
  have hstep : fileStep rules () s = (([], none), s) := by
    change (if (s.front == .endOfInput) = true then done [] else item rules >>= again) s = _
    rw [h]
    rfl
  rw [loop, run_bind hstep]
  rfl

theorem loop_fileStep_item (h : s.front ≠ .endOfInput) :
    loop (fileStep rules) (fuel + 1) () s =
      ((item rules s).1 ++ (loop (fileStep rules) fuel () (item rules s).2).1,
        (loop (fileStep rules) fuel () (item rules s).2).2) := by
  have hstep : fileStep rules () s = (((item rules s).1, some ()), (item rules s).2) := by
    change (if (s.front == .endOfInput) = true then done [] else item rules >>= again) s = _
    rw [beq_eq_false_iff_ne.2 h]
    rfl
  rw [loop, run_bind hstep]
  rfl

theorem items_eq (rules : Rules) (fuel : Nat) (s : State) : items rules fuel s =
    ((loop (fileStep rules) fuel () s).1 ++
        (loop (fileStep rules) fuel () s).2.stream.takeTrivia.1.map (.ofToken none),
      (loop (fileStep rules) fuel () s).2.flushed) := rfl

/-- A file is what its first line holds, if that is a shebang, and the items behind it. -/
theorem file_eq (rules : Rules) (s : State) : file rules s =
    ((fileShebang rules s).1 ++ (items rules rules.budget (fileShebang rules s).2).1,
      (items rules rules.budget (fileShebang rules s).2).2) := by
  have hfile : file rules = (fileShebang rules >>= fun first =>
      items rules rules.budget >>= fun nodes => pure (first ++ nodes)) := by
    unfold file items
    simp only [bind_assoc, pure_bind, List.append_assoc]
  rw [hfile]
  rfl

/-- Items are tracked, if their end is. -/
theorem Simulation.Lawful.items {z : Simulation} (lawful : z.Lawful) (hmode : c.mode = .normal)
    (hnesting : c.nesting = 0) (pairs : z.Pairs rules rules') (hbodies : c.bodies = 0)
    {fuel' : Nat} (hle : fuel ≤ fuel') :
    z.Follows c z.live z.live s (Grammar.items rules fuel) (Grammar.items rules' fuel') := by
  unfold Grammar.items
  refine (lawful.loop (fun _ => lawful.calm_of_live)
    (fun _ u => lawful.fileStep hmode hnesting pairs hbodies) hle ()).bind ?_
  intro nodes u _
  refine lawful.trivia.bind ?_
  intro last v _
  exact Simulation.Follows.pure (by simp)

end Items

/-! ## Up to the end of the first text -/

section First

variable {more : Text} {rules rules' : Rules} {c : Context} {fuel : Nat} {s t : State}

/-- Behind the end of a line there is no white space to be skipped. -/
theorem flush_of_endsLine (hinv : (joined more).inv c s) (hnesting : c.nesting = 0)
    (hends : EndsLine s.flushed.consumed) : s.stream.Flush := by
  obtain ⟨hrun, htrivia, hflush⟩ := Stream.takeTrivia_spec hinv.1.1
  change EndsLine (s.stream.takeTrivia.1.reverse ++ s.consumed) at hends
  have hstream : s.stream.flushed = { s.stream with scanner := s.stream.flushed.scanner } := rfl
  generalize s.stream.takeTrivia.1 = tokens at hrun htrivia hends
  rcases List.eq_nil_or_concat tokens with rfl | ⟨front, last, rfl⟩
  · generalize s.stream.flushed.scanner = scanner at hrun hstream
    cases hrun
    rwa [hstream] at hflush
  · have hkind : last.kind.isTrivia = true := by
      have hlast := htrivia last (by simp)
      unfold Stream.isTrivia at hlast
      rw [hinv.1.2.1.nesting, hnesting] at hlast
      simpa using hlast
    rw [List.concat_eq_append, List.reverse_append] at hends
    refine absurd hends (not_endsLine_cons ?_ ?_)
    · cases hcase : last.kind <;> first | rfl | (rw [hcase] at hkind; cases hkind)
    · intro hline
      rw [hline] at hkind
      cases hkind

section Normal

variable (hmore : StartsItem more) (hmode : c.mode = .normal) (hnesting : c.nesting = 0)
include hmore hmode hnesting

/-- Behind the items of the first text, those of the second one follow. -/
theorem loop_joined (pairs : (joined more).Pairs rules rules') (hbodies : c.bodies = 0)
    (hinv : (joined more).inv c s) (hsound : (loop (fileStep rules) fuel () s).2.Sound) :
    s.Sound ∧ ∀ t, (joined more).rel c s t → ∃ (v : State) (count : Nat), count ≤ fuel ∧
      (joined more).rel c (loop (fileStep rules) fuel () s).2 v ∧
      ∀ extra, loop (fileStep rules') (count + extra) () t =
        ((loop (fileStep rules) fuel () s).1 ++ (loop (fileStep rules') extra () v).1,
          (loop (fileStep rules') extra () v).2) := by
  have lawful := lawful_joined hmore
  induction fuel generalizing s with
  | zero => cases hsound.exhausted
  | succ fuel ih =>
    by_cases hend : s.front = .endOfInput
    · rw [loop_fileStep_end hend] at hsound ⊢
      exact ⟨hsound, fun t hrel => ⟨t, 0, Nat.zero_le _, hrel, fun extra => by
        rw [Nat.zero_add]
        rfl⟩⟩
    · rw [loop_fileStep_item hend] at hsound ⊢
      obtain ⟨hinv', hrun⟩ := lawful.item hmode hnesting pairs hbodies hinv
      obtain ⟨hcalm, hrest⟩ := ih hinv' hsound
      obtain ⟨hlive, hfollows⟩ := hrun hcalm
      refine ⟨hlive.1, fun t hrel => ?_⟩
      obtain ⟨hnodes, hafter⟩ := hfollows t hrel
      obtain ⟨v, count, hle, hv, hloop⟩ := hrest _ hafter
      refine ⟨v, count + 1, Nat.succ_le_succ hle, hv, fun extra => ?_⟩
      have hend' : t.front ≠ .endOfInput := by rwa [lawful.front hinv hlive hrel]
      rw [Nat.add_right_comm, loop_fileStep_item hend', hloop, hnodes, List.append_assoc]
      exact congrArg (fun nodes => (nodes ++ _, _)) (Node.moveList_id _)

/-- So they do behind the items of the first text up to its end. -/
theorem items_joined (pairs : (joined more).Pairs rules rules') (hbodies : c.bodies = 0)
    (hinv : (joined more).inv c s) (hsound : (items rules fuel s).2.Sound)
    (hends : EndsLine (items rules fuel s).2.consumed) :
    (joined more).inv c (items rules fuel s).2 ∧ s.Sound ∧
      ∀ t, (joined more).rel c s t → ∃ (v : State) (count : Nat), count ≤ fuel ∧
        (joined more).rel c (items rules fuel s).2 v ∧
        ∀ extra, items rules' (count + extra) t =
          ((items rules fuel s).1 ++ (items rules' extra v).1, (items rules' extra v).2) := by
  have lawful := lawful_joined hmore
  have hloop : (joined more).inv c (loop (fileStep rules) fuel () s).2 :=
    (lawful.loop (fun _ => lawful.calm_of_live)
      (fun _ _ => lawful.fileStep hmode hnesting pairs hbodies) (Nat.le_refl fuel) () hinv).1
  rw [items_eq] at hsound hends ⊢
  obtain ⟨hnone, hsame⟩ := flushed_of_flush (flush_of_endsLine hloop hnesting hends)
  dsimp only at hsound ⊢
  rw [hsame] at hsound ⊢
  obtain ⟨hcalm, hrest⟩ := loop_joined hmore hmode hnesting pairs hbodies hinv hsound
  refine ⟨hloop, hcalm, fun t hrel => ?_⟩
  obtain ⟨v, count, hcount, hv, hitems⟩ := hrest t hrel
  refine ⟨v, count, hcount, hv, fun extra => ?_⟩
  rw [items_eq, items_eq, hitems, hnone, List.map_nil, List.append_nil, List.append_assoc]

/-- In front of a line that is still to be read, the shebang of a file is looked for alike. -/
theorem fileShebang_joined (pairs : (joined more).Pairs rules rules') (hends : ¬EndsLine s.consumed) :
    (joined more).Follows c (joined more).live (joined more).calm s (fileShebang rules)
      (fileShebang rules') := by
  have lawful := lawful_joined hmore
  unfold fileShebang
  refine lawful.isAt ?_ fun _ => ?_
  · intro hfront
    have hline := lawful.shebang pairs (lawful.watches_live hmode) (fun _ _ => id) hfront none
    have hall := lawful.ending hmode hnesting pairs hline
      (fun hinv => lawful.stops_shebang hmode hinv hfront none) []
    simpa using hall
  · refine Simulation.Tracks.mono_pre (Simulation.Follows.pure rfl) fun hinv hsound => ?_
    have hfront := front_of_not_endsLine hinv hsound hends hmode hnesting
    have hlevel := isLevel_of_allows hinv.1.1 hinv.1.2.1 (pendingDedents_joined hinv hsound.exhausted)
      (c.allows_of_normal hmode s.front)
    refine ⟨hsound, continues_of_front hinv hsound.exhausted (by rw [hmode]; rfl) hfront fun h => ?_⟩
    rw [h] at hlevel
    cases hlevel

end Normal

theorem ofText_append {source : Text} (hne : source ≠ []) (more : Text) :
    Scanner.ofText (source ++ more) = (Scanner.ofText source).followed more := by
  unfold Scanner.ofText Scanner.followed
  rw [List.head?_append_of_ne_nil source hne]

/-- And so they do behind all of the first text. -/
theorem file_joined (hmore : StartsItem more) {source : Text} (hlines : IsLines source)
    (pairs : (joined more).Pairs rules rules') (hsound : (file rules (.ofText source)).2.Sound)
    (hends : EndsLine (file rules (.ofText source)).2.consumed) :
    (joined more).inv .outer (file rules (.ofText source)).2 ∧
      ∃ (v : State) (count : Nat), count ≤ rules.budget ∧
        (joined more).rel .outer (file rules (.ofText source)).2 v ∧
        ∀ extra, rules'.budget = count + extra → file rules' (.ofText (source ++ more)) =
          ((file rules (.ofText source)).1 ++ (items rules' extra v).1, (items rules' extra v).2) := by
  have hinv : (joined more).inv .outer (.ofText source) :=
    ⟨balanced_start [] source, Scanner.fed_ofText hlines, fun _ => Nat.zero_le 1⟩
  have hrel : (joined more).rel .outer (.ofText source) (.ofText (source ++ more)) :=
    ⟨ofText_append hlines.ne_nil more, ⟨rfl, rfl, rfl⟩, rfl, rfl⟩
  have hstart : ¬EndsLine (State.ofText source).consumed := by
    rintro ⟨token, hfound, -⟩
    cases hfound
  rw [file_eq] at hsound hends ⊢
  rw [file_eq]
  obtain ⟨hinv', hfirst⟩ := fileShebang_joined hmore rfl rfl pairs hstart hinv
  obtain ⟨hlast, hcalm, hrest⟩ := items_joined hmore rfl rfl pairs rfl hinv' hsound hends
  obtain ⟨hnodes, hrel'⟩ := (hfirst hcalm).2 _ hrel
  obtain ⟨v, count, hcount, hv, hitems⟩ := hrest _ hrel'
  refine ⟨hlast, v, count, hcount, hv, fun extra hextra => ?_⟩
  rw [hextra, hitems, hnodes, show (joined more).moved _ = _ from Node.moveList_id _, List.append_assoc]

end First

end Justfile.Grammar
