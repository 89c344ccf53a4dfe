import Justfile.Proofs.Simulation.Judgement

/-!
# Primitives side by side

Looks, tokens, changes of context, nodes and loops of the two runs of a lawful simulation. These are
the rules from which productions are shown to be tracked. Where a rule has a guard of its own after
the run, that guard is the weakest one that is needed; stronger ones follow with `Tracks.mono_post`.
-/

set_option autoImplicit false

namespace Justfile.Grammar

/-- The looks behind a token that was consumed. -/
theorem nth_bumpAs {s : State} (wf : s.scanner.WellFormed) (hne : s.front ≠ .endOfInput)
    (field : Option Field) (kind : Option Token.Kind) (n : Nat) :
    (bumpAs field kind s).2.stream.nth n = s.stream.nth (n + 1) := by
  have trimmed := trimmed_flushed wf
  have hkind : s.flushed.step.1.kind ≠ .endOfInput := by rwa [trimmed.step_kind]
  rw [bumpAs_eq field kind s hne, ← trimmed.nth (n + 1)]
  exact nth_take trimmed.flush hkind _ n

/-! ## The middle of a line

What is followed by the end of a line does not itself end one. -/

section MidLine

variable {s : State}

/-- A production ends in the middle of a line. -/
def Stops (s : State) (p : Parse Forest) : Prop := Ensures s p fun _ t => t.MidLine

theorem midLine_of_reports (h : s.reports ≠ []) : s.MidLine := fun hnone => absurd hnone h

/-- What is made of the nodes at the end makes no difference. -/
theorem Stops.and_return {p : Parse Forest} (h : Stops s p) (f : Forest → Forest) :
    Stops s (p >>= fun nodes => pure (f nodes)) :=
  h

theorem Stops.and_again {p : Parse Forest} (h : Stops s p) (f : Forest → Forest) :
    Ensures s (p >>= fun nodes => again (f nodes)) fun _ t => t.MidLine :=
  h

theorem Stops.and_done {σ : Type} {p : Parse Forest} (h : Stops s p) (f : Forest → Forest) :
    Ensures s (p >>= fun nodes => done (σ := σ) (f nodes)) fun _ t => t.MidLine :=
  h

theorem stops_bumpAs {kind : Token.Kind} (hfront : s.front = kind) (hkind : isInLine kind = true)
    (field : Option Field) {word : Option Token.Kind} (hword : isInLine (word.getD kind) = true) :
    Stops s (bumpAs field word) := by
  subst hfront
  have hend : s.front ≠ .endOfInput := by
    intro hend
    rw [hend] at hkind
    cases hkind
  unfold Stops Ensures
  rw [bumpAs_eq field word s hend]
  intro _ _
  exact ⟨_, rfl, hword⟩

theorem stops_bump {kind : Token.Kind} (hfront : s.front = kind) (hkind : isInLine kind = true)
    (field : Option Field) : Stops s (bump field) :=
  stops_bumpAs hfront hkind field hkind

theorem stops_bumpKeyword (hfront : s.front = .identifier) (word : Keyword) :
    Stops s (bumpKeyword word) :=
  stops_bumpAs hfront rfl none rfl

/-- Of most parts before the last one nothing at all is kept. -/
theorem Ensures.last {α β : Type} {p : Parse α} {f : α → Parse β} {Q : β → State → Prop}
    (h : ∀ a u, Ensures u (f a) Q) : Ensures s (p >>= f) Q :=
  h _ _

theorem stops_missing (field : Option Field) (expected : Expected) :
    Stops s (missing field expected) :=
  midLine_of_reports (List.cons_ne_nil _ _)

theorem stops_errorBranch (field : Option Field) (cause : Cause) (body : Parse Forest) :
    Stops s (errorBranch field cause body) :=
  midLine_of_reports (List.cons_ne_nil _ _)

theorem stops_branch (field : Option Field) (kind : Node.Kind) {body : Parse Forest}
    (h : ∀ u, Stops u body) : Stops s (branch field kind body) :=
  h s.flushed

theorem stops_closeBraces : Stops s closeBraces := by
  unfold Stops Ensures
  rw [closeBraces_eq]
  split
  · intro _ _
    exact ⟨_, rfl, rfl⟩
  · exact stops_missing none _

theorem stops_expectMark (sign : Mark) : Stops s (expectMark sign) := by
  refine Ensures.isAtMark ?_ fun _ => stops_missing none _
  intro hfront
  exact stops_bump hfront rfl none

theorem stops_expectIdentifier (field : Field) (expected : Expected) :
    Stops s (expectIdentifier field expected) := by
  refine Ensures.isAt ?_ fun _ => stops_missing _ _
  intro hfront
  exact stops_bump hfront rfl _

theorem stops_closeBracket (sign : Mark) : Stops s (closeBracket sign) :=
  stops_expectMark (s := s) sign

end MidLine

namespace Simulation

variable {z : Simulation} {α β : Type} {c : Context} {pre post : State → Prop} {m : α → β}
  {s : State} {d : α → Context} {Q : α → State → Prop}

/-- A guard that does not depend on how tokens are read. -/
def Portable (guard : State → Prop) : Prop :=
  ∀ s mode nesting lineBound depth, guard (s.within mode nesting lineBound depth) → guard s

/-- A token is a keyword in both runs or in none. -/
theorem Alike.isKeyword {a b : Token} (h : z.Alike c a b) (word : Keyword) :
    (b.kind == .identifier && b.text == word.spelling) =
      (a.kind == .identifier && a.text == word.spelling) := by
  rw [h.kind]
  cases hkind : a.kind == .identifier with
  | false => rfl
  | true => rw [h.text (beq_iff_eq.1 hkind)]

/-- What was found is described in the same way. -/
theorem Alike.found {a b : Token} (h : z.Alike c a b) : Found.ofToken b = Found.ofToken a := by
  unfold Found.ofToken
  rw [h.kind]
  split
  · next hkind => rw [h.text hkind]
  · rfl

namespace Lawful

/-! ## Guards -/

theorem calm_of_live (lawful : z.Lawful) {u : State} (h : z.live u) : z.calm u :=
  lawful.calm_of_wide (lawful.wide_of_live h)

theorem portable_calm (lawful : z.Lawful) : Portable z.calm := fun _ _ _ _ _ => lawful.calm_within

theorem portable_wide (lawful : z.Lawful) : Portable z.wide := fun _ _ _ _ _ => lawful.wide_within

/-! ## Looks -/

theorem front (lawful : z.Lawful) {t : State} (hinv : z.inv c s) (hlive : z.live s)
    (hrel : z.rel c s t) : t.front = s.front :=
  (lawful.token hinv hlive hrel).kind

theorem peek (lawful : z.Lawful) {f : Token.Kind → Parse α} {g : Token.Kind → Parse β}
    (h : z.Tracks c z.live m d Q s (f s.front) (g s.front)) :
    z.Tracks c z.live m d Q s (Grammar.peek >>= f) (Grammar.peek >>= g) :=
  Tracks.look State.front (fun _ => lawful.front) h

theorem peekToken (lawful : z.Lawful) {f : Token → Parse α} {g : Token → Parse β}
    (h : ∀ b, z.Alike c (s.stream.nth 0) b →
      z.Tracks c z.live m d Q s (f (s.stream.nth 0)) (g b)) :
    z.Tracks c z.live m d Q s (Grammar.peekToken 0 >>= f) (Grammar.peekToken 0 >>= g) := by
  intro hinv
  obtain ⟨hinv', hrun⟩ := h { s.stream.nth 0 with span := (s.stream.nth 0).span.move z.place }
    ⟨rfl, fun _ => rfl, fun _ => rfl⟩ hinv
  refine ⟨hinv', fun hpost => ⟨(hrun hpost).1, fun t hrel => ?_⟩⟩
  have halike := lawful.token hinv (hrun hpost).1 hrel
  exact (((h _ halike) hinv).2 hpost).2 t hrel

theorem isAt_of (lawful : z.Lawful) {guard : State → Prop} (hguard : guard s → z.live s)
    {kind : Token.Kind} {f : Bool → Parse α} {g : Bool → Parse β}
    (hat : s.front = kind → z.Tracks c guard m d Q s (f true) (g true))
    (hnot : s.front ≠ kind → z.Tracks c guard m d Q s (f false) (g false)) :
    z.Tracks c guard m d Q s (Grammar.isAt kind >>= f) (Grammar.isAt kind >>= g) := by
  have hsame : ∀ t, z.inv c s → guard s → z.rel c s t →
      (t.front == kind) = (s.front == kind) := by
    intro t hinv hholds hrel
    rw [lawful.front hinv (hguard hholds) hrel]
  refine Tracks.look (fun s => s.front == kind) hsame ?_
  cases heq : s.front == kind with
  | true => exact hat (beq_iff_eq.1 heq)
  | false => exact hnot (beq_eq_false_iff_ne.1 heq)

theorem isAt (lawful : z.Lawful) {kind : Token.Kind} {f : Bool → Parse α} {g : Bool → Parse β}
    (hat : s.front = kind → z.Tracks c z.live m d Q s (f true) (g true))
    (hnot : s.front ≠ kind → z.Tracks c z.live m d Q s (f false) (g false)) :
    z.Tracks c z.live m d Q s (Grammar.isAt kind >>= f) (Grammar.isAt kind >>= g) :=
  lawful.isAt_of id hat hnot

theorem isAtMark (lawful : z.Lawful) {sign : Mark} {f : Bool → Parse α} {g : Bool → Parse β}
    (hat : s.front = .mark sign → z.Tracks c z.live m d Q s (f true) (g true))
    (hnot : s.front ≠ .mark sign → z.Tracks c z.live m d Q s (f false) (g false)) :
    z.Tracks c z.live m d Q s (Grammar.isAtMark sign >>= f) (Grammar.isAtMark sign >>= g) :=
  lawful.isAt hat hnot

theorem isAtLineEnd (lawful : z.Lawful) {f : Bool → Parse α} {g : Bool → Parse β}
    (hat : endsLine s.front = true → z.Tracks c z.live m d Q s (f true) (g true))
    (hnot : endsLine s.front = false → z.Tracks c z.live m d Q s (f false) (g false)) :
    z.Tracks c z.live m d Q s (Grammar.isAtLineEnd >>= f) (Grammar.isAtLineEnd >>= g) := by
  have hsame : ∀ t, z.inv c s → z.live s → z.rel c s t → endsLine t.front = endsLine s.front := by
    intro t hinv hlive hrel
    rw [lawful.front hinv hlive hrel]
  refine Tracks.look (fun s => endsLine s.front) hsame ?_
  cases heq : endsLine s.front with
  | true => exact hat heq
  | false => exact hnot heq

/-- Both productions ask whether a token is a keyword. -/
theorem isKeyword_same {n : Nat} (word : Keyword) {guard : State → Prop}
    (halike : ∀ t, z.inv c s → guard s → z.rel c s t →
      z.Alike c (s.stream.nth n) (t.stream.nth n))
    {f : Bool → Parse α} {g : Bool → Parse β}
    (hat : (s.stream.nth n).kind = .identifier → z.Tracks c guard m d Q s (f true) (g true))
    (hnot : z.Tracks c guard m d Q s (f false) (g false)) :
    z.Tracks c guard m d Q s (Grammar.isKeywordAt n word >>= f)
      (Grammar.isKeywordAt n word >>= g) := by
  refine Tracks.look (fun s => (s.stream.nth n).kind == .identifier &&
    (s.stream.nth n).text == word.spelling) ?_ ?_
  · intro t hinv hguard hrel
    exact (halike t hinv hguard hrel).isKeyword word
  · cases heq : (s.stream.nth n).kind == .identifier && (s.stream.nth n).text == word.spelling with
    | true => exact hat (beq_iff_eq.1 (Bool.and_eq_true_iff.1 heq).1)
    | false => exact hnot

theorem isKeyword (lawful : z.Lawful) {word : Keyword} {f : Bool → Parse α} {g : Bool → Parse β}
    (hat : s.front = .identifier → z.Tracks c z.live m d Q s (f true) (g true))
    (hnot : z.Tracks c z.live m d Q s (f false) (g false)) :
    z.Tracks c z.live m d Q s (Grammar.isKeywordAt 0 word >>= f)
      (Grammar.isKeywordAt 0 word >>= g) :=
  isKeyword_same word (fun _ => lawful.token) hat hnot

theorem isKeywordNext (lawful : z.Lawful) (hmode : c.mode = .normal) {word : Keyword}
    {f : Bool → Parse α} {g : Bool → Parse β}
    (hat : (s.stream.nth 1).kind = .identifier → z.Tracks c z.peer m d Q s (f true) (g true))
    (hnot : z.Tracks c z.peer m d Q s (f false) (g false)) :
    z.Tracks c z.peer m d Q s (Grammar.isKeywordAt 1 word >>= f)
      (Grammar.isKeywordAt 1 word >>= g) :=
  isKeyword_same word (fun _ hinv => lawful.second hinv hmode) hat hnot

theorem peekNext (lawful : z.Lawful) (hmode : c.mode = .normal) {f : Token.Kind → Parse α}
    {g : Token.Kind → Parse β}
    (h : z.Tracks c z.peer m d Q s (f (s.stream.nth 1).kind) (g (s.stream.nth 1).kind)) :
    z.Tracks c z.peer m d Q s (Grammar.peekAt 1 >>= f) (Grammar.peekAt 1 >>= g) :=
  Tracks.look (fun s => (s.stream.nth 1).kind)
    (fun _ hinv hpeer hrel => (lawful.second hinv hmode hpeer hrel).kind) h

theorem offset_bind (lawful : z.Lawful) {f : Nat → Parse α} {g : Nat → Parse β}
    (h : z.Tracks c pre m d Q s (f s.stream.offset) (g (z.place s.stream.offset))) :
    z.Tracks c pre m d Q s (Grammar.offset >>= f) (Grammar.offset >>= g) := by
  intro hinv
  obtain ⟨hinv', hrun⟩ := h hinv
  refine ⟨hinv', fun hpost => ⟨(hrun hpost).1, fun t hrel => ?_⟩⟩
  have hrun' := (hrun hpost).2 t hrel
  rw [← lawful.offset hrel] at hrun'
  exact hrun'

/-! ## Reports -/

theorem report (lawful : z.Lawful) (hcalm : ∀ u, post u → z.calm u) (cause : Cause) (span : Span) :
    z.Tracks c z.peer id (fun _ => c) (fun _ => post) s (Grammar.report cause span)
      (Grammar.report cause (span.move z.place)) := by
  intro hinv
  refine ⟨lawful.inv_report cause span hinv, fun hpost => ⟨?_, fun t hrel => ⟨rfl, ?_⟩⟩⟩
  · exact lawful.peer_of_report (hcalm _ hpost)
  · exact lawful.rel_report cause span hrel

theorem missing (lawful : z.Lawful) (hcalm : ∀ u, post u → z.calm u) (field : Option Field)
    (expected : Expected) :
    z.Follows c z.peer post s (Grammar.missing field expected)
      (Grammar.missing field expected) := by
  unfold Grammar.missing
  refine lawful.offset_bind ((lawful.report hcalm _ _).bind ?_)
  intro _ u _
  exact Follows.pure (by simp [Span.move, Span.empty])

/-- Where nothing is consumed for a missing part, the weaker guards hold as well. -/
theorem missing_live (lawful : z.Lawful) (hcalm : ∀ u, post u → z.calm u) (field : Option Field)
    (expected : Expected) :
    z.Follows c z.live post s (Grammar.missing field expected)
      (Grammar.missing field expected) :=
  (lawful.missing hcalm field expected).mono_pre fun _ => lawful.live_of_peer

/-! ## Changes of context -/

theorem change (lawful : z.Lawful) {change : State → State} {mode : Mode} {nesting : Nat}
    {lineBound : Bool} (depth : Nat → Nat) (hadmits : c.Admits mode) (hleaves : c.Leaves mode s)
    (hchange : ∀ u, c.Governs u.stream →
      change u = u.within mode nesting lineBound (depth u.depth))
    (hpre : pre (change s) → pre s) :
    z.Tracks c pre id (fun _ => c.within mode nesting lineBound) (fun _ => pre) s
      (modify change : Parse PUnit) (modify change) := by
  intro hinv
  have hs := hchange s (lawful.governs hinv)
  change z.inv _ (change s) ∧ (pre (change s) → pre s ∧ ∀ t, z.rel c s t →
    PUnit.unit = PUnit.unit ∧ z.rel _ (change s) (change t))
  refine ⟨hs ▸ lawful.inv_within hadmits hleaves hinv, fun hpost => ⟨hpre hpost, ?_⟩⟩
  intro t hrel
  rw [hs, hchange t (lawful.governs_rel hrel), lawful.depth hrel]
  exact ⟨rfl, lawful.rel_within hadmits hrel⟩

theorem setMode (lawful : z.Lawful) (portable : Portable pre) {mode : Mode}
    (hadmits : c.Admits mode) (hleaves : c.Leaves mode s) :
    z.Tracks c pre id (fun _ => c.within mode c.nesting c.lineBound) (fun _ => pre) s
      (Grammar.setMode mode) (Grammar.setMode mode) := by
  refine lawful.change id hadmits hleaves ?_
    (portable s mode s.stream.nesting s.stream.lineBound s.depth)
  rintro u ⟨-, hnesting, hlineBound⟩
  rw [← hnesting, ← hlineBound]
  rfl

/-! ## Tokens -/

/-- Behind the token that opens a literal or an interpolation, what stands in it is entered. -/
theorem entered_bump {field : Option Field} {nodes : Forest} {u : State}
    (hfront : s.front.opensLiteral = true ∨ s.front = .interpolationOpen)
    (hu : Grammar.bump field s = (nodes, u)) (wf : s.scanner.WellFormed) : u.Entered := by
  have hne : s.front ≠ .endOfInput := by
    intro hend
    rw [hend] at hfront
    rcases hfront with h | h <;> cases h
  have hrun := bumpAs_eq field none s hne
  rw [show bumpAs field none s = (nodes, u) from hu] at hrun
  rw [(Prod.mk.inj hrun).2]
  refine ⟨_, rfl, ?_⟩
  change s.flushed.step.1.kind.opensLiteral = true ∨ s.flushed.step.1.kind = _
  rw [(trimmed_flushed wf).step_kind]
  exact hfront

/-- Consuming a token of which it is only known that reading goes on behind it. -/
theorem bump_live (lawful : z.Lawful) (field : Option Field) (hallows : c.Allows s.front) :
    z.Follows c z.live z.live s (Grammar.bump field) (Grammar.bump field) := by
  by_cases hend : s.front = .endOfInput
  · intro hinv
    rw [Grammar.bump, bumpAs_end hend]
    refine ⟨hinv, fun hlive => ⟨hlive, fun t hrel => ?_⟩⟩
    rw [bumpAs_end ((lawful.front hinv hlive hrel).trans hend)]
    exact ⟨rfl, hrel⟩
  · refine (lawful.bump field hallows hend).mono_post ?_
    intro _ u _ _ hlive
    exact lawful.calm_of_live hlive

/-- Once it is known that reading goes on behind a token, that one can be looked at before. -/
theorem consume_peer (lawful : z.Lawful) {field : Option Field} {kind : Option Token.Kind}
    (hne : s.front ≠ .endOfInput)
    (hconsume : z.Follows c z.live z.calm s (bumpAs field kind) (bumpAs field kind)) :
    z.Follows c z.peer z.live s (bumpAs field kind) (bumpAs field kind) := by
  intro hinv
  obtain ⟨hinv', hrun⟩ := hconsume hinv
  refine ⟨hinv', fun hlive => ?_⟩
  obtain ⟨hpre, hrel⟩ := hrun (lawful.calm_of_live hlive)
  refine ⟨lawful.peer_of_next hpre hlive ?_, hrel⟩
  unfold State.front
  rw [nth_bumpAs (lawful.wellFormed hinv) hne]

theorem bump_peer (lawful : z.Lawful) (field : Option Field) (hallows : c.Allows s.front)
    (hne : s.front ≠ .endOfInput) :
    z.Follows c z.peer z.live s (Grammar.bump field) (Grammar.bump field) :=
  lawful.consume_peer hne (lawful.bump field hallows hne)

theorem keyword_live (lawful : z.Lawful) (hmode : c.mode = .normal) (word : Keyword)
    (hfront : s.front = .identifier) :
    z.Follows c z.live z.live s (bumpKeyword word) (bumpKeyword word) :=
  (lawful.keyword word hmode hfront).mono_post fun _ _ _ _ => lawful.calm_of_live

theorem keyword_peer (lawful : z.Lawful) (hmode : c.mode = .normal) (word : Keyword)
    (hfront : s.front = .identifier) :
    z.Follows c z.peer z.live s (bumpKeyword word) (bumpKeyword word) :=
  lawful.consume_peer (by rw [hfront]; exact nofun) (lawful.keyword word hmode hfront)

theorem trivia_peer (lawful : z.Lawful) :
    z.Follows c z.peer z.peer s Grammar.trivia Grammar.trivia := by
  intro hinv
  obtain ⟨hinv', hrun⟩ := lawful.trivia hinv
  refine ⟨hinv', fun hpeer => ?_⟩
  obtain ⟨hlive, hrel⟩ := hrun (lawful.live_of_peer hpeer)
  exact ⟨lawful.peer_of_trimmed hlive hpeer ((trimmed_flushed (lawful.wellFormed hinv)).nth 1), hrel⟩

/-- The mark that stands behind the token that is consumed. -/
theorem front_of_bump {kind : Token.Kind} (lawful : z.Lawful) (hinv : z.inv c s)
    (hne : s.front ≠ .endOfInput) (hnext : (s.stream.nth 1).kind = kind) {field : Option Field}
    {as : Option Token.Kind} {nodes : Forest} {u : State}
    (hu : bumpAs field as s = (nodes, u)) : u.front = kind := by
  have hnth := nth_bumpAs (lawful.wellFormed hinv) hne field as 0
  rw [hu] at hnth
  unfold State.front
  rw [hnth, hnext]

section Normal

variable (hmode : c.mode = .normal)
include hmode

theorem bumpIf (lawful : z.Lawful) (kind : Token.Kind) :
    z.Follows c z.live z.live s (Grammar.bumpIf kind) (Grammar.bumpIf kind) := by
  unfold Grammar.bumpIf
  refine lawful.isAt ?_ ?_
  · intro _
    exact lawful.bump_live none (c.allows_of_normal hmode _)
  · intro _
    exact Follows.pure (by simp)

theorem bump_calm (lawful : z.Lawful) (field : Option Field) {kind : Token.Kind}
    (hfront : s.front = kind) (hkind : kind ≠ .endOfInput) :
    z.Follows c z.live z.calm s (Grammar.bump field) (Grammar.bump field) :=
  lawful.bump field (c.allows_of_normal hmode _) (hfront ▸ hkind)

theorem expectMark (lawful : z.Lawful) (sign : Mark) :
    z.Follows c z.live z.calm s (Grammar.expectMark sign) (Grammar.expectMark sign) := by
  unfold Grammar.expectMark
  refine lawful.isAtMark ?_ ?_
  · intro hfront
    exact lawful.bump_calm hmode none hfront nofun
  · intro _
    exact lawful.missing_live (fun _ => id) _ _

theorem expectIdentifier (lawful : z.Lawful) (field : Field) (expected : Expected) :
    z.Follows c z.live z.calm s (Grammar.expectIdentifier field expected)
      (Grammar.expectIdentifier field expected) := by
  unfold Grammar.expectIdentifier
  refine lawful.isAt ?_ ?_
  · intro hfront
    exact lawful.bump_calm hmode _ hfront nofun
  · intro _
    exact lawful.missing_live (fun _ => id) _ _

/-- A name that is there is followed by something. -/
theorem expectIdentifier_peer (lawful : z.Lawful) (hfront : s.front = .identifier) (field : Field)
    (expected : Expected) :
    z.Follows c z.peer z.live s (Grammar.expectIdentifier field expected)
      (Grammar.expectIdentifier field expected) := by
  unfold Grammar.expectIdentifier
  refine lawful.isAt_of lawful.live_of_peer ?_ fun hnot => absurd hfront hnot
  intro _
  exact lawful.bump_peer _ (c.allows_of_normal hmode _) (by rw [hfront]; exact nofun)

theorem openBracket (lawful : z.Lawful) {sign : Mark} (hfront : s.front = .mark sign) :
    z.Tracks c z.live z.moved (fun _ => c.nested) (fun _ => z.calm) s Grammar.openBracket
      Grammar.openBracket := by
  unfold Grammar.openBracket
  refine (lawful.bump_calm hmode none hfront nofun).bind ?_
  intro nodes u _
  have hadmits : c.Admits c.mode := by
    rw [hmode]
    exact c.admits_normal
  have hchange : ∀ v : State, c.Governs v.stream →
      { v with stream := v.stream.openDelimiter } =
        v.within c.mode (c.nesting + 1) c.lineBound v.depth := by
    rintro v ⟨hmode', hnesting, hlineBound⟩
    rw [← hmode', ← hnesting, ← hlineBound]
    rfl
  refine (lawful.change id hadmits (c.leaves_self u) hchange ?_).bind ?_
  · exact lawful.portable_calm u u.stream.mode (u.stream.nesting + 1) u.stream.lineBound u.depth
  · intro _ v _
    exact Follows.pure rfl

theorem closeBracket (lawful : z.Lawful) (sign : Mark) :
    z.Tracks c.nested z.live z.moved (fun _ => c) (fun _ => z.calm) s (Grammar.closeBracket sign)
      (Grammar.closeBracket sign) := by
  unfold Grammar.closeBracket
  refine (lawful.expectMark (c := c.nested) hmode sign).bind ?_
  intro nodes u _
  have hadmits : c.nested.Admits c.mode := by
    rw [hmode]
    exact c.nested.admits_normal
  have hchange : ∀ v : State, c.nested.Governs v.stream →
      { v with stream := v.stream.closeDelimiter } =
        v.within c.mode c.nesting c.lineBound v.depth := by
    rintro v ⟨hmode', hnesting, hlineBound⟩
    have hback : v.stream.nesting - 1 = c.nesting := by
      rw [hnesting]
      exact Nat.add_sub_cancel ..
    have hmode'' : v.stream.mode = c.mode := hmode'
    have hline : v.stream.lineBound = c.lineBound := hlineBound
    rw [← hback, ← hmode'', ← hline]
    rfl
  refine (lawful.change id hadmits (c.nested.leaves_self u) hchange ?_).bind ?_
  · exact lawful.portable_calm u u.stream.mode (u.stream.nesting - 1) u.stream.lineBound u.depth
  · intro _ v _
    exact Follows.pure rfl

end Normal

/-! ## Nodes -/

section Nodes

variable {e : Context} {body body' : Parse Forest}

theorem branch_from (lawful : z.Lawful) (field : Option Field) (kind : Node.Kind)
    (htrivia : z.Follows c pre pre s Grammar.trivia Grammar.trivia)
    (hbody : ∀ before u, Trimmed s before u →
      z.Tracks c pre z.moved (fun _ => e) (fun _ => post) u body body') :
    z.Tracks c pre z.moved (fun _ => e) (fun _ => post) s (Grammar.branch field kind body)
      (Grammar.branch field kind body') := by
  refine Tracks.of_inv fun hinv => ?_
  have htrimmed := trivia_spec (lawful.wellFormed hinv)
  unfold Grammar.branch
  refine htrivia.bind ?_
  intro before u hu
  unfold Ensures at htrimmed
  rw [hu] at htrimmed
  refine (hbody before u htrimmed).bind ?_
  intro children v _
  refine lawful.offset_bind (Follows.pure ?_)
  simp

theorem branch (lawful : z.Lawful) (field : Option Field) (kind : Node.Kind)
    (hbody : ∀ before u, Trimmed s before u →
      z.Tracks c z.live z.moved (fun _ => e) (fun _ => post) u body body') :
    z.Tracks c z.live z.moved (fun _ => e) (fun _ => post) s (Grammar.branch field kind body)
      (Grammar.branch field kind body') :=
  lawful.branch_from field kind lawful.trivia hbody

theorem branch_peer (lawful : z.Lawful) (field : Option Field) (kind : Node.Kind)
    (hbody : ∀ before u, Trimmed s before u →
      z.Tracks c z.peer z.moved (fun _ => e) (fun _ => post) u body body') :
    z.Tracks c z.peer z.moved (fun _ => e) (fun _ => post) s (Grammar.branch field kind body)
      (Grammar.branch field kind body') :=
  lawful.branch_from field kind lawful.trivia_peer hbody

theorem errorBranch (lawful : z.Lawful) (hcalm : ∀ u, post u → z.calm u) (field : Option Field)
    (cause : Cause)
    (hbody : ∀ before u, Trimmed s before u → z.Follows c z.live z.live u body body') :
    z.Follows c z.live post s (Grammar.errorBranch field cause body)
      (Grammar.errorBranch field cause body') := by
  refine Tracks.of_inv fun hinv => ?_
  have htrimmed := trivia_spec (lawful.wellFormed hinv)
  unfold Grammar.errorBranch
  refine lawful.trivia.bind ?_
  intro before u hu
  unfold Ensures at htrimmed
  rw [hu] at htrimmed
  refine (hbody before u htrimmed).bind ?_
  intro children v _
  refine lawful.offset_bind ?_
  have hreport := (lawful.report (s := v) (c := c) hcalm cause
    (Node.branch field .error children v.stream.offset).span).mono_pre
    fun _ => lawful.live_of_peer
  rw [← Node.span_move, Node.move_branch] at hreport
  refine hreport.bind ?_
  intro _ w _
  exact Follows.pure (by simp)

theorem enclose (lawful : z.Lawful) (kind : Node.Kind) (adopted : Forest)
    (hbody : z.Follows c pre post s body body') :
    z.Follows c pre post s (Grammar.enclose kind adopted body)
      (Grammar.enclose kind (z.moved adopted) body') := by
  unfold Grammar.enclose
  refine hbody.bind ?_
  intro children v _
  exact lawful.offset_bind (Follows.pure (by simp))

end Nodes

/-! ## Loops -/

section Loops

variable {μ : Type} {go fin : State → Prop} {bodies : Nat}

theorem again {nodes more : Forest} (h : more = z.moved nodes) (memory : μ) :
    z.Iterates c bodies go fin s (Pure.pure (nodes, some memory))
      (Pure.pure (more, some memory)) :=
  fun hinv => ⟨hinv, fun hgo => ⟨hgo, fun _ hrel => ⟨by rw [h]; rfl, hrel⟩⟩⟩

/-- The end of a loop is reached with the guard behind it. -/
theorem done {nodes more : Forest} (h : more = z.moved nodes) :
    z.Tracks (c.withBodies bodies) fin (Prod.map z.moved id)
      (fun out : Forest × Option μ => if out.2.isSome then c else c.withBodies bodies)
      (fun out => if out.2.isSome then go else fin) s (Pure.pure (nodes, none))
      (Pure.pure (more, none)) :=
  fun hinv => ⟨hinv, fun hfin => ⟨hfin, fun _ hrel => ⟨by rw [h]; rfl, hrel⟩⟩⟩

/-- A loop is tracked if its steps are, and the second run has no smaller budget. -/
theorem loop (lawful : z.Lawful) (hcalm : ∀ u, fin u → z.calm u)
    {step step' : μ → Parse (Forest × Option μ)}
    (hstep : ∀ memory u, z.Iterates c bodies go fin u (step memory) (step' memory))
    {fuel fuel' : Nat} (hle : fuel ≤ fuel') (memory : μ) :
    z.Tracks c go z.moved (fun _ => c.withBodies bodies) (fun _ => fin) s
      (Grammar.loop step fuel memory) (Grammar.loop step' fuel' memory) := by
  induction fuel generalizing fuel' memory s with
  | zero =>
    intro hinv
    exact ⟨lawful.inv_spent bodies hinv,
      fun hfin => absurd (hcalm _ hfin) lawful.not_calm_spent⟩
  | succ fuel ih =>
    obtain ⟨more, rfl⟩ : ∃ more, fuel' = more + 1 := ⟨fuel' - 1, by omega⟩
    refine (hstep memory s).bind ?_
    rintro ⟨nodes, next⟩ u _
    cases next with
    | none => exact Follows.pure rfl
    | some next =>
      refine (ih (by omega) next).bind ?_
      intro rest v _
      exact Follows.pure (by simp)

end Loops

/-! ## Depth -/

/-- Both runs count the expressions around the place anew. -/
theorem recount (lawful : z.Lawful) (hadmits : c.Admits c.mode) (change : Nat → Nat) :
    z.Tracks c z.live id (fun _ => c) (fun _ => z.live) s
      (modify fun u => { u with depth := change u.depth } : Parse PUnit)
      (modify fun u => { u with depth := change u.depth }) := by
  have hchange : ∀ u : State, c.Governs u.stream → { u with depth := change u.depth } =
      u.within c.mode c.nesting c.lineBound (change u.depth) := by
    rintro u ⟨hmode, hnesting, hlineBound⟩
    rw [← hmode, ← hnesting, ← hlineBound]
    rfl
  exact lawful.change change hadmits (c.leaves_self _) hchange lawful.live_atDepth

/-- The limit on nested expressions may be a higher one in the second run, if reaching it in the
first rules out the comparison. -/
theorem limited (lawful : z.Lawful) {limit limit' : Nat} (hle : limit ≤ limit')
    {deep shallow : Parse α} {deep' shallow' : Parse β}
    (hdeep : limit ≤ s.depth → z.Tracks c z.live m d Q s deep deep' ∧
      (limit = limit' ∨ ¬Q (deep s).1 (deep s).2))
    (hshallow : ¬limit ≤ s.depth → z.Tracks c z.live m d Q s shallow shallow') :
    z.Tracks c z.live m d Q s (get >>= fun u => if limit ≤ u.depth then deep else shallow)
      (get >>= fun u => if limit' ≤ u.depth then deep' else shallow') := by
  intro hinv
  by_cases hreached : limit ≤ s.depth
  · obtain ⟨htracks, hlimit⟩ := hdeep hreached
    have hrun : (get >>= fun u => if limit ≤ u.depth then deep else shallow : Parse α) s =
        deep s := by
      change (if limit ≤ s.depth then deep else shallow) s = _
      rw [if_pos hreached]
    rw [hrun]
    refine ⟨(htracks hinv).1, fun hpost => ⟨((htracks hinv).2 hpost).1, fun t hrel => ?_⟩⟩
    have heq : limit = limit' := hlimit.resolve_right fun hnot => hnot hpost
    have hreached' : limit' ≤ t.depth := by
      rw [lawful.depth hrel]
      omega
    change ((if limit' ≤ t.depth then deep' else shallow') t).1 = _ ∧
      z.rel _ _ ((if limit' ≤ t.depth then deep' else shallow') t).2
    rw [if_pos hreached']
    exact ((htracks hinv).2 hpost).2 t hrel
  · have htracks := hshallow hreached
    have hrun : (get >>= fun u => if limit ≤ u.depth then deep else shallow : Parse α) s =
        shallow s := by
      change (if limit ≤ s.depth then deep else shallow) s = _
      rw [if_neg hreached]
    rw [hrun]
    refine ⟨(htracks hinv).1, fun hpost => ⟨((htracks hinv).2 hpost).1, fun t hrel => ?_⟩⟩
    have hreached' : ¬limit' ≤ t.depth := by
      rw [lawful.depth hrel]
      omega
    change ((if limit' ≤ t.depth then deep' else shallow') t).1 = _ ∧
      z.rel _ _ ((if limit' ≤ t.depth then deep' else shallow') t).2
    rw [if_neg hreached']
    exact ((htracks hinv).2 hpost).2 t hrel

/-! ## The middle of a line -/

theorem stops_branchIn (lawful : z.Lawful) (hinv : z.inv c s) {field : Option Field}
    {kind : Node.Kind} {body : Parse Forest}
    (hbody : ∀ before u, Trimmed s before u → z.inv c u → Stops u body) :
    Stops s (Grammar.branch field kind body) :=
  hbody _ s.flushed (trivia_spec (lawful.wellFormed hinv)) (lawful.trivia hinv).1

/-- A loop ends in the middle of a line if its first step does, and each step that starts there. -/
theorem stops_loop {μ : Type} {go fin : State → Prop} {bodies : Nat}
    {step step' : μ → Parse (Forest × Option μ)}
    (htracks : ∀ memory u, z.Iterates c bodies go fin u (step memory) (step' memory))
    (hstep : ∀ memory u, z.inv c u → u.MidLine → Ensures u (step memory) fun _ t => t.MidLine)
    (hinv : z.inv c s) {memory : μ} (hfirst : Ensures s (step memory) fun _ t => t.MidLine)
    (fuel : Nat) : Stops s (Grammar.loop step fuel memory) := by
  induction fuel generalizing memory s with
  | zero =>
    intro _ hspent
    cases hspent
  | succ fuel ih =>
    unfold Grammar.loop
    have hboth : Ensures s (step memory) fun out t =>
        t.MidLine ∧ z.inv (if out.2.isSome then c else c.withBodies bodies) t :=
      ⟨hfirst, (htracks memory s hinv).1⟩
    refine hboth.bind ?_
    rintro ⟨nodes, next⟩ u ⟨hmid, hinv'⟩
    cases next with
    | none => exact hmid
    | some next => exact (ih hinv' (hstep next u hinv' hmid)).and_return (nodes ++ ·)

end Lawful

end Simulation

end Justfile.Grammar
