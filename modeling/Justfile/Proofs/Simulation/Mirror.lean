import Justfile.Proofs.Reading.File
import Justfile.Proofs.Simulation.Balance
import Justfile.Proofs.Simulation.Item
import Justfile.Proofs.Simulation.Moved

/-!
# Mirrored scanners

Two scanners on different sources can give tokens that correspond one by one: of the same kinds, in
places that correspond (`Token.Mirrors`). A `Mirror` says when two scanners stand at the same place, and
that they do so again behind their next tokens. Then whatever is read from them makes the same nodes
and reports, in places that correspond: the runs are compared by a lawful simulation
(`Mirror.lawful`).

A mirror can be blind for some tokens: behind those that are not `clear` the scanners may go apart. The
comparison is claimed of runs that consume clear tokens only. Besides, with a body open none is looked
for; that is known of all runs from the balance of their levels.

What scanners remember of a literal or a body that was left is never asked for. So it may differ, until
another one is opened (`Recall`).
-/

set_option autoImplicit false

namespace Justfile

/-- The token at the same place of another source: of the same kind, and an identifier has the same
characters. -/
structure Token.Mirrors (place : Nat → Nat) (a b : Token) : Prop where
  kind : b.kind = a.kind
  span : b.span = a.span.move place
  text : a.kind = .identifier → b.text = a.text

/-- What two scanners are known to remember alike: whether the literal at hand is closed, and whether the
next line is the first of its body. -/
structure Recall where
  literal : Prop
  body : Prop

namespace Recall

instance : LE Recall := ⟨fun r r' => (r.literal → r'.literal) ∧ (r.body → r'.body)⟩

/-- What is asked for in the mode is known. -/
structure Suffices (r : Recall) (mode : Mode) : Prop where
  literal : mode.fault?.isSome = true → r.literal
  body : mode = .body → r.body

/-- What is known behind a token: the one that opens a literal or a body makes them forget the last. -/
def behind (r : Recall) (kind : Token.Kind) : Recall :=
  ⟨r.literal ∨ kind.opensLiteral = true, r.body ∨ kind = .indent⟩

theorem le_behind (r : Recall) (kind : Token.Kind) : r ≤ r.behind kind := ⟨.inl, .inl⟩

end Recall

namespace Grammar.Context

variable {c : Context}

/-- What is known in a context. -/
def remembers (c : Context) : Recall :=
  ⟨c.literal = true ∨ c.mode.fault?.isSome = true, c.bodies ≠ 0 ∨ c.mode = .body⟩

theorem suffices_remembers (c : Context) : c.remembers.Suffices c.mode := ⟨.inr, .inr⟩

theorem remembers_within {mode : Mode} (hadmits : c.Admits mode) (nesting : Nat) (lineBound : Bool) :
    (c.within mode nesting lineBound).remembers ≤ c.remembers :=
  ⟨fun h => .inl (h.elim id hadmits.1), fun h => .inl (h.elim id hadmits.2.1)⟩

theorem remembers_opened (c : Context) : c.remembers ≤ c.opened.remembers :=
  ⟨fun _ => .inl rfl, id⟩

/-- In the mode of bodies it does not matter how many of them are open. -/
theorem remembers_withBodies (hmode : c.mode = .body) (bodies : Nat) :
    (c.withBodies bodies).remembers ≤ c.remembers :=
  ⟨id, fun _ => .inr hmode⟩

end Grammar.Context

/-- When two scanners stand at the same place of two sources. -/
structure Mirror where
  /-- Where an offset of the first source lies in the second. -/
  place : Nat → Nat
  /-- The scanners stand at the same place, and remember the same as far as is known. -/
  like : Recall → Scanner → Scanner → Prop
  /-- Behind the token the scanners stand at the same place again. -/
  clear : Token → Prop
  clear_of_ne_indent : ∀ {token : Token}, token.kind ≠ .indent → clear token
  offset_eq : ∀ {r : Recall} {s t : Scanner}, like r s t → t.offset = place s.offset
  mono : ∀ {r r' : Recall} {s t : Scanner}, r' ≤ r → like r s t → like r' s t
  next : ∀ {r : Recall} {s t : Scanner} {mode : Mode}, s.WellFormed → like r s t → r.Suffices mode →
    (mode = .bodyStart → s.levels = []) →
    (s.next mode).1.Mirrors place (t.next mode).1 ∧
      (clear (s.next mode).1 →
        like (r.behind (s.next mode).1.kind) (s.next mode).2 (t.next mode).2)

/-- Only where bodies are looked for one is opened. -/
theorem Scanner.ne_indent_of_mode {s : Scanner} (wf : s.WellFormed) {mode : Mode}
    (hmode : mode ≠ .bodyStart) : (s.next mode).1.kind ≠ .indent := by
  intro hkind
  rcases (Scanner.step_next s mode).levels_cases wf with ⟨hlevel, -⟩ | ⟨hstart, -⟩ | ⟨-, hdedent, -⟩
  · rw [hkind] at hlevel
    cases hlevel
  · exact hmode hstart
  · rw [hkind] at hdedent
    cases hdedent

namespace Mirror

variable (m : Mirror)

/-! ## Looking ahead -/

section Stream

variable {z : Stream} {s t : Scanner} {r : Recall}

theorem ofToken_of_mirrors {place : Nat → Nat} {a b : Token} (h : a.Mirrors place b)
    (field : Option Field) : Node.ofToken field b = (Node.ofToken field a).move place := by
  simp only [Node.ofToken, Node.move_leaf, h.kind, h.span]

/-- Trivia is skipped alike, whatever bounds its number. -/
theorem skip (wf : s.WellFormed) (wf' : t.WellFormed) (like : m.like r s t)
    (hrecall : r.Suffices z.mode) (hlevels : z.mode = .bodyStart → s.levels = []) {fuel fuel' : Text}
    (hfuel : s.rest.length ≤ fuel.length) (hfuel' : t.rest.length ≤ fuel'.length) :
    (z.skip fuel' t).1.map (Node.ofToken none) =
        Node.moveList m.place ((z.skip fuel s).1.map (Node.ofToken none)) ∧
      m.like r (z.skip fuel s).2 (z.skip fuel' t).2 := by
  induction fuel generalizing s t fuel' with
  | nil =>
    obtain ⟨hmirrors, -⟩ := m.next wf like hrecall hlevels
    have hstop : z.isTrivia (s.next z.mode).1.kind = false := (Stream.skip_spec z [] s wf hfuel).2.2
    have hstop' : z.isTrivia (t.next z.mode).1.kind = false := by
      rw [hmirrors.kind]
      exact hstop
    rw [Stream.skip_of_not_isTrivia hstop, Stream.skip_of_not_isTrivia hstop']
    exact ⟨by simp, like⟩
  | cons c fuel ih =>
    obtain ⟨hmirrors, hafter⟩ := m.next wf like hrecall hlevels
    cases htrivia : z.isTrivia (s.next z.mode).1.kind with
    | false =>
      have hstop' : z.isTrivia (t.next z.mode).1.kind = false := by
        rw [hmirrors.kind]
        exact htrivia
      rw [Stream.skip_of_not_isTrivia htrivia, Stream.skip_of_not_isTrivia hstop']
      exact ⟨by simp, like⟩
    | true =>
      have htrivia' : z.isTrivia (t.next z.mode).1.kind = true := by
        rw [hmirrors.kind]
        exact htrivia
      have hlevel := Stream.isLevel_of_isTrivia htrivia
      -- Trivia opens no body, so that the scanners correspond behind it as well.
      have hclear : m.clear (s.next z.mode).1 := by
        apply m.clear_of_ne_indent
        intro hkind
        rw [hkind] at hlevel
        cases hlevel
      have hlt := (Scanner.step_next s z.mode).rest_lt wf (Stream.canBeEmpty_of_isTrivia htrivia)
      have hlt' := (Scanner.step_next t z.mode).rest_lt wf' (Stream.canBeEmpty_of_isTrivia htrivia')
      rw [List.length_cons] at hfuel
      cases fuel' with
      | nil =>
        rw [List.length_nil] at hfuel'
        omega
      | cons c' fuel' =>
        rw [List.length_cons] at hfuel'
        have hlevels' : z.mode = .bodyStart → (s.next z.mode).2.levels = [] := by
          rw [(Scanner.levels_next wf hlevel).1]
          exact hlevels
        obtain ⟨hnodes, hlike⟩ := @ih _ _ (wf.next z.mode) (wf'.next z.mode)
          (m.mono (r.le_behind _) (hafter hclear)) hlevels' fuel' (by omega) (by omega)
        simp only [Stream.skip, htrivia, htrivia', if_true, List.map_cons, Node.moveList_cons, hnodes,
          ofToken_of_mirrors hmirrors]
        exact ⟨trivial, hlike⟩

/-- The next significant token from the two scanners on. -/
theorem ahead (wf : s.WellFormed) (wf' : t.WellFormed) (like : m.like r s t)
    (hrecall : r.Suffices z.mode) (hlevels : z.mode = .bodyStart → s.levels = []) :
    (z.ahead s).token.Mirrors m.place (z.ahead t).token ∧
      (m.clear (z.ahead s).token →
        m.like (r.behind (z.ahead s).token.kind) (z.ahead s).after (z.ahead t).after) := by
  obtain ⟨-, hlike⟩ := m.skip (z := z) wf wf' like hrecall hlevels (Nat.le_refl _) (Nat.le_refl _)
  obtain ⟨hrun, htrivia, -⟩ := Stream.skip_spec z s.rest s wf (Nat.le_refl _)
  refine m.next (hrun.wellFormed wf).1 hlike hrecall fun hmode => ?_
  rw [(hrun.levels wf fun token hmem => Stream.isLevel_of_isTrivia (htrivia token hmem)).1]
  exact hlevels hmode

/-- Further tokens, in a mode that opens no body. -/
theorem nthFrom (hmode : z.mode ≠ .bodyStart) (wf : s.WellFormed) (wf' : t.WellFormed)
    (like : m.like r s t) (hrecall : r.Suffices z.mode) (n : Nat) :
    (z.nthFrom n s).Mirrors m.place (z.nthFrom n t) := by
  induction n generalizing s t with
  | zero => exact (m.ahead wf wf' like hrecall fun h => absurd h hmode).1
  | succ n ih =>
    obtain ⟨hmirrors, hafter⟩ := m.ahead (z := z) wf wf' like hrecall fun h => absurd h hmode
    obtain ⟨hrun, -, -⟩ := Stream.skip_spec z s.rest s wf (Nat.le_refl _)
    obtain ⟨hrun', -, -⟩ := Stream.skip_spec z t.rest t wf' (Nat.le_refl _)
    have hbefore := (hrun.wellFormed wf).1
    rw [Stream.nthFrom, Stream.nthFrom, hmirrors.kind]
    split
    · exact hmirrors
    · refine ih (hbefore.next z.mode) ((hrun'.wellFormed wf').1.next z.mode)
        (m.mono (r.le_behind _) (hafter ?_))
      exact m.clear_of_ne_indent (Scanner.ne_indent_of_mode hbefore hmode)

end Stream

end Mirror

/-- Whether two tokens stand together depends on their kinds only: there is nothing between them. -/
theorem Stream.atGlued_eq (z : Stream) (first second : Token.Kind) :
    z.atGlued first second = (((z.ahead z.scanner).token.kind == first && first != .endOfInput) &&
      ((z.ahead z.scanner).after.next z.mode).1.kind == second) := by
  have hfirst : (z.ahead z.scanner).token.span.stop = (z.ahead z.scanner).after.offset :=
    congrArg Span.stop (Scanner.takes_next (z.ahead z.scanner).before z.mode).span_eq
  have hsecond : ((z.ahead z.scanner).after.next z.mode).1.span.start =
      (z.ahead z.scanner).after.offset :=
    congrArg Span.start (Scanner.takes_next (z.ahead z.scanner).after z.mode).span_eq
  unfold atGlued
  dsimp only
  rw [hfirst, hsecond, beq_self_eq_true, Bool.and_true]
  by_cases hkind : (z.ahead z.scanner).token.kind = first
  · by_cases hend : first = .endOfInput
    · simp [hkind, hend]
    · simp [hkind, hend]
  · simp [hkind]

namespace Mirror

open Grammar

variable (m : Mirror)

/-! ## The simulation -/

/-- Nothing that the mirror is blind for was consumed, and no budget is exhausted. -/
def Clear (s : State) : Prop := s.exhausted = false ∧ ∀ token ∈ s.consumed, m.clear token

/-- Runs on the two sources. -/
def simulation : Simulation where
  place := m.place
  inv c s := (balanced []).inv c s ∧ (s.exhausted = false → c.mode = .bodyStart → c.bodies = 0)
  rel c s t := m.like c.remembers s.scanner t.scanner ∧ t.scanner.WellFormed ∧ c.Governs t.stream ∧
    t.depth = s.depth ∧ t.reports = s.reports.map (moveReport m.place)
  calm := m.Clear
  wide := m.Clear
  live := m.Clear
  peer := m.Clear

section Laws

variable {m} {c e : Context} {s t : State}

theorem levels_of_inv (hinv : m.simulation.inv c s) (hlive : s.exhausted = false)
    (hmode : s.stream.mode = .bodyStart) : s.scanner.levels = [] := by
  obtain ⟨⟨-, hgov, hleveled⟩, hbodies⟩ := hinv
  have hphase := (hleveled hlive).phase
  rw [hbodies hlive (hgov.mode ▸ hmode)] at hphase
  exact hphase.1

/-- The two streams read their tokens in the same way. -/
theorem stream_eq (hgov : c.Governs s.stream) (hgov' : c.Governs t.stream) :
    t.stream = { s.stream with scanner := t.scanner } := by
  have hmode := hgov'.mode.trans hgov.mode.symm
  have hnesting := hgov'.nesting.trans hgov.nesting.symm
  have hlineBound := hgov'.lineBound.trans hgov.lineBound.symm
  cases hstream : t.stream with
  | mk scanner mode nesting lineBound =>
    rw [hstream] at hmode hnesting hlineBound
    simp only [State.scanner, hstream]
    rw [← hmode, ← hnesting, ← hlineBound]

/-- Behind the trivia in front of the next token. -/
theorem flushed (hinv : m.simulation.inv c s) (hlive : s.exhausted = false)
    (hrel : m.simulation.rel c s t) :
    t.stream.takeTrivia.1.map (Node.ofToken none) =
        Node.moveList m.place (s.stream.takeTrivia.1.map (Node.ofToken none)) ∧
      m.like c.remembers s.flushed.scanner t.flushed.scanner := by
  obtain ⟨like, wf', hgov', -, -⟩ := hrel
  have hrecall : c.remembers.Suffices s.stream.mode := hinv.1.2.1.mode ▸ c.suffices_remembers
  have hskip := m.skip (z := s.stream) hinv.1.1 wf' like hrecall (levels_of_inv hinv hlive)
    (Nat.le_refl _) (Nat.le_refl _)
  have htrivia : t.stream.takeTrivia = ((s.stream.skip t.scanner.rest t.scanner).1,
      { t.stream with scanner := (s.stream.skip t.scanner.rest t.scanner).2 }) := by
    unfold Stream.takeTrivia
    rw [show t.stream.scanner = t.scanner from rfl, stream_eq hinv.1.2.1 hgov', Stream.skip_withScanner]
  have hscanner : t.flushed.scanner = (s.stream.skip t.scanner.rest t.scanner).2 := by
    change t.stream.takeTrivia.2.scanner = _
    rw [htrivia]
  rw [htrivia, hscanner]
  exact hskip

/-- The next token, behind the trivia. -/
theorem step (hinv : m.simulation.inv c s) (hlive : s.exhausted = false)
    (hrel : m.simulation.rel c s t) :
    s.flushed.step.1.Mirrors m.place t.flushed.step.1 ∧
      (m.clear s.flushed.step.1 →
        m.like (c.remembers.behind s.front) s.flushed.step.2 t.flushed.step.2) := by
  obtain ⟨-, like⟩ := flushed hinv hlive hrel
  have hsteady := steady_flushed hinv.1.1
  have hmode : t.flushed.stream.mode = s.flushed.stream.mode :=
    hrel.2.2.1.mode.trans hinv.1.2.1.mode.symm
  have hrecall : c.remembers.Suffices s.flushed.stream.mode := hinv.1.2.1.mode ▸ c.suffices_remembers
  have hnext := m.next (hsteady.wellFormed hinv.1.1) like hrecall fun hstart => by
    rw [hsteady.levels]
    exact levels_of_inv hinv hlive hstart
  have hstep : t.flushed.step = t.flushed.scanner.next s.flushed.stream.mode := by
    rw [← hmode]
    rfl
  rw [hstep]
  exact hnext

/-- The relation depends on how tokens are read, and on what is known to be remembered. -/
theorem rel_context (hrel : m.simulation.rel c s t) (hmode : e.mode = c.mode)
    (hnesting : e.nesting = c.nesting) (hlineBound : e.lineBound = c.lineBound)
    (hrecall : e.remembers ≤ c.remembers) : m.simulation.rel e s t := by
  obtain ⟨like, wf', hgov, hrest⟩ := hrel
  exact ⟨m.mono hrecall like, wf', ⟨hgov.mode.trans hmode.symm, hgov.nesting.trans hnesting.symm,
    hgov.lineBound.trans hlineBound.symm⟩, hrest⟩

theorem rel_flushed (hinv : m.simulation.inv c s) (hlive : s.exhausted = false)
    (hrel : m.simulation.rel c s t) : m.simulation.rel c s.flushed t.flushed := by
  obtain ⟨-, like⟩ := flushed hinv hlive hrel
  obtain ⟨-, wf', hgov', hdepth, hreports⟩ := hrel
  have onward := onward_flushed wf'
  exact ⟨like, onward.wellFormed wf', onward.governs hgov', hdepth, hreports⟩

/-- Tokens at the same place are taken. -/
theorem rel_take (hrel : m.simulation.rel c s t) {a b : Token} {x y : Scanner}
    (hkind : b.kind = a.kind) (hspan : b.span = a.span.move m.place) (hmode : e.mode = c.mode)
    (hnesting : e.nesting = c.nesting) (hlineBound : e.lineBound = c.lineBound)
    (like : m.like e.remembers x y) (wf' : y.WellFormed) :
    m.simulation.rel e (s.take a x) (t.take b y) := by
  obtain ⟨-, -, hgov', hdepth, hreports⟩ := hrel
  refine ⟨like, wf', ⟨hgov'.mode.trans hmode.symm, hgov'.nesting.trans hnesting.symm,
    hgov'.lineBound.trans hlineBound.symm⟩, hdepth, ?_⟩
  simp only [State.take, hkind, hspan]
  split
  · rw [hreports]
    rfl
  · exact hreports

/-- What is claimed of a production, for which only the runs are left to be compared. -/
theorem tracks {p : Parse Forest} (hinv : m.simulation.inv c s → m.simulation.inv e (p s).2)
    (hexhausted : (p s).2.exhausted = s.exhausted) (hconsumed : s.consumed <:+ (p s).2.consumed)
    (hrun : m.simulation.inv c s → m.Clear (p s).2 → s.exhausted = false → ∀ t,
      m.simulation.rel c s t →
        (p t).1 = Node.moveList m.place (p s).1 ∧ m.simulation.rel e (p s).2 (p t).2) :
    m.simulation.Tracks c m.Clear m.simulation.moved (fun _ => e) (fun _ => m.Clear) s p p := by
  intro hs
  refine ⟨hinv hs, fun hclear => ?_⟩
  have hlive : s.exhausted = false := hexhausted ▸ hclear.1
  exact ⟨⟨hlive, fun token hmem => hclear.2 token (hconsumed.subset hmem)⟩, hrun hs hclear hlive⟩

theorem tracks_trivia :
    m.simulation.Tracks c m.Clear m.simulation.moved (fun _ => c) (fun _ => m.Clear) s trivia
      trivia := by
  refine tracks (fun h => ⟨((lawful_balanced []).trivia h.1).1, h.2⟩) rfl
    (List.suffix_append _ _) fun hinv _ hlive t hrel => ?_
  rw [trivia_eq, trivia_eq]
  exact ⟨(flushed hinv hlive hrel).1, rel_flushed hinv hlive hrel⟩

theorem front_eq (hinv : m.simulation.inv c s) (hlive : s.exhausted = false)
    (hrel : m.simulation.rel c s t) : t.front = s.front :=
  (step hinv hlive hrel).1.kind

section Bump

variable (hne : s.front ≠ .endOfInput) (field : Option Field) (word : Option Keyword)
include hne

theorem exhausted_bumpAs : (bumpAs field (word.map .keyword) s).2.exhausted = s.exhausted := by
  rw [bumpAs_eq field _ s hne]
  rfl

theorem consumed_bumpAs : s.consumed <:+ (bumpAs field (word.map .keyword) s).2.consumed := by
  rw [bumpAs_eq field _ s hne]
  exact (List.suffix_append _ _).trans (List.suffix_cons _ _)

/-- Tokens at the same place are consumed, one of them perhaps as a keyword. -/
theorem rel_bumpAs (hword : word.isSome = true → s.front ≠ .indent)
    (hinv : m.simulation.inv c s) (hlive : s.exhausted = false)
    (hclear : m.Clear (bumpAs field (word.map .keyword) s).2) (hrel : m.simulation.rel c s t)
    (hmode : e.mode = c.mode) (hnesting : e.nesting = c.nesting)
    (hlineBound : e.lineBound = c.lineBound) (hrecall : e.remembers ≤ c.remembers.behind s.front) :
    (bumpAs field (word.map .keyword) t).1 =
        Node.moveList m.place (bumpAs field (word.map .keyword) s).1 ∧
      m.simulation.rel e (bumpAs field (word.map .keyword) s).2
        (bumpAs field (word.map .keyword) t).2 := by
  obtain ⟨hmirrors, hlike⟩ := step hinv hlive hrel
  have hafter := bumpAs_eq field (word.map .keyword) s hne
  have hstep : m.clear s.flushed.step.1 := by
    cases word with
    | none =>
      rw [hafter] at hclear
      exact hclear.2 _ List.mem_cons_self
    | some word => exact m.clear_of_ne_indent (hword rfl)
  have hflushed := rel_flushed hinv hlive hrel
  have hne' : t.front ≠ .endOfInput := by rwa [front_eq hinv hlive hrel]
  rw [hafter, bumpAs_eq field _ t hne']
  refine ⟨?_, rel_take hflushed ?_ hmirrors.span hmode hnesting hlineBound
    (m.mono hrecall (hlike hstep)) (hflushed.2.1.next _)⟩
  · rw [Node.moveList_append, (flushed hinv hlive hrel).1, Node.moveList_cons, Node.moveList_nil]
    simp only [Node.ofToken, Node.move_leaf, hmirrors.kind, hmirrors.span]
  · simp only [hmirrors.kind]

theorem tracks_bumpAs (hword : word.isSome = true → s.front ≠ .indent) (hmode : e.mode = c.mode)
    (hnesting : e.nesting = c.nesting) (hlineBound : e.lineBound = c.lineBound)
    (hrecall : e.remembers ≤ c.remembers.behind s.front)
    (hbodies : (c.mode = .bodyStart → c.bodies = 0) → e.mode = .bodyStart → e.bodies = 0)
    (hbalanced : (balanced []).inv c s →
      (balanced []).inv e (bumpAs field (word.map .keyword) s).2) :
    m.simulation.Tracks c m.Clear m.simulation.moved (fun _ => e) (fun _ => m.Clear) s
      (bumpAs field (word.map .keyword)) (bumpAs field (word.map .keyword)) := by
  have hexhausted := exhausted_bumpAs hne field word
  refine tracks (fun h => ⟨hbalanced h.1, fun hlive => hbodies (h.2 (hexhausted ▸ hlive))⟩) hexhausted
    (consumed_bumpAs hne field word) fun hinv hclear hlive t hrel => ?_
  exact rel_bumpAs hne field word hword hinv hlive hclear hrel hmode hnesting hlineBound hrecall

end Bump

theorem tracks_openBody (hfront : s.front = .indent) (hmode : c.mode = .bodyStart)
    (hbodies : c.bodies = 0) :
    m.simulation.Tracks c m.Clear m.simulation.moved
      (fun _ => (c.withBodies 1).within .body c.nesting c.lineBound) (fun _ => m.Clear) s openBody
      openBody := by
  have hne : s.front ≠ .endOfInput := by
    rw [hfront]
    exact nofun
  have hbalanced := (lawful_balanced []).open_body hfront hmode hbodies
  refine tracks (fun h => ⟨(hbalanced h.1).1, nofun⟩) (exhausted_bumpAs hne none none)
    (consumed_bumpAs hne none none) fun hinv hclear hlive t hrel => ?_
  obtain ⟨hnodes, like, wf', hgov', hrest⟩ :=
    rel_bumpAs (e := c.withBodies 1) hne none none nofun hinv hlive hclear hrel rfl rfl rfl
      ⟨.inl, fun _ => .inr hfront⟩
  refine ⟨hnodes, m.mono ⟨?_, ?_⟩ like, wf', ⟨rfl, hgov'.nesting, hgov'.lineBound⟩, hrest⟩
  · exact fun h => .inl (h.resolve_right nofun)
  · exact fun _ => .inl Nat.one_ne_zero

/-- The next significant tokens: further ones only where no body can be opened. -/
theorem nth_mirrors (hinv : m.simulation.inv c s) (hlive : s.exhausted = false)
    (hrel : m.simulation.rel c s t) {n : Nat} (hn : n = 0 ∨ c.mode = .normal) :
    (s.stream.nth n).Mirrors m.place (t.stream.nth n) := by
  rcases hn with rfl | hmode
  · exact (step hinv hlive hrel).1
  · have hstart : s.stream.mode ≠ .bodyStart := by
      rw [hinv.1.2.1.mode, hmode]
      decide
    have hnth : t.stream.nth n = s.stream.nthFrom n t.scanner := by
      unfold Stream.nth
      rw [stream_eq hinv.1.2.1 hrel.2.2.1, Stream.nthFrom_withScanner]
    rw [hnth]
    exact m.nthFrom hstart hinv.1.1 hrel.2.1 hrel.1 (hinv.1.2.1.mode ▸ c.suffices_remembers) n

theorem alike_nth (hinv : m.simulation.inv c s) (hclear : m.Clear s)
    (hrel : m.simulation.rel c s t) {n : Nat} (hn : n = 0 ∨ c.mode = .normal) :
    m.simulation.Alike c (s.stream.nth n) (t.stream.nth n) := by
  have hmirrors := nth_mirrors hinv hclear.1 hrel hn
  exact ⟨hmirrors.kind, fun _ => hmirrors.span, hmirrors.text⟩

theorem rel_report (hrel : m.simulation.rel c s t) (cause : Cause) (span : Span) :
    m.simulation.rel c (s.withReport cause span) (t.withReport cause (span.move m.place)) := by
  obtain ⟨like, wf', hgov', hdepth, hreports⟩ := hrel
  refine ⟨like, wf', hgov', hdepth, ?_⟩
  simp only [State.withReport, hreports, List.map_cons]
  rfl

theorem offset_eq_of_rel (hrel : m.simulation.rel c s t) :
    t.stream.offset = m.place s.stream.offset :=
  m.offset_eq hrel.1

/-- The second of two tokens that stand together. -/
theorem second_step (hmode : c.mode = .normal) (hinv : m.simulation.inv c s)
    (hlive : s.exhausted = false) (hrel : m.simulation.rel c s t) :
    (s.flushed.step.2.next s.stream.mode).1.Mirrors m.place
        (t.flushed.step.2.next t.stream.mode).1 ∧
      m.like c.remembers (s.flushed.step.2.next s.stream.mode).2
        (t.flushed.step.2.next t.stream.mode).2 := by
  have hstart : s.stream.mode ≠ .bodyStart := by
    rw [hinv.1.2.1.mode, hmode]
    decide
  have hwf := (steady_flushed hinv.1.1).wellFormed hinv.1.1
  obtain ⟨-, hafter⟩ := step hinv hlive hrel
  have hfirst := hafter (m.clear_of_ne_indent (Scanner.ne_indent_of_mode hwf hstart))
  have hrecall : c.remembers.Suffices s.stream.mode := hinv.1.2.1.mode ▸ c.suffices_remembers
  obtain ⟨hmirrors, hlike⟩ := m.next (hwf.next s.stream.mode) (m.mono (Recall.le_behind _ _) hfirst)
    hrecall fun h => absurd h hstart
  have hsame : t.stream.mode = s.stream.mode := hrel.2.2.1.mode.trans hinv.1.2.1.mode.symm
  rw [hsame]
  exact ⟨hmirrors, m.mono (Recall.le_behind _ _) (hlike (m.clear_of_ne_indent
    (Scanner.ne_indent_of_mode (hwf.next s.stream.mode) hstart)))⟩

theorem atGlued_same (hmode : c.mode = .normal) (hinv : m.simulation.inv c s)
    (hlive : s.exhausted = false) (hrel : m.simulation.rel c s t) (first second : Token.Kind) :
    t.stream.atGlued first second = s.stream.atGlued first second := by
  have hfirst := (step hinv hlive hrel).1.kind
  have hsecond := (second_step hmode hinv hlive hrel).1.kind
  rw [Stream.atGlued_eq, Stream.atGlued_eq, Stream.ahead_scanner, Stream.ahead_scanner]
  change (((t.flushed.step.1.kind == first && _) &&
    (t.flushed.step.2.next t.stream.mode).1.kind == second)) = _
  rw [hfirst, hsecond]
  rfl

theorem tracks_closeBraces (hmode : c.mode = .normal) :
    m.simulation.Tracks c m.Clear m.simulation.moved (fun _ => c) (fun _ => m.Clear) s closeBraces
      closeBraces := by
  have hexhausted : (closeBraces s).2.exhausted = s.exhausted := by
    rw [closeBraces_eq]
    split
    · next hat =>
      rw [bumpGlued_eq hat]
      rfl
    · rfl
  refine tracks (fun h => ⟨((lawful_balanced []).close_braces hmode h.1).1,
    fun hlive => h.2 (hexhausted ▸ hlive)⟩) hexhausted ?_ ?_
  · rw [closeBraces_eq]
    split
    · next hat =>
      rw [bumpGlued_eq hat]
      exact (List.suffix_append _ _).trans (List.suffix_cons _ _)
    · exact List.suffix_refl _
  · intro hinv _ hlive t hrel
    have hglued := atGlued_same hmode hinv hlive hrel (.mark .braceR) (.mark .braceR)
    rw [closeBraces_eq, closeBraces_eq, hglued]
    split
    · next hat =>
      have hfirst := (step hinv hlive hrel).1
      obtain ⟨hsecond, hlike⟩ := second_step hmode hinv hlive hrel
      have hflushed := rel_flushed hinv hlive hrel
      have hspan : (⟨t.flushed.step.1.span.start,
          (t.flushed.step.2.next t.stream.mode).1.span.stop⟩ : Span) =
            (⟨s.flushed.step.1.span.start,
              (s.flushed.step.2.next s.stream.mode).1.span.stop⟩ : Span).move m.place := by
        rw [hfirst.span, hsecond.span]
        rfl
      rw [bumpGlued_eq hat, bumpGlued_eq (hglued.trans hat)]
      refine ⟨?_, rel_take hflushed rfl hspan rfl rfl rfl hlike ((hflushed.2.1.next _).next _)⟩
      rw [Node.moveList_append, (flushed hinv hlive hrel).1, Node.moveList_cons, Node.moveList_nil,
        Node.move_leaf, hspan]
    · have hempty : Span.empty t.stream.offset = (Span.empty s.stream.offset).move m.place := by
        rw [offset_eq_of_rel hrel]
        rfl
      have hreport := rel_report hrel (.missing (.token .interpolationClose))
        (.empty s.stream.offset)
      rw [← hempty] at hreport
      refine ⟨?_, hreport⟩
      change [Node.leaf none .missing (.empty t.stream.offset)] =
        Node.moveList m.place [.leaf none .missing (.empty s.stream.offset)]
      rw [Node.moveList_cons, Node.moveList_nil, Node.move_leaf, hempty]

end Laws

/-- Whatever is read from the two sources corresponds. -/
theorem lawful : m.simulation.Lawful where
  wellFormed h := h.1.1
  governs h := h.1.2.1
  governs_rel h := h.2.2.1
  depth h := h.2.2.2.1
  offset h := m.offset_eq h.1
  inv_within hadmits hleaves h := ⟨(lawful_balanced []).inv_within hadmits hleaves h.1,
    fun _ hmode => hadmits.2.2 hmode⟩
  rel_within hadmits h := ⟨m.mono (Context.remembers_within hadmits _ _) h.1, h.2.1, ⟨rfl, rfl, rfl⟩, rfl,
    h.2.2.2.2⟩
  inv_opened h := ⟨(lawful_balanced []).inv_opened h.1, h.2⟩
  rel_opened {c _ _} h := rel_context h rfl rfl rfl c.remembers_opened
  inv_report cause span h := ⟨(lawful_balanced []).inv_report cause span h.1, h.2⟩
  rel_report cause span h := rel_report h cause span
  inv_spent bodies h := ⟨(lawful_balanced []).inv_spent bodies h.1, nofun⟩
  -- One condition stands for all of them: the budget lasts, and what was read is clear.
  calm_of_wide := id
  wide_of_live := id
  live_of_peer := id
  calm_within := id
  wide_within := id
  live_atDepth := id
  not_calm_spent h := by cases h.1
  peer_of_report h := h
  peer_of_reported _ h := h
  live_of_calm _ h _ _ _ := h
  live_of_wide _ h _ _ := h
  live_of_midLine _ _ h _ _ _ := h
  peer_of_next h _ _ := h
  peer_of_trimmed h _ _ := h
  token hinv hclear hrel := alike_nth hinv hclear hrel (.inl rfl)
  second hinv hmode hclear hrel := alike_nth hinv hclear hrel (.inr hmode)
  -- Of the third token only the kind is looked at.
  third hinv hmode hclear hrel := by
    rw [(nth_mirrors hinv hclear.1 hrel (.inr hmode)).kind]
  front_body hinv _ _ hclear hrel := front_eq hinv hclear.1 hrel
  indent hinv _ hclear hrel := by rw [front_eq hinv hclear.1 hrel]
  trivia := tracks_trivia
  bump field hallows hne := tracks_bumpAs hne field none nofun rfl rfl rfl (Recall.le_behind _ _) id
    fun h => ((lawful_balanced []).bump field hallows hne h).1
  keyword {c s} word hmode hfront := by
    have hne : s.front ≠ .endOfInput := by
      rw [hfront]
      exact nofun
    have hindent : s.front ≠ .indent := by
      rw [hfront]
      exact nofun
    exact tracks_bumpAs (c := c) hne none (some word) (fun _ => hindent) rfl rfl rfl
      (Recall.le_behind _ _) id fun h => ((lawful_balanced []).keyword word hmode hfront h).1
  open_literal {c s} field hopens :=
    tracks_bumpAs (c := c) (e := c.opened) (ne_endOfInput_of_opensLiteral hopens) field none nofun
      rfl rfl rfl ⟨fun _ => .inr hopens, .inl⟩ id fun h => ((lawful_balanced []).open_literal field hopens h).1
  open_body hfront hmode hbodies := tracks_openBody hfront hmode hbodies
  close_body {c s} hfront hmode hbodies := by
    have hne : s.front ≠ .endOfInput := by
      rw [hfront]
      exact nofun
    exact tracks_bumpAs (c := c) (e := c.withBodies 0) hne none none nofun rfl rfl rfl
      ⟨.inl, fun _ => .inl (.inr hmode)⟩ (fun _ _ => rfl) fun h => ((lawful_balanced []).close_body hfront hmode hbodies h).1
  end_body hfront hmode hbodies h := by
    refine ⟨⟨((lawful_balanced []).end_body hfront hmode hbodies h.1).1, fun _ _ => rfl⟩, ?_⟩
    exact fun t hrel => rel_context hrel rfl rfl rfl (Context.remembers_withBodies hmode 0)
  close_braces hmode := tracks_closeBraces hmode

/-! ## Runs -/

section Runs

variable {limit : Nat} {source source' : Text}

theorem inv_ofText (source : Text) : m.simulation.inv .outer (.ofText source) :=
  ⟨balanced_start [] source, nofun⟩

/-- From scanners at the same place on, the second run has as much budget as the first one. -/
theorem file (like : m.like Context.outer.remembers (.ofText source) (.ofText source')) {bound bound' : Nat}
    (hle : bound ≤ bound')
    (hclear : m.Clear (Grammar.file (.tie limit bound) (.ofText source)).2) :
    (Grammar.file (.tie limit bound') (.ofText source')).1 =
        Node.moveList m.place (Grammar.file (.tie limit bound) (.ofText source)).1 ∧
      m.simulation.rel .outer (Grammar.file (.tie limit bound) (.ofText source)).2
        (Grammar.file (.tie limit bound') (.ofText source')).2 := by
  have pairs := m.lawful.pairs_tie (Nat.le_refl limit) (.inl rfl) hle
  have hrun := (m.lawful.file (c := .outer) rfl rfl pairs rfl (m.inv_ofText source)).2 hclear
  exact hrun.2 (.ofText source')
    ⟨like, Scanner.wellFormed_ofText source', ⟨rfl, rfl, rfl⟩, rfl, rfl⟩

/-- A scanner is at the same place as itself. -/
def self : Mirror where
  place := id
  like _ s t := t = s
  clear _ := True
  clear_of_ne_indent _ := trivial
  offset_eq h := congrArg Scanner.offset h
  mono _ h := h
  next := by
    rintro _ s _ mode - rfl - -
    exact ⟨⟨rfl, rfl, fun _ => rfl⟩, fun _ => rfl⟩

/-- More budget than a run needs makes no difference. -/
theorem file_of_budget_le (limit : Nat) (source : Text) {bound : Nat}
    (hle : budgetFor source.length ≤ bound) :
    (Grammar.file (.tie limit bound) (.ofText source)).1 = (run limit source).1 ∧
      (Grammar.file (.tie limit bound) (.ofText source)).2.reports = (run limit source).2.reports ∧
      (Grammar.file (.tie limit bound) (.ofText source)).2.stream.offset =
        (run limit source).2.stream.offset := by
  have like : self.like Context.outer.remembers (.ofText source) (.ofText source) := rfl
  have hlast := exhausted_run limit source
  rw [run_eq] at hlast ⊢
  obtain ⟨hnodes, hlike, -, -, -, hreports⟩ := self.file like hle ⟨hlast, fun _ _ => trivial⟩
  generalize Grammar.file (.tie limit bound) (.ofText source) = more at *
  generalize Grammar.file (.tie limit (budgetFor source.length)) (.ofText source) = out at *
  exact ⟨hnodes.trans (Node.moveList_id _), hreports.trans (map_moveReport_id _),
    congrArg Scanner.offset hlike⟩

/-- On sources at the same place, runs make the same, if the first one consumes clear tokens only. -/
theorem run (like : m.like Context.outer.remembers (.ofText source) (.ofText source'))
    (hclear : ∀ token ∈ (run limit source).2.consumed, m.clear token) :
    (Grammar.run limit source').1 = Node.moveList m.place (Grammar.run limit source).1 ∧
      (Grammar.run limit source').2.reports =
        (Grammar.run limit source).2.reports.map (moveReport m.place) ∧
      (Grammar.run limit source').2.stream.offset =
        m.place (Grammar.run limit source).2.stream.offset := by
  have hlast := exhausted_run limit source
  rw [run_eq limit source] at hlast hclear ⊢
  -- The second source may be shorter, so both are given the larger one of the two budgets.
  obtain ⟨hnodes, hrel⟩ := m.file like
    (Nat.le_max_left (budgetFor source.length) (budgetFor source'.length)) ⟨hlast, hclear⟩
  obtain ⟨hsame, hreports, hoffset⟩ := file_of_budget_le limit source'
    (Nat.le_max_right (budgetFor source.length) (budgetFor source'.length))
  exact ⟨hsame.symm.trans hnodes, hreports.symm.trans hrel.2.2.2.2,
    hoffset.symm.trans (m.offset_eq hrel.1)⟩

end Runs

end Mirror

end Justfile
