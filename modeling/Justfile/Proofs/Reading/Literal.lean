import Justfile.Proofs.Reading.Combinator

/-!
# Reading literals

Strings, commands and interpolations follow the rules of derivations. The scanner is settled after
an opening token, so that between the delimiters it gives contents, the end of the literal, or the
end of the input and nothing else; an interpolation leaves it settled.
-/

set_option autoImplicit false

namespace Justfile.Grammar

/-! ## Interpolations -/

theorem ClosesInterpolation.append {back : Forest} (h : ClosesInterpolation back) (front : Forest) :
    ClosesInterpolation (front ++ back) := by
  obtain ⟨before, last, rfl, hlast⟩ := h
  exact ⟨front ++ before, last, by rw [List.append_assoc], hlast⟩

/-- The closing braces of an interpolation, or the mark that they are missing. -/
def ClosedInterpolation (place : Place) (height : Nat) (s : State) (nodes : Forest) (t : State) :
    Prop :=
  Outcome place height s nodes t ∧ ClosesInterpolation nodes

section Interpolation

variable {rules : Rules} {bound base height : Nat} {place : Place} {s : State}

/-- Two closing braces in front of nothing to skip. -/
theorem outcome_closingBraces (place : Place) (wf : s.scanner.WellFormed) (hpos : 0 < height)
    (hfirst : s.step.1.kind = .mark .braceR)
    (hsecond : (s.step.2.next s.stream.mode).1.kind = .mark .braceR) :
    Outcome place height s
      [.leaf none (.token .interpolationClose)
        ⟨s.step.1.span.start, (s.step.2.next s.stream.mode).1.span.stop⟩]
      (s.take ⟨.interpolationClose,
        ⟨s.step.1.span.start, (s.step.2.next s.stream.mode).1.span.stop⟩,
        s.step.1.text ++ (s.step.2.next s.stream.mode).1.text, none⟩
        (s.step.2.next s.stream.mode).2) := by
  refine ⟨⟨.closingBraces (Prod.ext rfl rfl) (Prod.ext rfl rfl) hfirst hsecond hpos,
    ⟨rfl, rfl, rfl, rfl⟩, ?_⟩, ?_⟩
  · exact Nat.le_trans (Scanner.work_next_le (wf.next s.stream.mode) s.stream.mode)
      (Scanner.work_next_le wf s.stream.mode)
  · intro hflat settled
    exact (settled.next hflat).next hflat

/-- Two closing braces that stand together are one token behind the trivia in front of them. -/
theorem bumpGlued_eq (hat : s.stream.atGlued (.mark .braceR) (.mark .braceR) = true) :
    bumpGlued .interpolationClose s =
      (s.stream.takeTrivia.1.map (.ofToken none) ++ [.leaf none (.token .interpolationClose)
        ⟨s.flushed.step.1.span.start, (s.flushed.step.2.next s.stream.mode).1.span.stop⟩],
      s.flushed.take ⟨.interpolationClose,
        ⟨s.flushed.step.1.span.start, (s.flushed.step.2.next s.stream.mode).1.span.stop⟩,
        s.flushed.step.1.text ++ (s.flushed.step.2.next s.stream.mode).1.text, none⟩
        (s.flushed.step.2.next s.stream.mode).2) := by
  have hbump := Stream.bumpGlued_of_atGlued .interpolationClose hat rfl nofun
  unfold bumpGlued
  simp only [bind, StateT.bind, get, getThe, MonadStateOf.get, StateT.get, pure, hbump]
  rfl

theorem bumpGlued_spec (place : Place) (wf : s.scanner.WellFormed) (hpos : 0 < height)
    (hat : s.stream.atGlued (.mark .braceR) (.mark .braceR) = true) :
    Ensures s (bumpGlued .interpolationClose) (ClosedInterpolation place height s) := by
  have trimmed := trimmed_flushed wf
  obtain ⟨hfirst, -, hsecond⟩ := Stream.atGlued_spec hat
  have hbraces := outcome_closingBraces place (trimmed.wellFormed wf) hpos hfirst hsecond
  unfold Ensures
  rw [bumpGlued_eq hat]
  exact ⟨(trimmed.outcome place hpos).append hbraces, _, _, rfl, rfl, .inl rfl⟩

theorem missing_interpolationClose (place : Place) (s : State) (hpos : 0 < height) :
    Ensures s (missing none (.token .interpolationClose)) (ClosedInterpolation place height s) :=
  ⟨missing_spec place s hpos none _, [], _, rfl, rfl, .inr rfl⟩

/-- The nodes of an interpolation: trivia, and the interpolation behind it. -/
structure Interpolated (place : Place) (height : Nat) (s : State) (nodes : Forest) (t : State) :
    Prop extends Reads True place height s nodes t where
  ne_nil : nodes ≠ []
  parts : s.stream.Flush → ∀ node ∈ nodes, IsPart node

theorem interpolation_spec (place : Place) (serves : Serves rules bound)
    (h : Affords rules.limit (bound + 1) base s) (hfront : s.front = .interpolationOpen)
    (hlt : base < height + place.credit) (hpos : 0 < height) :
    Ensures s (interpolation rules) (Interpolated place height s) := by
  unfold interpolation branch
  refine Ensures.get ((trivia_spec h.wellFormed).bind ?_)
  intro before t trimmed
  have hbefore := trimmed.outcome place hpos
  have hafter := h.after hbefore.toRan
  have hbase : 0 < base := Nat.lt_of_lt_of_le (by decide) h.four_le
  refine Ensures.bind (P := fun children u =>
    Reads True place.below base t children u ∧ ClosesInterpolation children) ?_ ?_
  · refine (bump_spec place.below hafter.wellFormed (trimmed.front ▸ hfront) rfl none).bind ?_
    intro opened u bumped
    -- The opening token pays for the expression behind it.
    have hopened := hafter.lower (bumped.outcome hbase).toRan bumped.work_lt
    have entry : Entry rules.limit bound base (u.within .normal 0 true u.depth) :=
      ⟨⟨hopened.wellFormed, hopened.work_lt, hopened.reach_le⟩, rfl⟩
    refine Ensures.setMode (Ensures.onStream ?_)
    refine (serves.expression entry place.below (Nat.le_refl base) none).bind ?_
    intro inner v hinner
    have wf := (entry.after hinner.toRan).wellFormed
    refine Ensures.get (Ensures.join (P := ClosedInterpolation place.below base v) ?_ ?_ ?_)
    · intro hat
      exact bumpGlued_spec place.below wf hbase hat
    · intro _
      exact missing_interpolationClose place.below v hbase
    · rintro closed w ⟨hclosed, hcloses⟩
      have hall : Reads True place.below base t (opened ++ (inner ++ closed)) (w.leave t) :=
        bumped.confined (fun _ => rfl) (hinner.toOutcome.append hclosed) hbase
      have hleave : w.leave t = w.leave s := by
        unfold State.leave
        rw [hbefore.keeps.mode, hbefore.keeps.nesting, hbefore.keeps.lineBound]
      rw [hleave, ← List.append_assoc] at hall
      exact ⟨hall, hcloses.append _⟩
  · rintro children u ⟨hreads, hcloses⟩
    have hnode : Reads True place height t
        [.branch none .interpolation children u.stream.offset] u :=
      ⟨⟨⟨.interpolation hreads.derives hlt hcloses, hreads.keeps, hreads.work_le⟩, hreads.settled⟩,
        hreads.work_lt⟩
    refine ⟨hbefore.append_reads hnode, List.append_ne_nil_of_right_ne_nil _ nofun, ?_⟩
    intro flush node hmem
    rw [(trimmed.idle flush).1] at hmem
    rw [List.mem_singleton.1 hmem]
    exact .inr ⟨rfl, hcloses⟩

end Interpolation

/-! ## Between the delimiters -/

namespace Literal

/-- The tokens that the contents of the literal consist of, besides interpolations. -/
def isContent : Literal → Token.Kind → Bool
  | string _ => fun kind => kind == .stringContent || kind == .escapeSequence
  | command _ => fun kind => kind == .commandContent

/-- The tokens in front of which the contents of the literal end. -/
def Ends (l : Literal) (kind : Token.Kind) : Prop :=
  kind = l.closing ∨ kind = .errorRecovery l.fault ∨ kind = .endOfInput

theorem fault?_mode (l : Literal) : l.mode.fault? = some l.fault := by
  cases l <;> rfl

theorem closing?_mode (l : Literal) : l.mode.closing? = some l.closing := by
  cases l <;> rfl

theorem isFlat_mode (l : Literal) : l.mode.isFlat = true := by
  cases l <;> rfl

theorem isContent_of_admits {l : Literal} {kind : Token.Kind} (h : l.mode.admits kind = true) :
    l.isContent kind = true ∨ kind = .interpolationOpen := by
  cases l <;> simpa [mode, Mode.admits, isContent] using h

theorem eq_of_isContent {l : Literal} {kind : Token.Kind} (h : l.isContent kind = true) :
    kind = .stringContent ∨ kind = .escapeSequence ∨ kind = .commandContent := by
  cases l with
  | string dialect =>
    simp only [isContent, Bool.or_eq_true, beq_iff_eq] at h
    rcases h with h | h
    · exact .inl h
    · exact .inr (.inl h)
  | command indented =>
    simp only [isContent, beq_iff_eq] at h
    exact .inr (.inr h)

theorem isSolid_of_isContent {l : Literal} {kind : Token.Kind} (h : l.isContent kind = true)
    (place : Place) : isSolid place kind = true := by
  rcases eq_of_isContent h with rfl | rfl | rfl <;> rfl

theorem isPart_of_isContent {l : Literal} {token : Token} (h : l.isContent token.kind = true) :
    IsPart (.ofToken none token) := by
  refine .inl ⟨rfl, ?_⟩
  unfold Node.ofToken
  rcases eq_of_isContent h with hkind | hkind | hkind
  · rw [hkind]
    exact .inl rfl
  · rw [hkind]
    exact .inr (.inl rfl)
  · rw [hkind]
    exact .inr (.inr rfl)

theorem Ends.ne_interpolationOpen {l : Literal} {kind : Token.Kind} (h : l.Ends kind) :
    kind ≠ .interpolationOpen := by
  rcases h with rfl | rfl | rfl
  · cases l <;> exact nofun
  · exact nofun
  · exact nofun

end Literal

/-- A state between the delimiters of a literal. -/
structure Inside (l : Literal) (limit bound base : Nat) (s : State) : Prop
    extends Affords limit bound base s where
  settled : s.scanner.Settled
  mode : s.stream.mode = l.mode

/-- What stands between the delimiters has been read. -/
structure Contents (place : Place) (height : Nat) (s : State) (nodes : Forest) (t : State) : Prop
    extends Outcome place height s nodes t where
  parts : ∀ node ∈ nodes, IsPart node

theorem Contents.nil (place : Place) (height : Nat) (s : State) : Contents place height s [] s :=
  ⟨.nil place height s, nofun⟩

theorem Contents.append {place : Place} {height : Nat} {s t u : State} {front back : Forest}
    (first : Contents place height s front t) (second : Contents place height t back u) :
    Contents place height s (front ++ back) u := by
  refine ⟨first.toOutcome.append second.toOutcome, ?_⟩
  intro node hmem
  rcases List.mem_append.1 hmem with hmem | hmem
  · exact first.parts node hmem
  · exact second.parts node hmem

section Inside

variable {l : Literal} {rules : Rules} {limit bound base height : Nat} {place : Place} {s t : State}
  {nodes : Forest}

/-- The next token inside a literal: contents, an interpolation, or the end of the contents. -/
theorem Inside.kind_cases (h : Inside l limit bound base s) :
    l.isContent s.step.1.kind = true ∨ s.step.1.kind = .interpolationOpen ∨
      l.Ends s.step.1.kind := by
  have hfault : s.stream.mode.fault?.isSome = true := by rw [h.mode, l.fault?_mode]; rfl
  have hkind := h.settled.kind_next hfault
  rw [h.mode] at hkind
  have hstep : s.scanner.next l.mode = s.step := by rw [← h.mode]; rfl
  rw [hstep] at hkind
  rcases hkind with hadmits | hcloses | ⟨fault, hfault, hkind⟩ | hend
  · rcases Literal.isContent_of_admits hadmits with hcontent | hopens
    · exact .inl hcontent
    · exact .inr (.inl hopens)
  · rw [l.closing?_mode] at hcloses
    exact .inr (.inr (.inl (Option.some.inj hcloses).symm))
  · rw [l.fault?_mode] at hfault
    cases hfault
    exact .inr (.inr (.inr (.inl hkind)))
  · exact .inr (.inr (.inr (.inr hend)))

/-- No token inside a literal is trivia. -/
theorem Inside.flush (h : Inside l limit bound base s) : s.stream.Flush := by
  change s.stream.isTrivia s.step.1.kind = false
  rcases h.kind_cases with hcontent | hopens | hcloses | hfault | hend
  · rcases Literal.eq_of_isContent hcontent with hkind | hkind | hkind <;> rw [hkind] <;> rfl
  · rw [hopens]
    rfl
  · rw [hcloses]
    cases l <;> rfl
  · rw [hfault]
    rfl
  · rw [hend]
    rfl

theorem Inside.front (h : Inside l limit bound base s) : s.front = s.step.1.kind :=
  front_of_flush h.flush

theorem Inside.after (h : Inside l limit bound base s) (outcome : Outcome place height s nodes t) :
    Inside l limit bound base t :=
  ⟨h.toAffords.after outcome.toRan,
    outcome.settled (by rw [h.mode]; exact l.isFlat_mode) h.settled,
    outcome.keeps.mode.trans h.mode⟩

/-- A piece of the contents has been read. -/
structure Piece (l : Literal) (limit bound base : Nat) (place : Place) (height : Nat) (s : State)
    (nodes : Forest) (t : State) : Prop where
  contents : Contents place height s nodes t
  inside : Inside l limit bound base t
  work_lt : t.scanner.work < s.scanner.work
  ne_nil : nodes ≠ []

theorem Inside.bump_content (h : Inside l limit bound base s) (hpos : 0 < height)
    (hcontent : l.isContent s.front = true) :
    Ensures s bump (Piece l limit bound base place height s) := by
  rw [h.front] at hcontent
  have hsolid := Literal.isSolid_of_isContent hcontent place
  refine (bump_flush_spec h.flush ((isSolid_iff _ _).1 hsolid).1 none).mono ?_
  rintro _ _ ⟨rfl, rfl⟩
  have bumped := bumped_taken h.wellFormed h.flush hsolid none
  have outcome := bumped.outcome hpos
  refine ⟨⟨outcome, ?_⟩, h.after outcome, bumped.work_lt, nofun⟩
  intro node hmem
  rw [List.mem_singleton.1 hmem]
  exact Literal.isPart_of_isContent hcontent

theorem Inside.interpolation (serves : Serves rules bound)
    (h : Inside l rules.limit (bound + 1) base s) (hlt : base < height + place.credit)
    (hpos : 0 < height) (hfront : s.front = .interpolationOpen) :
    Ensures s (interpolation rules) (Piece l rules.limit (bound + 1) base place height s) := by
  refine (interpolation_spec place serves h.toAffords hfront hlt hpos).mono ?_
  intro nodes t hinterpolated
  exact ⟨⟨hinterpolated.toOutcome, hinterpolated.parts h.flush⟩,
    h.after hinterpolated.toOutcome, hinterpolated.work_lt trivial, hinterpolated.ne_nil⟩

theorem Inside.ends (h : Inside l limit bound base s) (hcontent : l.isContent s.front = false)
    (hopens : s.front ≠ .interpolationOpen) : l.Ends s.front := by
  rw [h.front] at hcontent hopens ⊢
  rcases h.kind_cases with hkind | hkind | hkind
  · rw [hcontent] at hkind
    cases hkind
  · exact absurd hkind hopens
  · exact hkind

theorem Inside.bump_ending (h : Inside l limit bound base s) (hends : l.Ends s.front)
    (hne : s.front ≠ .endOfInput) : Ensures s bump (Ending l s) := by
  rw [h.front] at hends hne
  refine (bump_flush_spec h.flush hne none).mono ?_
  rintro _ _ ⟨rfl, rfl⟩
  rcases hends with hkind | hkind | hkind
  · exact .closed hkind
  · exact .reported hkind
  · exact absurd hkind hne

theorem Inside.silent (h : Inside l limit bound base s) (hend : s.front = .endOfInput) :
    Ending l s [] s :=
  .silent (h.front ▸ hend)

end Inside

/-! ## Literals -/

theorem Ending.keeps {l : Literal} {s t : State} {nodes : Forest} (ending : Ending l s nodes t) :
    Keeps s t := by
  cases ending <;> exact ⟨rfl, rfl, rfl, rfl⟩

theorem Ending.settled {l : Literal} {s t : State} {nodes : Forest} (ending : Ending l s nodes t)
    (mode : s.stream.mode = l.mode) (settled : s.scanner.Settled) : t.scanner.Settled := by
  have hflat : s.stream.mode.isFlat = true := by rw [mode]; exact l.isFlat_mode
  cases ending with
  | closed => exact settled.next hflat
  | reported => exact settled.next hflat
  | silent => exact settled

/-- The state after the token that opens a literal. -/
def State.opened (s : State) (l : Literal) : State :=
  s.taken.within l.mode s.stream.nesting s.stream.lineBound s.depth

/-- The contents and the end of a literal have been read, and its context has been left. -/
def Spelled (l : Literal) (place : Place) (height : Nat) (s : State) (contents ending : Forest)
    (u : State) : Prop :=
  ∃ t v, Contents place height (s.opened l) contents t ∧ Ending l t ending v ∧ u = v.leave s

section Literals

variable {l : Literal} {rules : Rules} {limit bound base height : Nat} {place : Place}
  {s t : State}

theorem Inside.opened (h : Affords limit (bound + 1) base s) (hkind : s.step.1.kind = l.opening) :
    Inside l limit (bound + 1) base (s.opened l) := by
  have hopens : s.step.1.kind.opensLiteral = true := by
    rw [hkind]
    cases l <;> rfl
  have hle : (s.opened l).scanner.work ≤ s.scanner.work :=
    Scanner.work_next_le h.wellFormed s.stream.mode
  refine ⟨⟨h.wellFormed.next s.stream.mode, Nat.lt_of_le_of_lt hle h.work_lt, h.reach_le⟩, ?_, rfl⟩
  exact (Scanner.step_next s.scanner s.stream.mode).settled_of_opens h.wellFormed hopens

/-- A literal of which all parts have been read. -/
theorem Spelled.reads {contents ending : Forest} {u : State}
    (spelled : Spelled l place.below height s contents ending u)
    (h : Affords limit (bound + 1) base s) (hkind : s.step.1.kind = l.opening) {outer : Nat}
    (hpos : 0 < height) (hle : height + 2 ≤ outer) (field : Option Field) {c : Prop} :
    Reads c place outer s [l.node field (.ofToken none s.step.1) contents ending u.stream.offset]
      u := by
  obtain ⟨t, v, hcontents, hending, rfl⟩ := spelled
  have inside := Inside.opened h hkind
  have hmode := hcontents.keeps.mode.trans inside.mode
  have hderives : Derives place outer s
      [l.node field (.ofToken none s.step.1) contents ending v.stream.offset] v :=
    .literal l field hkind hcontents.derives hcontents.parts hmode hending hpos hle
  have hlt : v.scanner.work < s.scanner.work := by
    have hne : s.step.1.kind ≠ .endOfInput := by
      rw [hkind]
      cases l <;> exact nofun
    have htaken : (s.opened l).scanner.work < s.scanner.work :=
      Scanner.work_next_lt h.wellFormed hne
    have hwf := (inside.after hcontents.toOutcome).wellFormed
    exact Nat.lt_of_le_of_lt (Nat.le_trans (hending.advances.work_le hwf) hcontents.work_le) htaken
  refine ⟨⟨⟨?_, ⟨rfl, rfl, rfl, ?_⟩, Nat.le_of_lt hlt⟩, ?_⟩, fun _ => hlt⟩
  · exact hderives.append (.within s.stream.mode s.stream.nesting s.stream.lineBound v.depth)
  · exact hending.keeps.depth.trans hcontents.keeps.depth
  · intro _ _
    exact hending.settled hmode (inside.after hcontents.toOutcome).settled

/-- The rest of a literal has been read: contents, and then its end. -/
def Finished (l : Literal) (place : Place) (height : Nat) (s : State) (nodes : Forest) (u : State) :
    Prop :=
  ∃ contents ending t, nodes = contents ++ ending ∧ Contents place height s contents t ∧
    Ending l t ending u

theorem Piece.finished {nodes more : Forest} {u : State}
    (piece : Piece l limit bound base place height s nodes t)
    (h : Finished l place height t more u) : Finished l place height s (nodes ++ more) u := by
  obtain ⟨contents, ending, v, rfl, hcontents, hending⟩ := h
  exact ⟨nodes ++ contents, ending, v, (List.append_assoc ..).symm,
    piece.contents.append hcontents, hending⟩

theorem Ending.finished {nodes : Forest} (h : Ending l s nodes t) :
    Finished l place height s nodes t :=
  ⟨[], nodes, s, rfl, .nil place height s, h⟩

/-- What a step on the contents of a string does. -/
theorem stringStep_spec {dialect : Dialect} (serves : Serves rules bound)
    (h : Inside (.string dialect) rules.limit (bound + 1) base s)
    (hlt : base < height + place.credit) (hpos : 0 < height) :
    Ensures s (stringStep rules ())
      (Steps (fun _ => Inside (.string dialect) rules.limit (bound + 1) base)
        (fun _ => Finished (.string dialect) place height) () s) := by
  unfold stringStep
  refine Ensures.peek ?_
  have hagain : ∀ nodes t, Piece (.string dialect) rules.limit (bound + 1) base place height s nodes t →
      Ensures t (again nodes) (Steps (fun _ => Inside (.string dialect) rules.limit (bound + 1) base)
        (fun _ => Finished (.string dialect) place height) () s) := by
    intro nodes t piece
    exact ⟨piece.inside, piece.work_lt, fun more u hmore => piece.finished hmore⟩
  split
  · next hfront => exact (h.bump_content hpos (by rw [hfront]; rfl)).bind hagain
  · next hfront => exact (h.bump_content hpos (by rw [hfront]; rfl)).bind hagain
  · next hfront => exact (h.interpolation serves hlt hpos hfront).bind hagain
  · next hfront =>
    have hends := h.ends (by rw [hfront]; rfl) (by rw [hfront]; exact nofun)
    exact (h.bump_ending hends (by rw [hfront]; exact nofun)).bind fun _ _ => Ending.finished
  · next hfront =>
    have hends := h.ends (by rw [hfront]; rfl) (by rw [hfront]; exact nofun)
    exact (h.bump_ending hends (by rw [hfront]; exact nofun)).bind fun _ _ => Ending.finished
  · next hcontent hescape hopens hcloses hfault =>
    have hends := h.ends (by simpa [Literal.isContent] using ⟨hcontent, hescape⟩) hopens
    rcases hends with hkind | hkind | hkind
    · exact absurd hkind (hcloses dialect)
    · exact absurd hkind (hfault _)
    · exact (h.silent hkind).finished

/-- The delimiters of a string and what stands between them. -/
theorem stringParts_spec {dialect : Dialect} (serves : Serves rules bound)
    (h : Affords rules.limit (bound + 1) base s) (flush : s.stream.Flush)
    (hkind : s.step.1.kind = .stringOpen dialect) (hlt : base < height + place.credit)
    (hpos : 0 < height) :
    Ensures s (stringParts rules dialect) fun nodes u => ∃ contents ending,
      nodes = .ofToken none s.step.1 :: contents ++ ending ∧
        Spelled (.string dialect) place height s contents ending u := by
  have inside : Inside (.string dialect) rules.limit (bound + 1) base (s.opened _) :=
    .opened h hkind
  have hne : s.step.1.kind ≠ .endOfInput := by
    rw [hkind]
    exact nofun
  unfold stringParts
  refine Ensures.get ((bump_flush_spec flush hne none).bind ?_)
  rintro _ _ ⟨rfl, rfl⟩
  refine Ensures.setMode ?_
  have hloop : Ensures (s.opened (.string dialect)) (loop (stringStep rules) rules.budget ())
      (Finished (.string dialect) place height (s.opened _)) :=
    loop_spec (I := fun _ => Inside (.string dialect) rules.limit (bound + 1) base)
      (fun _ t ht => stringStep_spec serves ht hlt hpos) inside (serves.work_lt inside.toAffords)
  refine hloop.bind ?_
  rintro _ v ⟨contents, ending, t, rfl, hcontents, hending⟩
  refine ⟨contents, ending, rfl, t, v, hcontents, hending, ?_⟩
  have hkeeps := hcontents.keeps.trans hending.keeps
  unfold State.leave
  rw [← show v.stream.nesting = s.stream.nesting from hkeeps.nesting,
    ← show v.stream.lineBound = s.stream.lineBound from hkeeps.lineBound]
  rfl

/-- The node of a format string has another one in it. -/
theorem stringBody_spec {dialect : Dialect} (serves : Serves rules bound)
    (h : Affords rules.limit (bound + 1) base s) (flush : s.stream.Flush)
    (hkind : s.step.1.kind = .stringOpen dialect) (hlt : base < height + place.credit)
    (hpos : 0 < height) :
    Ensures s
      (if dialect.isFormat then branch none .formatString (stringParts rules dialect)
      else stringParts rules dialect) fun nodes u => ∃ contents ending,
        nodes = (Literal.string dialect).children (.ofToken none s.step.1) contents ending
          u.stream.offset ∧ Spelled (.string dialect) place height s contents ending u := by
  have hparts := stringParts_spec serves h flush hkind hlt hpos
  split
  · next hformat =>
    unfold branch
    refine (trivia_spec h.wellFormed).bind ?_
    intro before t trimmed
    obtain ⟨rfl, rfl⟩ := trimmed.idle flush
    refine hparts.bind ?_
    rintro _ u ⟨contents, ending, rfl, hspelled⟩
    refine ⟨contents, ending, ?_, hspelled⟩
    simp only [Literal.children, hformat, if_true]
    rfl
  · next hformat =>
    refine hparts.mono ?_
    rintro _ u ⟨contents, ending, rfl, hspelled⟩
    refine ⟨contents, ending, ?_, hspelled⟩
    simp only [Literal.children, hformat, Bool.false_eq_true, if_false]

theorem string_spec (place : Place) {dialect : Dialect} (serves : Serves rules bound)
    (h : Affords rules.limit (bound + 1) base s) (hfront : s.front = .stringOpen dialect)
    (hcredit : base + 3 ≤ height + place.credit) (hheight : 3 ≤ height) (field : Option Field) :
    Ensures s (string rules field dialect) (Reads True place height s) := by
  unfold string branch
  refine (trivia_spec h.wellFormed).bind ?_
  intro before t trimmed
  have hbefore := trimmed.outcome place (Nat.lt_of_lt_of_le (by decide) hheight)
  have hafter := h.after hbefore.toRan
  have hkind := trimmed.step_kind.trans hfront
  have hlt : base < (height - 2) + place.below.credit := by
    rw [Place.credit_below]
    omega
  refine (stringBody_spec serves hafter trimmed.flush hkind hlt (by omega)).bind ?_
  rintro _ u ⟨contents, ending, rfl, hspelled⟩
  exact hbefore.append_reads (hspelled.reads hafter hkind (by omega) (by omega) field)

theorem stringOr_spec (place : Place) (serves : Serves rules bound)
    (h : Affords rules.limit (bound + 1) base s) (hcredit : base + 3 ≤ height + place.credit)
    (hheight : 3 ≤ height) (field : Option Field) (expected : Expected) :
    Ensures s (stringOr rules field expected) (Outcome place height s) := by
  unfold stringOr
  refine Ensures.peek ?_
  split
  · next hfront =>
    exact (string_spec place serves h hfront hcredit hheight field).mono fun _ _ h => h.toOutcome
  · exact missing_spec place s (by omega) field expected

/-! ### Commands -/

/-- The contents of a command have been read up to their end. -/
structure Gathered (l : Literal) (place : Place) (height : Nat) (s : State) (nodes : Forest)
    (t : State) : Prop extends Contents place height s nodes t where
  ends : l.Ends t.front
  idle : nodes = [] → t = s

theorem commandStep_spec {indented : Bool} (serves : Serves rules bound)
    (h : Inside (.command indented) rules.limit (bound + 1) base s)
    (hlt : base < height + place.credit) (hpos : 0 < height) :
    Ensures s (commandStep rules ())
      (Steps (fun _ => Inside (.command indented) rules.limit (bound + 1) base)
        (fun _ => Gathered (.command indented) place height) () s) := by
  unfold commandStep
  refine Ensures.peek ?_
  have hagain : ∀ nodes t,
      Piece (.command indented) rules.limit (bound + 1) base place height s nodes t →
      Ensures t (again nodes)
        (Steps (fun _ => Inside (.command indented) rules.limit (bound + 1) base)
          (fun _ => Gathered (.command indented) place height) () s) := by
    intro nodes t piece
    refine ⟨piece.inside, piece.work_lt, ?_⟩
    intro more u hmore
    exact ⟨piece.contents.append hmore.toContents, hmore.ends,
      fun hnil => absurd (List.append_eq_nil_iff.1 hnil).1 piece.ne_nil⟩
  split
  · next hfront => exact (h.bump_content hpos (by rw [hfront]; rfl)).bind hagain
  · next hfront => exact (h.interpolation serves hlt hpos hfront).bind hagain
  · next hcontent hopens =>
    have hends := h.ends (by simpa [Literal.isContent] using hcontent) hopens
    exact ⟨.nil place height s, hends, fun _ => rfl⟩

/-- The contents of a command have a node of their own, if there are any. -/
theorem commandBody_spec {indented : Bool} (serves : Serves rules bound)
    (h : Inside (.command indented) rules.limit (bound + 1) base s)
    (hlt : base < height + place.credit) (hpos : 0 < height) :
    Ensures s (commandBody rules) fun nodes t => ∃ contents,
      Gathered (.command indented) place height s contents t ∧
        nodes = if contents.isEmpty then [] else
          [.branch none .commandBody contents t.stream.offset] := by
  have hloop : Ensures s (loop (commandStep rules) rules.budget ())
      (Gathered (.command indented) place height s) :=
    loop_spec (I := fun _ => Inside (.command indented) rules.limit (bound + 1) base)
      (fun _ t ht => commandStep_spec serves ht hlt hpos) h (serves.work_lt h.toAffords)
  have hbranch : s.front = .commandContent ∨ s.front = .interpolationOpen →
      Ensures s (branch none .commandBody (loop (commandStep rules) rules.budget ()))
        fun nodes t => ∃ contents, Gathered (.command indented) place height s contents t ∧
          nodes = if contents.isEmpty then [] else
            [.branch none .commandBody contents t.stream.offset] := by
    intro hfront
    unfold branch
    refine (trivia_spec h.wellFormed).bind ?_
    intro before t trimmed
    obtain ⟨rfl, rfl⟩ := trimmed.idle h.flush
    refine hloop.bind ?_
    intro contents u gathered
    refine ⟨contents, gathered, ?_⟩
    -- The contents are not empty: otherwise their end would stand where they start.
    have hne : contents.isEmpty = false := by
      cases contents with
      | cons node rest => rfl
      | nil =>
        have hends := gathered.ends
        rw [gathered.idle rfl] at hends
        rcases hfront with hfront | hfront
        · rw [hfront] at hends
          rcases hends with hkind | hkind | hkind <;> cases hkind
        · exact absurd hfront hends.ne_interpolationOpen
    rw [hne]
    rfl
  unfold commandBody
  refine Ensures.peek ?_
  split
  · next hfront => exact hbranch (.inl hfront)
  · next hfront => exact hbranch (.inr hfront)
  · next hcontent hopens =>
    have hends := h.ends (by simpa [Literal.isContent] using hcontent) hopens
    exact ⟨[], ⟨.nil place height s, hends, fun _ => rfl⟩, rfl⟩

theorem commandEnd_spec {indented : Bool} (h : Inside (.command indented) limit bound base s)
    (hends : (Literal.command indented).Ends s.front) :
    Ensures s commandEnd (Ending (.command indented) s) := by
  unfold commandEnd
  refine Ensures.peek ?_
  split
  · next hfront => exact h.bump_ending hends (by rw [hfront]; exact nofun)
  · next hfront => exact h.bump_ending hends (by rw [hfront]; exact nofun)
  · next hcloses hfault =>
    rcases hends with hkind | hkind | hkind
    · exact absurd hkind (hcloses indented)
    · exact absurd hkind (hfault _)
    · exact h.silent hkind

theorem branch_eq_of_ne_nil {children : Forest} (h : children ≠ []) (field : Option Field)
    (kind : Node.Kind) (first second : Nat) :
    Node.branch field kind children first = .branch field kind children second := by
  cases children with
  | nil => exact absurd rfl h
  | cons node rest => simp [Node.branch, Node.spanOf, List.getLast?_cons]

/-- The delimiters of a command and what stands between them. -/
theorem commandParts_spec {indented : Bool} (serves : Serves rules bound)
    (h : Affords rules.limit (bound + 1) base s) (flush : s.stream.Flush)
    (hkind : s.step.1.kind = .commandOpen indented) (hlt : base < height + place.credit)
    (hpos : 0 < height) {outer : Mode} (houter : outer = s.stream.mode) :
    Ensures s (do
      let opened ← bump
      setMode (.commandContent indented)
      let contents ← commandBody rules
      let closed ← commandEnd
      setMode outer
      return opened ++ contents ++ closed) fun nodes u => ∃ contents ending,
        nodes = (Literal.command indented).children (.ofToken none s.step.1) contents ending
          u.stream.offset ∧ Spelled (.command indented) place height s contents ending u := by
  subst houter
  have inside : Inside (.command indented) rules.limit (bound + 1) base (s.opened _) :=
    .opened h hkind
  have hne : s.step.1.kind ≠ .endOfInput := by
    rw [hkind]
    exact nofun
  refine (bump_flush_spec flush hne none).bind ?_
  rintro _ _ ⟨rfl, rfl⟩
  refine Ensures.setMode ((commandBody_spec serves inside hlt hpos).bind ?_)
  rintro _ t ⟨contents, gathered, rfl⟩
  refine (commandEnd_spec (inside.after gathered.toOutcome) gathered.ends).bind ?_
  intro ending v hending
  refine Ensures.setMode (Ensures.pure ⟨contents, ending, ?_, t, v, gathered.toContents, hending, ?_⟩)
  · cases contents with
    | nil => rfl
    | cons node rest =>
      simp only [Literal.children, List.isEmpty_cons, Bool.false_eq_true, if_false]
      rw [branch_eq_of_ne_nil (List.cons_ne_nil node rest)]
      rfl
  · have hkeeps := gathered.keeps.trans hending.keeps
    unfold State.leave
    rw [← show v.stream.nesting = s.stream.nesting from hkeeps.nesting,
      ← show v.stream.lineBound = s.stream.lineBound from hkeeps.lineBound]

theorem command_spec (place : Place) {indented : Bool} (serves : Serves rules bound)
    (h : Affords rules.limit (bound + 1) base s) (hfront : s.front = .commandOpen indented)
    (hcredit : base + 3 ≤ height + place.credit) (hheight : 3 ≤ height) (field : Option Field) :
    Ensures s (command rules field indented) (Reads True place height s) := by
  unfold command branch
  refine Ensures.get ((trivia_spec h.wellFormed).bind ?_)
  intro before t trimmed
  have hbefore := trimmed.outcome place (Nat.lt_of_lt_of_le (by decide) hheight)
  have hafter := h.after hbefore.toRan
  have hkind := trimmed.step_kind.trans hfront
  have hlt : base < (height - 2) + place.below.credit := by
    rw [Place.credit_below]
    omega
  refine (commandParts_spec serves hafter trimmed.flush hkind hlt (by omega)
    hbefore.keeps.mode.symm).bind ?_
  rintro _ u ⟨contents, ending, rfl, hspelled⟩
  exact hbefore.append_reads (hspelled.reads hafter hkind (by omega) (by omega) field)

end Literals

end Justfile.Grammar
