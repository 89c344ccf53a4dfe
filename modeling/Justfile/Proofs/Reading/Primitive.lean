import Justfile.Proofs.Reading.Derivation

/-!
# Primitives of productions

What the primitives of the grammar do, as derivations. `Ensures s p Q` says that running `p` from
`s` gives a result and a state with `Q`; specifications of productions are chained with
`Ensures.bind`. Most productions have an `Outcome`: a derivation that leaves the context as it found
it.

A production is entered with an `Entry`: a well-formed scanner outside the contents of a literal,
with a bound on the work ahead. The bound is what the budgets of loops are compared with
(`loop_spec`), and consuming a token lowers it (`Entry.lower`).
-/

set_option autoImplicit false

namespace Justfile.Grammar

/-! ## Running productions -/

section Ensures

variable {α β : Type}

/-- Running a production from a state ends as `Q` says. -/
def Ensures (s : State) (p : Parse α) (Q : α → State → Prop) : Prop := Q (p s).1 (p s).2

theorem Ensures.pure {s : State} {a : α} {Q : α → State → Prop} (h : Q a s) :
    Ensures s (pure a) Q := h

theorem Ensures.bind {s : State} {p : Parse α} {f : α → Parse β} {P : α → State → Prop}
    {Q : β → State → Prop} (hp : Ensures s p P) (hf : ∀ a t, P a t → Ensures t (f a) Q) :
    Ensures s (p >>= f) Q :=
  hf _ _ hp

theorem Ensures.mono {s : State} {p : Parse α} {P Q : α → State → Prop} (hp : Ensures s p P)
    (h : ∀ a t, P a t → Q a t) : Ensures s p Q :=
  h _ _ hp

/-- Two branches that go on in the same way. -/
theorem Ensures.join {s : State} {c : Prop} [Decidable c] {p q : Parse α} {f : α → Parse β}
    {P : α → State → Prop} {Q : β → State → Prop} (hp : c → Ensures s p P)
    (hq : ¬c → Ensures s q P) (hf : ∀ a t, P a t → Ensures t (f a) Q) :
    Ensures s (if c then p >>= f else q >>= f) Q := by
  split
  · next h => exact (hp h).bind hf
  · next h => exact (hq h).bind hf

/-! Looking changes nothing: what follows is run from the same state. Changes of context are known
in advance. -/

variable {s : State} {Q : β → State → Prop}

theorem Ensures.get {f : State → Parse β} (h : Ensures s (f s) Q) : Ensures s (get >>= f) Q := h

theorem Ensures.peek {f : Token.Kind → Parse β} (h : Ensures s (f s.front) Q) :
    Ensures s (peek >>= f) Q := h

theorem Ensures.peekToken {n : Nat} {f : Token → Parse β} (h : Ensures s (f (s.stream.nth n)) Q) :
    Ensures s (peekToken n >>= f) Q := h

theorem Ensures.peekAt {n : Nat} {f : Token.Kind → Parse β}
    (h : Ensures s (f (s.stream.nth n).kind) Q) : Ensures s (peekAt n >>= f) Q := h

theorem Ensures.offset {f : Nat → Parse β} (h : Ensures s (f s.stream.offset) Q) :
    Ensures s (offset >>= f) Q := h

theorem Ensures.modify {change : State → State} {f : PUnit → Parse β}
    (h : Ensures (change s) (f ⟨⟩) Q) : Ensures s (modify change >>= f) Q := h

theorem Ensures.setMode {mode : Mode} {f : Unit → Parse β}
    (h : Ensures (s.within mode s.stream.nesting s.stream.lineBound s.depth) (f ()) Q) :
    Ensures s (setMode mode >>= f) Q := h

theorem Ensures.onStream {change : Stream → Stream} {f : Unit → Parse β}
    (h : Ensures { s with stream := change s.stream } (f ()) Q) :
    Ensures s (onStream change >>= f) Q := h

/-- A production that branches on the kind of the next token. -/
theorem Ensures.isAt {kind : Token.Kind} {f : Bool → Parse β}
    (hat : s.front = kind → Ensures s (f true) Q) (hnot : s.front ≠ kind → Ensures s (f false) Q) :
    Ensures s (isAt kind >>= f) Q := by
  change Ensures s (f (s.front == kind)) Q
  cases heq : s.front == kind with
  | true => exact hat (beq_iff_eq.1 heq)
  | false => exact hnot (beq_eq_false_iff_ne.1 heq)

/-- A production that branches on the kind of the next token, and goes on in the same way. -/
theorem Ensures.isAt_join {kind : Token.Kind} {p q : Parse α} {f : α → Parse β}
    {P : α → State → Prop} (hat : s.front = kind → Ensures s p P)
    (hnot : s.front ≠ kind → Ensures s q P) (hf : ∀ a t, P a t → Ensures t (f a) Q) :
    Ensures s (Grammar.isAt kind >>= fun answer => if answer = true then p >>= f else q >>= f) Q :=
  .isAt (fun h => (hat h).bind hf) fun h => (hnot h).bind hf

theorem Ensures.isAtMark {sign : Mark} {f : Bool → Parse β}
    (hat : s.front = .mark sign → Ensures s (f true) Q)
    (hnot : s.front ≠ .mark sign → Ensures s (f false) Q) : Ensures s (isAtMark sign >>= f) Q :=
  .isAt hat hnot

theorem Ensures.isKeywordAt {n : Nat} {word : Keyword} {f : Bool → Parse β}
    (hat : (s.stream.nth n).kind = .identifier → Ensures s (f true) Q)
    (hnot : Ensures s (f false) Q) : Ensures s (isKeywordAt n word >>= f) Q := by
  rw [Grammar.isKeywordAt, bind_assoc]
  refine Ensures.peekToken ?_
  rw [pure_bind]
  cases heq : (s.stream.nth n).kind == .identifier && (s.stream.nth n).text == word.spelling with
  | true => exact hat (beq_iff_eq.1 (Bool.and_eq_true_iff.1 heq).1)
  | false => exact hnot

theorem endsLine_eq_false {kind : Token.Kind} (hnewline : kind ≠ .newline)
    (hend : kind ≠ .endOfInput) (hdedent : kind ≠ .dedent) : endsLine kind = false := by
  unfold endsLine
  split <;> first | contradiction | rfl

theorem Ensures.isAtLineEnd {f : Bool → Parse β}
    (hat : endsLine s.front = true → Ensures s (f true) Q)
    (hnot : endsLine s.front = false → Ensures s (f false) Q) :
    Ensures s (isAtLineEnd >>= f) Q := by
  change Ensures s (f (endsLine s.front)) Q
  cases heq : endsLine s.front with
  | true => exact hat heq
  | false => exact hnot heq

end Ensures

/-! ## Outcomes -/

/-- The context is the same in both states. -/
structure Keeps (s t : State) : Prop where
  mode : t.stream.mode = s.stream.mode
  nesting : t.stream.nesting = s.stream.nesting
  lineBound : t.stream.lineBound = s.stream.lineBound
  depth : t.depth = s.depth

theorem Keeps.refl (s : State) : Keeps s s := ⟨rfl, rfl, rfl, rfl⟩

theorem Keeps.trans {s t u : State} (first : Keeps s t) (second : Keeps t u) : Keeps s u :=
  ⟨second.mode.trans first.mode, second.nesting.trans first.nesting,
    second.lineBound.trans first.lineBound, second.depth.trans first.depth⟩

/-- A derivation that leaves the context as it found it. -/
structure Ran (place : Place) (height : Nat) (s : State) (nodes : Forest) (t : State) : Prop where
  derives : Derives place height s nodes t
  keeps : Keeps s t
  work_le : t.scanner.work ≤ s.scanner.work

/-- A derivation that leaves the context as it found it, and a settled scanner settled unless levels
are read. -/
structure Outcome (place : Place) (height : Nat) (s : State) (nodes : Forest) (t : State) : Prop
    extends Ran place height s nodes t where
  settled : s.stream.mode.isFlat = true → s.scanner.Settled → t.scanner.Settled

/-- An outcome that consumes something if the condition holds. -/
structure Reads (c : Prop) (place : Place) (height : Nat) (s : State) (nodes : Forest) (t : State) :
    Prop extends Outcome place height s nodes t where
  work_lt : c → t.scanner.work < s.scanner.work

section Outcome

variable {c : Prop} {place : Place} {height : Nat} {s t u : State} {front back : Forest}

theorem Ran.append (first : Ran place height s front t) (second : Ran place height t back u) :
    Ran place height s (front ++ back) u :=
  ⟨first.derives.append second.derives, first.keeps.trans second.keeps,
    Nat.le_trans second.work_le first.work_le⟩

theorem Ran.mono {high : Nat} (h : Ran place height s front t) (hle : height ≤ high) :
    Ran place high s front t :=
  ⟨h.derives.mono hle, h.keeps, h.work_le⟩

theorem Outcome.nil (place : Place) (height : Nat) (s : State) : Outcome place height s [] s :=
  ⟨⟨.nil, .refl s, Nat.le_refl _⟩, fun _ settled => settled⟩

theorem Outcome.append (first : Outcome place height s front t)
    (second : Outcome place height t back u) : Outcome place height s (front ++ back) u := by
  refine ⟨first.toRan.append second.toRan, ?_⟩
  intro hflat settled
  exact second.settled (first.keeps.mode ▸ hflat) (first.settled hflat settled)

theorem Outcome.mono {high : Nat} (h : Outcome place height s front t) (hle : height ≤ high) :
    Outcome place high s front t :=
  ⟨h.toRan.mono hle, h.settled⟩

theorem Outcome.reads (h : Outcome place height s front t) (hc : ¬c) :
    Reads c place height s front t :=
  ⟨h, fun holds => absurd holds hc⟩

theorem Reads.append (first : Reads c place height s front t)
    (second : Outcome place height t back u) : Reads c place height s (front ++ back) u :=
  ⟨first.toOutcome.append second, fun holds =>
    Nat.lt_of_le_of_lt second.work_le (first.work_lt holds)⟩

theorem Outcome.append_reads (first : Outcome place height s front t)
    (second : Reads c place height t back u) : Reads c place height s (front ++ back) u :=
  ⟨first.append second.toOutcome, fun holds =>
    Nat.lt_of_lt_of_le (second.work_lt holds) first.work_le⟩

theorem Reads.mono {high : Nat} (h : Reads c place height s front t) (hle : height ≤ high) :
    Reads c place high s front t :=
  ⟨h.toOutcome.mono hle, h.work_lt⟩

theorem Reads.imp {d : Prop} (h : Reads c place height s front t) (hdc : d → c) :
    Reads d place height s front t :=
  ⟨h.toOutcome, fun holds => h.work_lt (hdc holds)⟩

/-- What always consumes something does so under any condition. -/
theorem Ensures.always {p : Parse Forest} (h : Ensures s p (Reads True place height s)) :
    Ensures s p (Reads c place height s) :=
  h.mono fun _ _ reads => reads.imp fun _ => trivial

theorem Ensures.toOutcome {p : Parse Forest} (h : Ensures s p (Reads c place height s)) :
    Ensures s p (Outcome place height s) :=
  h.mono fun _ _ reads => reads.toOutcome

end Outcome

/-! ## Entries -/

/-- The height of an expression in which so many others can be nested. -/
def reach : Nat → Nat
  | 0 => 4
  | room + 1 => reach room + 4 * room + 12

theorem reach_mono {low high : Nat} (h : low ≤ high) : reach low ≤ reach high := by
  induction h with
  | refl => exact Nat.le_refl _
  | step _ ih =>
    simp only [reach]
    omega

theorem four_le_reach (room : Nat) : 4 ≤ reach room := reach_mono (Nat.zero_le room)

/-- What a production can count on, whatever the mode: a well-formed scanner with less work ahead
than the bound, and room for expressions of the given height. -/
structure Affords (limit bound base : Nat) (s : State) : Prop where
  wellFormed : s.scanner.WellFormed
  work_lt : s.scanner.work < bound
  reach_le : reach (limit - s.depth) ≤ base

/-- A state in which a production can be entered: it is not inside the contents of a literal. -/
structure Entry (limit bound base : Nat) (s : State) : Prop extends Affords limit bound base s where
  outer : s.stream.mode.fault? = none

section Entry

variable {limit bound base height : Nat} {place : Place} {s t : State} {nodes : Forest}

theorem Affords.four_le (h : Affords limit bound base s) : 4 ≤ base :=
  Nat.le_trans (four_le_reach _) h.reach_le

theorem Affords.after (h : Affords limit bound base s) (ran : Ran place height s nodes t) :
    Affords limit bound base t :=
  ⟨ran.derives.advances.wellFormed h.wellFormed, Nat.lt_of_le_of_lt ran.work_le h.work_lt,
    ran.keeps.depth ▸ h.reach_le⟩

/-- Once something is consumed, the bound can be lowered. -/
theorem Affords.lower (h : Affords limit (bound + 1) base s) (ran : Ran place height s nodes t)
    (hlt : t.scanner.work < s.scanner.work) : Affords limit bound base t :=
  { h.after ran with work_lt := Nat.lt_of_lt_of_le hlt (Nat.le_of_lt_succ h.work_lt) }

theorem Affords.weaken (h : Affords limit bound base s) : Affords limit (bound + 1) base s :=
  { h with work_lt := Nat.lt_succ_of_lt h.work_lt }

theorem Entry.after (entry : Entry limit bound base s) (ran : Ran place height s nodes t) :
    Entry limit bound base t :=
  ⟨entry.toAffords.after ran, ran.keeps.mode ▸ entry.outer⟩

theorem Entry.lower (entry : Entry limit (bound + 1) base s) (ran : Ran place height s nodes t)
    (hlt : t.scanner.work < s.scanner.work) : Entry limit bound base t :=
  ⟨entry.toAffords.lower ran hlt, ran.keeps.mode ▸ entry.outer⟩

theorem Entry.weaken (entry : Entry limit bound base s) : Entry limit (bound + 1) base s :=
  ⟨entry.toAffords.weaken, entry.outer⟩

end Entry

/-! ## Trivia -/

/-- The state after the trivia in front of the next significant token. -/
def State.flushed (s : State) : State :=
  { s with
    stream := s.stream.flushed
    consumed := s.stream.takeTrivia.1.reverse ++ s.consumed }

theorem trivia_eq (s : State) :
    trivia s = (s.stream.takeTrivia.1.map (.ofToken none), s.flushed) := rfl

/-- Tokens of trivia are taken one by one. -/
theorem derives_run {mode : Mode} {scanner last : Scanner} {tokens : List Token}
    (run : Scanner.Run mode scanner tokens last) {place : Place} {height : Nat}
    (hpos : 0 < height) (s : State) (hscanner : s.scanner = scanner)
    (hmode : s.stream.mode = mode)
    (htrivia : ∀ token ∈ tokens, s.stream.isTrivia token.kind = true) :
    Derives place height s (tokens.map (.ofToken none))
      { s with
        stream := { s.stream with scanner := last }, consumed := tokens.reverse ++ s.consumed } := by
  induction run generalizing s with
  | nil scanner =>
    subst hscanner
    exact .nil
  | @cons scanner last tokens run ih =>
    subst hscanner hmode
    have hfirst := htrivia s.step.1 List.mem_cons_self
    have hkind : s.step.1.kind ≠ .endOfInput := by
      intro heq
      rw [heq] at hfirst
      cases hfirst
    -- Trivia is no fault, so that consuming it reports nothing.
    have hreports : s.taken.reports = s.reports := by
      unfold State.taken State.take
      dsimp only
      split
      · next heq =>
        rw [heq] at hfirst
        cases hfirst
      · rfl
    have hnumber : s.step.1.kind = .number → place = .error := by
      intro heq
      rw [heq] at hfirst
      cases hfirst
    have htoken : Derives place height s [.ofToken none s.step.1] s.taken :=
      .token none hkind (Stream.flag?_of_isTrivia hfirst) hnumber hpos
    have hmore := ih s.taken rfl rfl fun token hmem => htrivia token (List.mem_cons_of_mem _ hmem)
    have hall := htoken.append hmore
    rw [hreports] at hall
    rw [List.reverse_cons, List.append_assoc]
    exact hall

/-- Trivia has been taken: nothing is to be skipped, and looks see what they saw before. -/
structure Trimmed (s : State) (nodes : Forest) (t : State) : Prop where
  outcome : ∀ (place : Place) {height : Nat}, 0 < height → Outcome place height s nodes t
  flush : t.stream.Flush
  nth : ∀ n, t.stream.nth n = s.stream.nth n
  idle : s.stream.Flush → nodes = [] ∧ t = s

theorem Trimmed.front {s t : State} {nodes : Forest} (h : Trimmed s nodes t) :
    t.front = s.front := by
  unfold State.front
  rw [h.nth]

theorem flushed_of_flush {s : State} (flush : s.stream.Flush) :
    s.stream.takeTrivia.1 = [] ∧ s.flushed = s := by
  have hstream : s.stream.flushed = s.stream := Stream.flushed_of_flush flush
  have htrivia : s.stream.takeTrivia.1 = [] := by rw [Stream.takeTrivia_of_flush flush]
  refine ⟨htrivia, ?_⟩
  unfold State.flushed
  rw [hstream, htrivia]
  rfl

theorem trimmed_flushed {s : State} (wf : s.scanner.WellFormed) :
    Trimmed s (s.stream.takeTrivia.1.map (.ofToken none)) s.flushed := by
  obtain ⟨hrun, htrivia, hflush⟩ := Stream.takeTrivia_spec wf
  refine ⟨?_, hflush, Stream.nth_flushed wf, ?_⟩
  · intro place height hpos
    refine ⟨⟨derives_run hrun hpos s rfl rfl htrivia, ⟨rfl, rfl, rfl, rfl⟩,
      (hrun.wellFormed wf).2⟩, ?_⟩
    intro hflat settled
    exact hrun.settled hflat settled
  · intro flush
    obtain ⟨hnone, hsame⟩ := flushed_of_flush flush
    exact ⟨by rw [hnone]; rfl, hsame⟩

theorem trivia_spec {s : State} (wf : s.scanner.WellFormed) : Ensures s trivia (Trimmed s) :=
  trimmed_flushed wf

theorem front_of_flush {s : State} (flush : s.stream.Flush) : s.front = s.step.1.kind := by
  unfold State.front
  rw [Stream.nth_zero_of_flush flush]

/-! ## Tokens -/

theorem accept_eq (field : Option Field) (token : Token) (s : State) :
    accept field token s = ([.ofToken field token], s.take token s.scanner) := by
  unfold accept State.take
  cases token.kind <;> rfl

/-- Nothing is consumed at the end of the input. -/
theorem bumpAs_end {s : State} (hend : s.front = .endOfInput) (field : Option Field)
    (kind : Option Token.Kind) : bumpAs field kind s = ([], s) := by
  have hkind : s.stream.bump.2.1.kind = .endOfInput := hend
  change (if s.stream.bump.2.1.kind = .endOfInput then (pure [] : Parse Forest) else _) s = _
  rw [if_pos hkind]
  rfl

/-- Consuming a token is taking the trivia in front of it and then the token. -/
theorem bumpAs_eq (field : Option Field) (kind : Option Token.Kind) (s : State)
    (hfront : s.front ≠ .endOfInput) :
    bumpAs field kind s =
      (s.stream.takeTrivia.1.map (.ofToken none) ++
        [.ofToken field { s.flushed.step.1 with kind := kind.getD s.flushed.step.1.kind }],
      s.flushed.take { s.flushed.step.1 with kind := kind.getD s.flushed.step.1.kind }
        s.flushed.step.2) := by
  have hkind : s.stream.flushed.step.1.kind ≠ .endOfInput := hfront
  have hbump := Stream.bump_eq s.stream hkind
  have hrun : bumpAs field kind s =
      (s.stream.bump.1.map (.ofToken none) ++
        (accept field { s.stream.bump.2.1 with kind := kind.getD s.stream.bump.2.1.kind }
          { s with
            stream := s.stream.bump.2.2, consumed := s.stream.bump.1.reverse ++ s.consumed }).1,
      (accept field { s.stream.bump.2.1 with kind := kind.getD s.stream.bump.2.1.kind }
        { s with
          stream := s.stream.bump.2.2, consumed := s.stream.bump.1.reverse ++ s.consumed }).2) := by
    have hne : ¬s.stream.bump.2.1.kind = .endOfInput := by
      rw [hbump]
      exact hkind
    change (if s.stream.bump.2.1.kind = .endOfInput then (pure [] : Parse Forest) else _) s = _
    rw [if_neg hne]
    rfl
  rw [hrun, accept_eq, hbump]
  rfl

/-- A token has been consumed: the next look sees what a look behind it saw. -/
structure Bumped (place : Place) (s : State) (nodes : Forest) (t : State) : Prop where
  outcome : ∀ {height : Nat}, 0 < height → Outcome place height s nodes t
  work_lt : t.scanner.work < s.scanner.work
  nth : ∀ n, t.stream.nth n = s.stream.nth (n + 1)
  ne_nil : nodes ≠ []

theorem Bumped.reads {place : Place} {s t : State} {nodes : Forest} (h : Bumped place s nodes t)
    {height : Nat} (hpos : 0 < height) {c : Prop} : Reads c place height s nodes t :=
  ⟨h.outcome hpos, fun _ => h.work_lt⟩

theorem Bumped.front {place : Place} {s t : State} {nodes : Forest} (h : Bumped place s nodes t) :
    t.front = (s.stream.nth 1).kind := by
  unfold State.front
  rw [h.nth]

theorem Entry.bumped {limit bound base : Nat} {place : Place} {s t : State} {nodes : Forest}
    (entry : Entry limit (bound + 1) base s) (h : Bumped place s nodes t) :
    Entry limit bound base t :=
  entry.lower (h.outcome Nat.one_pos).toRan h.work_lt

/-- The kinds of tokens that are consumed on their own: neither the end of the input nor what opens
or ends a literal, and numbers in error nodes only. -/
def isSolid (place : Place) (kind : Token.Kind) : Bool :=
  kind != .endOfInput && kind.flag? == none && (kind != .number || place == .error)

theorem isSolid_iff (place : Place) (kind : Token.Kind) :
    isSolid place kind = true ↔
      kind ≠ .endOfInput ∧ kind.flag? = none ∧ (kind = .number → place = .error) := by
  simp [isSolid, and_assoc, Classical.or_iff_not_imp_left]

/-- Outside the contents of literals only their opening tokens touch the flag. -/
theorem flag?_of_outer {s : State} (wf : s.scanner.WellFormed) (outer : s.stream.mode.fault? = none)
    (hopens : s.step.1.kind.opensLiteral = false) : s.step.1.kind.flag? = none := by
  have htrue := (Scanner.step_next s.scanner s.stream.mode).flag?_ne_true wf outer
  have hfalse : s.step.1.kind.flag? ≠ some false := by
    intro hflag
    rw [Token.Kind.flag?_eq_false_iff, hopens] at hflag
    cases hflag
  cases hflag : s.step.1.kind.flag? with
  | none => rfl
  | some flag =>
    cases flag with
    | false => exact absurd hflag hfalse
    | true => exact absurd hflag htrue

/-- The looks after a token has been taken. -/
theorem nth_take {s : State} (flush : s.stream.Flush) (hkind : s.step.1.kind ≠ .endOfInput)
    (token : Token) (n : Nat) : (s.take token s.step.2).stream.nth n = s.stream.nth (n + 1) := by
  have hnth : s.stream.nth (n + 1) =
      if (s.stream.ahead s.scanner).token.kind = .endOfInput then (s.stream.ahead s.scanner).token
      else s.stream.nthFrom n (s.stream.ahead s.scanner).after := rfl
  rw [hnth, Stream.ahead_of_flush flush, if_neg hkind]
  exact Stream.nthFrom_withScanner s.stream s.step.2 n s.step.2

/-- A token that is taken in front of nothing to skip. -/
theorem bumped_taken {place : Place} {s : State} (wf : s.scanner.WellFormed)
    (flush : s.stream.Flush) (hsolid : isSolid place s.step.1.kind = true) (field : Option Field) :
    Bumped place s [.ofToken field s.step.1] s.taken := by
  obtain ⟨hkind, hflag, hnumber⟩ := (isSolid_iff _ _).1 hsolid
  have hlt := Scanner.work_next_lt wf hkind
  refine ⟨?_, hlt, nth_take flush hkind _, nofun⟩
  intro height hpos
  refine ⟨⟨.token field hkind hflag hnumber hpos, ⟨rfl, rfl, rfl, rfl⟩, Nat.le_of_lt hlt⟩, ?_⟩
  intro hflat settled
  exact settled.next hflat

/-- An identifier that is taken as a keyword. -/
theorem bumped_keyword (place : Place) {s : State} (wf : s.scanner.WellFormed)
    (flush : s.stream.Flush) (hkind : s.step.1.kind = .identifier) (field : Option Field)
    (word : Keyword) :
    Bumped place s [.ofToken field { s.step.1 with kind := .keyword word }]
      (s.take { s.step.1 with kind := .keyword word } s.step.2) := by
  have hne : s.step.1.kind ≠ .endOfInput := by
    rw [hkind]
    exact nofun
  have hlt := Scanner.work_next_lt wf hne
  refine ⟨?_, hlt, nth_take flush hne _, nofun⟩
  intro height hpos
  refine ⟨⟨.keyword field word hkind hpos, ⟨rfl, rfl, rfl, rfl⟩, Nat.le_of_lt hlt⟩, ?_⟩
  intro hflat settled
  exact settled.next hflat

/-- Trivia in front of a token is consumed with it. -/
theorem Bumped.of_trimmed {place : Place} {s t u : State} {before nodes : Forest}
    (trimmed : Trimmed s before t) (bumped : Bumped place t nodes u) :
    Bumped place s (before ++ nodes) u := by
  refine ⟨?_, ?_, ?_, List.append_ne_nil_of_right_ne_nil _ bumped.ne_nil⟩
  · intro height hpos
    exact (trimmed.outcome place hpos).append (bumped.outcome hpos)
  · exact Nat.lt_of_lt_of_le bumped.work_lt (trimmed.outcome place Nat.one_pos).work_le
  · intro n
    rw [bumped.nth, trimmed.nth]

theorem Trimmed.step_kind {s t : State} {nodes : Forest} (h : Trimmed s nodes t) :
    t.step.1.kind = s.front := by
  rw [← front_of_flush h.flush, h.front]

theorem Trimmed.wellFormed {s t : State} {nodes : Forest} (h : Trimmed s nodes t)
    (wf : s.scanner.WellFormed) : t.scanner.WellFormed :=
  (h.outcome .outside Nat.one_pos).derives.advances.wellFormed wf

theorem bump_spec (place : Place) {s : State} (wf : s.scanner.WellFormed) {kind : Token.Kind}
    (hfront : s.front = kind) (hsolid : isSolid place kind = true) (field : Option Field) :
    Ensures s (bump field) (Bumped place s) := by
  subst hfront
  have trimmed := trimmed_flushed wf
  have hstep := trimmed.step_kind
  have bumped := bumped_taken (trimmed.wellFormed wf) trimmed.flush (hstep ▸ hsolid) field
  unfold Ensures bump
  rw [bumpAs_eq field none s ((isSolid_iff _ _).1 hsolid).1]
  exact bumped.of_trimmed trimmed

theorem bumpKeyword_spec (place : Place) {s : State} (wf : s.scanner.WellFormed)
    (hfront : s.front = .identifier) (word : Keyword) :
    Ensures s (bumpKeyword word) (Bumped place s) := by
  have trimmed := trimmed_flushed wf
  have hstep : s.flushed.step.1.kind = .identifier := by rw [trimmed.step_kind, hfront]
  have bumped := bumped_keyword place (trimmed.wellFormed wf) trimmed.flush hstep none word
  have hne : s.front ≠ .endOfInput := by
    rw [hfront]
    exact nofun
  unfold Ensures bumpKeyword
  rw [bumpAs_eq none _ s hne]
  exact bumped.of_trimmed trimmed

/-- In front of nothing to skip, exactly one token is consumed. -/
theorem bump_flush_spec {s : State} (flush : s.stream.Flush) (hkind : s.step.1.kind ≠ .endOfInput)
    (field : Option Field) :
    Ensures s (bump field) fun nodes t => nodes = [.ofToken field s.step.1] ∧ t = s.taken := by
  obtain ⟨htrivia, hflushed⟩ := flushed_of_flush flush
  have hfront : s.front ≠ .endOfInput := by
    rw [front_of_flush flush]
    exact hkind
  unfold Ensures bump
  rw [bumpAs_eq field none s hfront, hflushed, htrivia]
  exact ⟨rfl, rfl⟩

end Justfile.Grammar
