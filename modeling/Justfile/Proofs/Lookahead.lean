import Justfile.Proofs.Scanner.Scan
import Justfile.Proofs.Stream
import Justfile.Token.Buffer

/-!
# The buffer is the scanner ahead

The tokens in the buffer are what the scanner in front of them would give (`Holds`), so a stream with
a buffer stands for the stream without one that holds that scanner (`Represents`). Every operation
has a result, the same as that of the stream without a buffer, and keeps the relation
(`perform_represents`); a look leaves the stream without a buffer as it is. By induction on the
requests a session with the buffer is a session without it (`transcript_eq`), looks put in between
change no other answer, and the tokens that are consumed are the steps of the scanner, one by one
(`lookahead_is_pure`).
-/

set_option autoImplicit false

namespace Justfile

open Scanner (Covers)

/-! ## Buffers that hold steps of the scanner -/

/-- The buffer holds the steps of a scanner in one mode, each with the scanner in front of it. The
end of the input comes last. -/
inductive Holds (mode : Mode) : Scanner → List Buffered → Scanner → Prop
  | nil (s : Scanner) : Holds mode s [] s
  | cons {s t : Scanner} {rest : List Buffered}
      (last : (s.next mode).1.kind = .endOfInput → rest = []) :
      Holds mode (s.next mode).2 rest t → Holds mode s (⟨(s.next mode).1, s⟩ :: rest) t

/-- No token of the buffer is the end of the input. -/
def IsOpen (buffer : List Buffered) : Prop := ∀ entry ∈ buffer, entry.token.kind ≠ .endOfInput

theorem IsOpen.concat {front : List Buffered} {entry : Buffered} (isOpen : IsOpen front)
    (h : entry.token.kind ≠ .endOfInput) : IsOpen (front ++ [entry]) := by
  intro other hmem
  rcases List.mem_append.1 hmem with hmem | hmem
  · exact isOpen other hmem
  · rw [List.mem_singleton] at hmem
    exact hmem ▸ h

namespace Holds

variable {mode : Mode} {s t : Scanner} {front back : List Buffered}

theorem front_eq (holds : Holds mode s front t) : front.head?.elim t Buffered.before = s := by
  cases holds <;> rfl

theorem wellFormed (holds : Holds mode s front t) (wf : s.WellFormed) : t.WellFormed := by
  induction holds with
  | nil => exact wf
  | cons _ _ ih => exact ih (wf.next mode)

/-- A buffer that does not end with the end of the input has it nowhere. -/
theorem isOpen (holds : Holds mode s front t)
    (h : front.getLast?.any (·.token.kind == .endOfInput) = false) : IsOpen front := by
  induction holds with
  | nil =>
    intro entry hmem
    cases hmem
  | @cons s t rest last _ ih =>
    cases rest with
    | nil =>
      intro entry hmem
      rw [List.mem_singleton] at hmem
      subst hmem
      simpa using h
    | cons next rest =>
      rw [List.getLast?_cons_cons] at h
      intro entry hmem
      rcases List.mem_cons.1 hmem with rfl | hmem
      · intro hkind
        cases last hkind
      · exact ih h entry hmem

/-- A further step behind the buffer. -/
theorem concat (holds : Holds mode s front t) (isOpen : IsOpen front) :
    Holds mode s (front ++ [⟨(t.next mode).1, t⟩]) (t.next mode).2 := by
  induction holds with
  | nil s => exact .cons (fun _ => rfl) (.nil _)
  | cons _ _ ih =>
    refine .cons (fun hkind => absurd hkind (isOpen _ List.mem_cons_self)) (ih ?_)
    exact fun entry hmem => isOpen entry (List.mem_cons_of_mem _ hmem)

/-- A buffer in two parts. -/
theorem split (holds : Holds mode s (front ++ back) t) :
    ∃ middle, Holds mode s front middle ∧ Holds mode middle back t := by
  induction front generalizing s with
  | nil => exact ⟨s, .nil s, holds⟩
  | cons entry front ih =>
    cases holds with
    | cons last rest =>
      obtain ⟨middle, hfront, hback⟩ := ih rest
      refine ⟨middle, .cons ?_ hfront, hback⟩
      intro hkind
      exact (List.append_eq_nil_iff.1 (last hkind)).1

/-- The first entry of a buffer is the step from where the buffer starts. -/
theorem cons_iff {entry : Buffered} :
    Holds mode s (entry :: back) t ↔ entry = ⟨(s.next mode).1, s⟩ ∧
      (entry.token.kind = .endOfInput → back = []) ∧ Holds mode (s.next mode).2 back t := by
  constructor
  · rintro (_ | ⟨last, rest⟩)
    exact ⟨rfl, last, rest⟩
  · rintro ⟨rfl, last, rest⟩
    exact .cons last rest

end Holds

namespace BufferedStream

/-- The stream with a buffer stands for one without: the settings are the same, and the buffer holds
the steps from the scanner on. -/
structure Represents (b : BufferedStream) (s : Stream) : Prop where
  wellFormed : s.scanner.WellFormed
  mode : b.behind.mode = s.mode
  nesting : b.behind.nesting = s.nesting
  lineBound : b.behind.lineBound = s.lineBound
  holds : Holds s.mode s.scanner b.buffer b.behind.scanner

variable {b : BufferedStream} {s : Stream}

theorem represents_ofText (source : Text) : (ofText source).Represents (.ofText source) :=
  ⟨Scanner.wellFormed_ofText source, rfl, rfl, rfl, .nil _⟩

theorem scan_buffer (b : BufferedStream) :
    b.scan.buffer = b.buffer ++ [⟨(b.behind.scanner.next b.behind.mode).1, b.behind.scanner⟩] := rfl

/-- A buffer that ends with the end of the input is complete. -/
theorem isComplete_eq_false (h : IsOpen b.buffer) : b.isComplete = false := by
  unfold isComplete
  cases hlast : b.buffer.getLast? with
  | none => rfl
  | some entry =>
    have hne := h entry (List.mem_of_getLast? hlast)
    simpa using hne

/-- One turn of the search. -/
theorem seek_succ {b' : BufferedStream} {n index fuel : Nat} {entry : Buffered}
    (hfill : b.fill (index + 1) = (true, b')) (hget : b'.buffer[index]? = some entry) :
    b.seek n index (fuel + 1) =
      if entry.token.kind = .endOfInput then some (index, b')
      else if b'.behind.isTrivia entry.token.kind then b'.seek n (index + 1) fuel
      else
        match n with
        | 0 => some (index, b')
        | n + 1 => b'.seek n (index + 1) fuel := by
  rw [seek, hfill]
  simp only [hget]
  rfl

namespace Represents

theorem isTrivia_eq (rep : b.Represents s) (kind : Token.Kind) :
    b.behind.isTrivia kind = s.isTrivia kind := by
  unfold Stream.isTrivia
  rw [rep.nesting, rep.lineBound]

theorem front_eq (rep : b.Represents s) : b.front = s.scanner := rep.holds.front_eq

/-- What is left in the buffer stands for a stream further on. -/
theorem drop (rep : b.Represents s) {scanner : Scanner} {buffer : List Buffered}
    (hholds : Holds s.mode scanner buffer b.behind.scanner) (wf : scanner.WellFormed) :
    Represents { b with buffer := buffer } { s with scanner := scanner } :=
  ⟨wf, rep.mode, rep.nesting, rep.lineBound, hholds⟩

/-! ## Filling the buffer -/

theorem scan (rep : b.Represents s) (h : b.isComplete = false) : b.scan.Represents s := by
  refine ⟨rep.wellFormed, rep.mode, rep.nesting, rep.lineBound, ?_⟩
  have hholds := rep.holds.concat (rep.holds.isOpen h)
  rw [scan_buffer, rep.mode]
  rw [← rep.mode] at hholds ⊢
  exact hholds

/-- One step more in front of a place behind which nothing is buffered; where something is buffered,
the buffer stays. -/
theorem fill_succ (rep : b.Represents s) {done todo : List Buffered} {middle : Scanner}
    (hbuffer : b.buffer = done ++ todo) (hopen : IsOpen done)
    (hmiddle : Holds s.mode middle todo b.behind.scanner) :
    ∃ b' rest, b.fill (done.length + 1) = (true, b') ∧ b'.Represents s ∧
      b'.buffer = done ++ ⟨(middle.next s.mode).1, middle⟩ :: rest ∧
      Holds s.mode middle (⟨(middle.next s.mode).1, middle⟩ :: rest) b'.behind.scanner := by
  cases hmiddle with
  | nil =>
    rw [List.append_nil] at hbuffer
    have hcomplete : b.isComplete = false := isComplete_eq_false (hbuffer ▸ hopen)
    have hlength : done.length + 1 - b.buffer.length = 1 := by
      rw [hbuffer]
      omega
    have hrep := rep.scan hcomplete
    refine ⟨b.scan, [], ?_, hrep, ?_, ?_⟩
    · rw [fill, hlength, fillBy, hcomplete]
      rfl
    · rw [scan_buffer, hbuffer, rep.mode]
    · have hnext : b.scan.behind.scanner = (b.behind.scanner.next s.mode).2 := by
        rw [← rep.mode]
        rfl
      rw [hnext]
      exact .cons (fun _ => rfl) (.nil _)
  | @cons _ _ rest last hrest =>
    refine ⟨b, rest, ?_, rep, hbuffer, .cons last hrest⟩
    have hzero : done.length + 1 - b.buffer.length = 0 := by
      rw [hbuffer, List.length_append, List.length_cons]
      omega
    rw [fill, hzero]
    rfl

/-! ## Looking for a significant token -/

/-- What a search finds: a place in the buffer, with the entry there and the scanners around it. -/
structure Found (b : BufferedStream) (s : Stream) (index : Nat) (front : List Buffered)
    (entry : Buffered) (back : List Buffered) : Prop where
  represents : b.Represents s
  buffer : b.buffer = front ++ entry :: back
  length : front.length = index
  isOpen : IsOpen front
  holds : Holds s.mode entry.before (entry :: back) b.behind.scanner

/-- The search from a place of the buffer on finds the significant token that the stream finds from
the scanner there; the first one stands behind the trivia in front of it. -/
theorem seek_spec {fuel n : Nat} (rep : b.Represents s) {done todo : List Buffered}
    {middle : Scanner} (hbuffer : b.buffer = done ++ todo) (hopen : IsOpen done)
    (hmiddle : Holds s.mode middle todo b.behind.scanner) (wf : middle.WellFormed)
    (hfuel : n + middle.rest.length < fuel) :
    ∃ index b' front entry back, b.seek n done.length fuel = some (index, b') ∧
      Found b' s index front entry back ∧ entry.token = s.nthFrom n middle ∧
      (n = 0 → front.map Buffered.token = done.map Buffered.token ++ (s.ahead middle).trivia ∧
        entry.before = (s.ahead middle).before) := by
  induction fuel generalizing b n done todo middle with
  | zero => exact absurd hfuel (Nat.not_lt_zero _)
  | succ fuel ih =>
    obtain ⟨b', rest, hfill, hrep, hbuffer', hmiddle'⟩ := rep.fill_succ hbuffer hopen hmiddle
    have hget : b'.buffer[done.length]? = some ⟨(middle.next s.mode).1, middle⟩ := by
      rw [hbuffer', List.getElem?_append_right (Nat.le_refl _), Nat.sub_self]
      rfl
    have hfound : Found b' s done.length done ⟨(middle.next s.mode).1, middle⟩ rest :=
      ⟨hrep, hbuffer', rfl, hopen, hmiddle'⟩
    rw [seek_succ hfill hget]
    dsimp only
    rw [hrep.isTrivia_eq]
    by_cases hend : (middle.next s.mode).1.kind = .endOfInput
    · have htrivia : s.isTrivia (middle.next s.mode).1.kind = false := by
        rw [hend]
        rfl
      have hahead := Stream.ahead_of_not_isTrivia htrivia
      rw [if_pos hend]
      refine ⟨_, b', _, _, _, rfl, hfound, ?_, fun _ => ?_⟩
      · cases n with
        | zero => simp only [Stream.nthFrom, hahead]
        | succ n => simp only [Stream.nthFrom, hahead, hend, if_true]
      · simp [hahead]
    · rw [if_neg hend]
      -- The search goes on behind this entry.
      have hdone : b'.buffer = (done ++ [⟨(middle.next s.mode).1, middle⟩]) ++ rest := by
        rw [hbuffer', List.append_assoc, List.singleton_append]
      have hopen' : IsOpen (done ++ [⟨(middle.next s.mode).1, middle⟩]) := hopen.concat hend
      have hnext := (Holds.cons_iff.1 hmiddle').2.2
      have hlength : (done ++ [(⟨(middle.next s.mode).1, middle⟩ : Buffered)]).length =
          done.length + 1 := by
        rw [List.length_append, List.length_singleton]
      cases htrivia : s.isTrivia (middle.next s.mode).1.kind with
      | true =>
        have hahead := Stream.ahead_of_isTrivia wf htrivia
        have hlt := (Scanner.step_next middle s.mode).rest_lt wf
          (Stream.canBeEmpty_of_isTrivia htrivia)
        obtain ⟨index, b'', front, entry, back, heq, hfound', htoken, hzero⟩ :=
          ih (n := n) hrep hdone hopen' hnext (wf.next s.mode) (by omega)
        rw [if_pos rfl, ← hlength]
        refine ⟨index, b'', front, entry, back, heq, hfound', ?_, ?_⟩
        · rw [htoken]
          cases n <;> simp only [Stream.nthFrom, hahead]
        · intro hn
          obtain ⟨hfront, hbefore⟩ := hzero hn
          rw [hfront, hbefore, hahead]
          simp
      | false =>
        have hahead := Stream.ahead_of_not_isTrivia htrivia
        have hle := Scanner.rest_next_le middle s.mode
        rw [if_neg (by simp)]
        cases n with
        | zero =>
          refine ⟨_, b', _, _, _, rfl, hfound, ?_, fun _ => ?_⟩
          · simp only [Stream.nthFrom, hahead]
          · simp [hahead]
        | succ n =>
          obtain ⟨index, b'', front, entry, back, heq, hfound', htoken, -⟩ :=
            ih (n := n) hrep hdone hopen' hnext (wf.next s.mode) (by omega)
          refine ⟨index, b'', front, entry, back, hlength ▸ heq, hfound', ?_, by simp⟩
          rw [htoken]
          simp only [Stream.nthFrom, hahead, hend, if_false]

/-- The search from the front of the buffer. -/
theorem significantIndex_spec (rep : b.Represents s) (n : Nat) :
    ∃ index b' front entry back, b.significantIndex n = some (index, b') ∧
      Found b' s index front entry back ∧ entry.token = s.nth n ∧
      (n = 0 → front.map Buffered.token = (s.ahead s.scanner).trivia ∧
        entry.before = (s.ahead s.scanner).before) := by
  have hbuffer : b.buffer = [] ++ b.buffer := rfl
  have hopen : IsOpen [] := fun entry hmem => by cases hmem
  rw [significantIndex, rep.front_eq]
  exact rep.seek_spec hbuffer hopen rep.holds rep.wellFormed (Nat.lt_succ_self _)

theorem Found.getElem?_eq {index : Nat} {front back : List Buffered} {entry : Buffered}
    (found : Found b s index front entry back) : b.buffer[index]? = some entry := by
  rw [found.buffer, ← found.length, List.getElem?_append_right (Nat.le_refl _), Nat.sub_self]
  rfl

/-! ## Looks -/

theorem nth (rep : b.Represents s) (n : Nat) :
    ∃ b', b.nth n = some (s.nth n, b') ∧ b'.Represents s := by
  obtain ⟨index, b', front, entry, back, hindex, hfound, htoken, -⟩ := rep.significantIndex_spec n
  refine ⟨b', ?_, hfound.represents⟩
  simp [BufferedStream.nth, hindex, hfound.getElem?_eq, htoken]

theorem atGlued (rep : b.Represents s) (first second : Token.Kind) :
    ∃ b', b.atGlued first second = some (s.atGlued first second, b') ∧ b'.Represents s := by
  obtain ⟨index, b', front, entry, back, hindex, hfound, htoken, hzero⟩ :=
    rep.significantIndex_spec 0
  obtain ⟨-, hbefore⟩ := hzero rfl
  obtain ⟨hentry, hlast, hnext⟩ := Holds.cons_iff.1 hfound.holds
  have hahead : (s.ahead s.scanner).token = entry.token := htoken.symm
  have hafter : (s.ahead s.scanner).after = (entry.before.next s.mode).2 := by
    rw [hbefore]
    rfl
  by_cases hfirst : entry.token.kind = first
  · by_cases hend : entry.token.kind = .endOfInput
    · -- Nothing is scanned behind the end of the input.
      have hcomplete : b'.isComplete = true := by
        rw [isComplete, hfound.buffer, hlast hend, List.getLast?_concat]
        simpa using hend
      have hlength : index + 2 - b'.buffer.length = 1 := by
        have hlength := congrArg List.length hfound.buffer
        rw [List.length_append, hlast hend, hfound.length, List.length_singleton] at hlength
        omega
      have hfill : b'.fill (index + 2) = (false, b') := by
        rw [fill, hlength, fillBy, if_pos hcomplete]
      refine ⟨b', ?_, hfound.represents⟩
      simp [BufferedStream.atGlued, Stream.atGlued, hindex, hfound.getElem?_eq, hfill, hahead,
        ← hfirst, hend]
    · -- The token behind the first one is scanned where it is not buffered yet.
      have hdone : b'.buffer = (front ++ [entry]) ++ back := by
        rw [hfound.buffer, List.append_assoc, List.singleton_append]
      have hopen : IsOpen (front ++ [entry]) := hfound.isOpen.concat hend
      have hlength : (front ++ [entry]).length = index + 1 := by
        rw [List.length_append, hfound.length, List.length_singleton]
      obtain ⟨b'', rest, hfill, hrep, hbuffer, -⟩ :=
        hfound.represents.fill_succ hdone hopen hnext
      rw [hlength] at hfill
      have hindex' : b''.buffer[index]? = some entry := by
        rw [hbuffer, List.append_assoc, List.getElem?_append_right (Nat.le_of_eq hfound.length),
          hfound.length, Nat.sub_self]
        rfl
      have hindex'' : b''.buffer[index + 1]? = some
          ⟨((entry.before.next s.mode).2.next s.mode).1, (entry.before.next s.mode).2⟩ := by
        rw [hbuffer, ← hlength, List.getElem?_append_right (Nat.le_refl _), Nat.sub_self]
        rfl
      have hsymm : ∀ m n : Nat, (m == n) = (n == m) := fun _ _ => Bool.beq_comm
      refine ⟨b'', ?_, hrep⟩
      simp [BufferedStream.atGlued, Stream.atGlued, hindex, hfound.getElem?_eq, hfill, hindex',
        hindex'', hahead, hafter, ← hfirst, hend, hsymm entry.token.span.stop]
  · refine ⟨b', ?_, hfound.represents⟩
    simp [BufferedStream.atGlued, Stream.atGlued, hindex, hfound.getElem?_eq, hahead, hfirst]

/-! ## Consuming -/

/-- The trivia is taken; the next significant token waits in the buffer. -/
theorem takeTrivia (rep : b.Represents s) :
    ∃ b', b.takeTrivia = some (s.takeTrivia.1, b') ∧ b'.Represents s.flushed ∧
      b'.buffer ≠ [] := by
  obtain ⟨index, b', front, entry, back, hindex, hfound, -, hzero⟩ := rep.significantIndex_spec 0
  obtain ⟨htrivia, hbefore⟩ := hzero rfl
  have htake : b'.buffer.take index = front := by
    rw [hfound.buffer, ← hfound.length, List.take_left]
  have hdrop : b'.buffer.drop index = entry :: back := by
    rw [hfound.buffer, ← hfound.length, List.drop_left]
  refine ⟨{ b' with buffer := entry :: back }, ?_, ?_, by simp⟩
  · simp only [BufferedStream.takeTrivia, hindex, Option.bind_eq_bind, Option.bind_some, htake,
      hdrop, htrivia]
    rfl
  · have hholds := hfound.holds
    rw [hbefore] at hholds
    exact hfound.represents.drop hholds ((Stream.takeTrivia_spec rep.wellFormed).1.wellFormed
      rep.wellFormed).1

theorem bump (rep : b.Represents s) :
    ∃ b', b.bump = some (s.bump.1, s.bump.2.1, b') ∧ b'.Represents s.bump.2.2 := by
  obtain ⟨b', htrivia, hrep, hne⟩ := rep.takeTrivia
  obtain ⟨entry, rest, hbuffer⟩ := List.exists_cons_of_ne_nil hne
  have hholds := hrep.holds
  rw [hbuffer] at hholds
  obtain ⟨rfl, -, hrest⟩ := Holds.cons_iff.1 hholds
  by_cases hend : s.flushed.step.1.kind = .endOfInput
  · have hstream : s.bump.2.2 = s.flushed := by
      have hend' : (s.ahead s.scanner).token.kind = .endOfInput := hend
      simp only [Stream.bump, hend', if_true]
      rfl
    refine ⟨b', ?_, hstream ▸ hrep⟩
    simp only [BufferedStream.bump, htrivia, Option.bind_eq_bind, Option.bind_some, hbuffer]
    exact if_pos hend
  · rw [Stream.bump_eq s hend]
    refine ⟨{ b' with buffer := rest }, ?_, ?_⟩
    · simp only [BufferedStream.bump, htrivia, Option.bind_eq_bind, Option.bind_some, hbuffer]
      exact if_neg hend
    · exact hrep.drop hrest (hrep.wellFormed.next s.mode)

theorem bumpGlued (rep : b.Represents s) (kind : Token.Kind) :
    ∃ b', b.bumpGlued kind = some ((s.bumpGlued kind).1, (s.bumpGlued kind).2.1, b') ∧
      b'.Represents (s.bumpGlued kind).2.2 := by
  obtain ⟨b₁, hfirst, hrep₁⟩ := rep.bump
  obtain ⟨b₂, hsecond, hrep₂⟩ := hrep₁.bump
  refine ⟨b₂, ?_, hrep₂⟩
  simp only [BufferedStream.bumpGlued, hfirst, hsecond, Option.bind_eq_bind, Option.bind_some]
  rfl

/-! ## Settings -/

theorem setMode (rep : b.Represents s) (mode : Mode) :
    (b.setMode mode).Represents (s.setMode mode) := by
  unfold BufferedStream.setMode Stream.setMode
  split
  · next heq =>
    rw [heq, rep.mode]
    exact rep
  · refine ⟨rep.wellFormed, rfl, rep.nesting, rep.lineBound, ?_⟩
    rw [rep.front_eq]
    exact .nil _

theorem openDelimiter (rep : b.Represents s) : b.openDelimiter.Represents s.openDelimiter :=
  ⟨rep.wellFormed, rep.mode, congrArg (· + 1) rep.nesting, rep.lineBound, rep.holds⟩

theorem closeDelimiter (rep : b.Represents s) : b.closeDelimiter.Represents s.closeDelimiter :=
  ⟨rep.wellFormed, rep.mode, congrArg (· - 1) rep.nesting, rep.lineBound, rep.holds⟩

theorem enterLine (rep : b.Represents s) : b.enterLine.Represents s.enterLine :=
  ⟨rep.wellFormed, rep.mode, rfl, rfl, rep.holds⟩

theorem leaveLine (rep : b.Represents s) (nesting : Nat) (lineBound : Bool) :
    (b.leaveLine nesting lineBound).Represents
      (s.leaveLine { s with nesting := nesting, lineBound := lineBound }) :=
  ⟨rep.wellFormed, rep.mode, rfl, rfl, rep.holds⟩

end Represents

end BufferedStream

/-! ## Sessions -/

/-- A request that only looks at the tokens to come. -/
inductive Look where
  | nth (n : Nat)
  | atGlued (first second : Token.Kind)
  deriving DecidableEq, Repr

/-- What a caller asks of a stream. -/
inductive Request where
  | look (look : Look)
  | bump
  | bumpGlued (kind : Token.Kind)
  | takeTrivia
  | setMode (mode : Mode)
  | openDelimiter
  | closeDelimiter
  | enterLine
  | leaveLine (nesting : Nat) (lineBound : Bool)
  deriving DecidableEq, Repr

/-- What a stream answers. -/
inductive Answer where
  | seen (token : Token)
  | glued (isGlued : Bool)
  /-- Trivia that is consumed, and the token behind it. -/
  | consumed (trivia : List Token) (token : Token)
  /-- Trivia that is consumed alone. -/
  | skipped (trivia : List Token)
  /-- The brackets and the binding that held before. -/
  | saved (nesting : Nat) (lineBound : Bool)
  | done
  deriving DecidableEq, Repr

/-- The tokens that are consumed with an answer. -/
def Answer.tokens : Answer → List Token
  | consumed trivia token => trivia ++ [token]
  | skipped trivia => trivia
  | _ => []

/-- The request of a call: one of the caller's own, or a look put in between. -/
def Request.ofCall : Request ⊕ Look → Request := Sum.elim id Request.look

namespace BufferedStream

/-- Answers a request. -/
def perform (b : BufferedStream) : Request → Option (Answer × BufferedStream)
  | .look (.nth n) => (b.nth n).map fun (token, b) => (.seen token, b)
  | .look (.atGlued first second) =>
    (b.atGlued first second).map fun (isGlued, b) => (.glued isGlued, b)
  | .bump => b.bump.map fun (trivia, token, b) => (.consumed trivia token, b)
  | .bumpGlued kind => (b.bumpGlued kind).map fun (trivia, token, b) => (.consumed trivia token, b)
  | .takeTrivia => b.takeTrivia.map fun (trivia, b) => (.skipped trivia, b)
  | .setMode mode => some (.done, b.setMode mode)
  | .openDelimiter => some (.done, b.openDelimiter)
  | .closeDelimiter => some (.done, b.closeDelimiter)
  | .enterLine => some (.saved b.behind.nesting b.behind.lineBound, b.enterLine)
  | .leaveLine nesting lineBound => some (.done, b.leaveLine nesting lineBound)

/-- The answers to requests, one after the other. -/
def transcript (b : BufferedStream) : List Request → Option (List Answer)
  | [] => some []
  | request :: requests => do
    let (answer, b) ← b.perform request
    let answers ← b.transcript requests
    some (answer :: answers)

/-- Whether two tokens may be consumed as one here, if that is the request: two closing braces stand
together. -/
def permits (b : BufferedStream) : Request → Bool
  | .bumpGlued _ => (b.atGlued (.mark .braceR) (.mark .braceR)).any fun (isGlued, _) => isGlued
  | _ => true

/-- Whether every request is permitted where it is made. -/
def isProper (b : BufferedStream) : List Request → Bool
  | [] => true
  | request :: requests =>
    b.permits request && (b.perform request).all fun (_, b) => b.isProper requests

end BufferedStream

namespace Stream

/-- Answers a request without a buffer. -/
def perform (s : Stream) : Request → Answer × Stream
  | .look (.nth n) => (.seen (s.nth n), s)
  | .look (.atGlued first second) => (.glued (s.atGlued first second), s)
  | .bump => (.consumed s.bump.1 s.bump.2.1, s.bump.2.2)
  | .bumpGlued kind =>
    (.consumed (s.bumpGlued kind).1 (s.bumpGlued kind).2.1, (s.bumpGlued kind).2.2)
  | .takeTrivia => (.skipped s.takeTrivia.1, s.takeTrivia.2)
  | .setMode mode => (.done, s.setMode mode)
  | .openDelimiter => (.done, s.openDelimiter)
  | .closeDelimiter => (.done, s.closeDelimiter)
  | .enterLine => (.saved s.nesting s.lineBound, s.enterLine)
  | .leaveLine nesting lineBound =>
    (.done, s.leaveLine { s with nesting := nesting, lineBound := lineBound })

/-- The answers to requests, one after the other, without a buffer. -/
def transcript (s : Stream) : List Request → List Answer
  | [] => []
  | request :: requests => (s.perform request).1 :: (s.perform request).2.transcript requests

@[simp] theorem length_transcript (s : Stream) (requests : List Request) :
    (s.transcript requests).length = requests.length := by
  induction requests generalizing s with
  | nil => rfl
  | cons request requests ih => simp [transcript, ih]

/-- A look leaves the stream as it is. -/
theorem perform_look (s : Stream) (look : Look) : (s.perform (.look look)).2 = s := by
  cases look <;> rfl

/-- Looks put in between change no answer to the other requests. -/
theorem transcript_filterMap (s : Stream) (calls : List (Request ⊕ Look)) :
    s.transcript (calls.filterMap Sum.getLeft?) =
      ((calls.zip (s.transcript (calls.map Request.ofCall))).filter (·.1.isLeft)).map
        Prod.snd := by
  induction calls generalizing s with
  | nil => rfl
  | cons call calls ih =>
    cases call with
    | inl request =>
      rw [List.filterMap_cons_some (show Sum.getLeft? (.inl request) = some request from rfl)]
      exact congrArg _ (ih _)
    | inr look =>
      have hstays := ih (s.perform (.look look)).2
      rw [perform_look] at hstays
      rw [List.filterMap_cons_none rfl, hstays]
      simp [transcript, Request.ofCall, perform_look]

end Stream

namespace BufferedStream

variable {b : BufferedStream} {s : Stream}

/-- Every request has an answer, the one of the stream without a buffer, which the stream then still
stands for. -/
theorem perform_represents (rep : b.Represents s) (request : Request) :
    ∃ b', b.perform request = some ((s.perform request).1, b') ∧
      b'.Represents (s.perform request).2 := by
  cases request with
  | look look =>
    cases look with
    | nth n =>
      obtain ⟨b', heq, hrep⟩ := rep.nth n
      exact ⟨b', by simp [perform, Stream.perform, heq], hrep⟩
    | atGlued first second =>
      obtain ⟨b', heq, hrep⟩ := rep.atGlued first second
      exact ⟨b', by simp [perform, Stream.perform, heq], hrep⟩
  | bump =>
    obtain ⟨b', heq, hrep⟩ := rep.bump
    exact ⟨b', by simp [perform, Stream.perform, heq], hrep⟩
  | bumpGlued kind =>
    obtain ⟨b', heq, hrep⟩ := rep.bumpGlued kind
    exact ⟨b', by simp [perform, Stream.perform, heq], hrep⟩
  | takeTrivia =>
    obtain ⟨b', heq, hrep, -⟩ := rep.takeTrivia
    exact ⟨b', by simp [perform, Stream.perform, heq], hrep⟩
  | setMode mode => exact ⟨_, rfl, rep.setMode mode⟩
  | openDelimiter => exact ⟨_, rfl, rep.openDelimiter⟩
  | closeDelimiter => exact ⟨_, rfl, rep.closeDelimiter⟩
  | enterLine =>
    refine ⟨_, ?_, rep.enterLine⟩
    rw [perform, rep.nesting, rep.lineBound]
    rfl
  | leaveLine nesting lineBound => exact ⟨_, rfl, rep.leaveLine nesting lineBound⟩

/-- A session with the buffer is a session without it. -/
theorem transcript_eq (rep : b.Represents s) (requests : List Request) :
    b.transcript requests = some (s.transcript requests) := by
  induction requests generalizing b s with
  | nil => rfl
  | cons request requests ih =>
    obtain ⟨b', heq, hrep⟩ := perform_represents rep request
    simp [transcript, heq, ih hrep, Stream.transcript]

end BufferedStream

/-! ## The tokens that are consumed -/

namespace Scanner

/-- The scanner gives the tokens one after the other, each in some mode; two closing braces may be
given as one token. At the end of the input the scanner stays, so that its token can be given
again. -/
inductive Gives : Scanner → List Token → Scanner → Prop
  | nil (s : Scanner) : Gives s [] s
  | step {s t : Scanner} {tokens : List Token} (mode : Mode) :
      Gives (s.next mode).2 tokens t → Gives s ((s.next mode).1 :: tokens) t
  | glued {s t : Scanner} {tokens : List Token} (mode : Mode) (kind : Token.Kind) :
      (s.next mode).1.kind = .mark .braceR →
      ((s.next mode).2.next mode).1.kind = .mark .braceR →
      Gives ((s.next mode).2.next mode).2 tokens t →
      Gives s (⟨kind, ⟨(s.next mode).1.span.start, ((s.next mode).2.next mode).1.span.stop⟩,
        (s.next mode).1.text ++ ((s.next mode).2.next mode).1.text, none⟩ :: tokens) t

namespace Gives

variable {s t u : Scanner} {tokens more : List Token}

theorem append (gives : Gives s tokens t) (after : Gives t more u) :
    Gives s (tokens ++ more) u := by
  induction gives with
  | nil => exact after
  | step mode _ ih => exact .step mode (ih after)
  | glued mode kind hfirst hsecond _ ih => exact .glued mode kind hfirst hsecond (ih after)

theorem of_run {mode : Mode} (run : Run mode s tokens t) : Gives s tokens t := by
  induction run with
  | nil s => exact .nil s
  | cons _ ih => exact .step mode ih

/-- Tokens that are given cover the source, behind those before them. -/
theorem covers {source : Text} {front : List Token} (gives : Gives s tokens t)
    (start : Covers source front s) : Covers source (front ++ tokens) t := by
  induction gives generalizing front with
  | nil => simpa using start
  | step mode _ ih => simpa using ih (start.step mode)
  | @glued s _ _ mode kind _ _ _ ih =>
    have hfirst := takes_next s mode
    have hsecond := takes_next (s.next mode).2 mode
    have htakes : s.Takes (⟨kind, ⟨(s.next mode).1.span.start,
        ((s.next mode).2.next mode).1.span.stop⟩,
        (s.next mode).1.text ++ ((s.next mode).2.next mode).1.text, none⟩,
        ((s.next mode).2.next mode).2) := by
      refine ⟨?_, ?_, ?_⟩
      · rw [List.append_assoc, hsecond.text_append_rest, hfirst.text_append_rest]
      · rw [hfirst.span_eq, hsecond.span_eq]
      · rw [hsecond.offset_eq, hfirst.offset_eq, Text.byteSize_append, Nat.add_assoc]
    have hcovers := start.take htakes
    simpa using ih hcovers

end Gives

end Scanner

namespace Stream

open Scanner (Gives)

variable {s : Stream}

theorem gives_takeTrivia (wf : s.scanner.WellFormed) :
    Gives s.scanner s.takeTrivia.1 s.flushed.scanner :=
  .of_run (takeTrivia_spec wf).1

theorem gives_bump (wf : s.scanner.WellFormed) :
    Gives s.scanner (s.bump.1 ++ [s.bump.2.1]) s.bump.2.2.scanner := by
  refine (gives_takeTrivia wf).append ?_
  have hstep : Gives s.flushed.scanner [s.flushed.step.1] s.flushed.step.2 :=
    .step s.mode (.nil _)
  by_cases hend : s.flushed.step.1.kind = .endOfInput
  · -- The end of the input leaves the scanner as it is.
    have hwf := ((takeTrivia_spec wf).1.wellFormed wf).1
    have hstays : s.flushed.step.2 = s.flushed.scanner :=
      ((Scanner.step_next s.flushed.scanner s.mode).endOfInput_inv hwf hend).2.1
    have hstream : s.bump.2.2.scanner = s.flushed.scanner := if_pos hend
    rw [hstream]
    rw [hstays] at hstep
    exact hstep
  · have hstream : s.bump.2.2.scanner = s.flushed.step.2 := if_neg hend
    rw [hstream]
    exact hstep

theorem gives_bumpGlued (wf : s.scanner.WellFormed)
    (h : s.atGlued (.mark .braceR) (.mark .braceR) = true) (kind : Token.Kind) :
    Gives s.scanner ((s.bumpGlued kind).1 ++ [(s.bumpGlued kind).2.1])
      (s.bumpGlued kind).2.2.scanner := by
  obtain ⟨hfirst, -, hsecond⟩ := atGlued_spec h
  have htrivia : s.isTrivia (.mark .braceR) = false := rfl
  rw [bumpGlued_of_atGlued kind h htrivia (by simp)]
  exact (gives_takeTrivia wf).append (.glued s.mode kind hfirst hsecond (.nil _))

/-- The tokens consumed with a request are given by the scanner. -/
theorem gives_perform (wf : s.scanner.WellFormed) {request : Request}
    (proper : ∀ kind, request = .bumpGlued kind →
      s.atGlued (.mark .braceR) (.mark .braceR) = true) :
    Gives s.scanner (s.perform request).1.tokens (s.perform request).2.scanner := by
  cases request with
  | look look => cases look <;> exact .nil _
  | bump => exact gives_bump wf
  | bumpGlued kind => exact gives_bumpGlued wf (proper kind rfl) kind
  | takeTrivia => exact gives_takeTrivia wf
  | setMode | openDelimiter | closeDelimiter | enterLine | leaveLine => exact .nil _

end Stream

namespace BufferedStream

open Scanner (Gives)

variable {b : BufferedStream} {s : Stream}

/-- The tokens consumed in a session are given by the scanner, one after the other. -/
theorem gives_transcript (rep : b.Represents s) {requests : List Request}
    (proper : b.isProper requests = true) :
    ∃ last, Gives s.scanner ((s.transcript requests).flatMap Answer.tokens) last := by
  induction requests generalizing b s with
  | nil => exact ⟨s.scanner, .nil _⟩
  | cons request requests ih =>
    obtain ⟨b', heq, hrep⟩ := perform_represents rep request
    rw [isProper, Bool.and_eq_true, heq] at proper
    obtain ⟨hrequest, hrequests⟩ := proper
    obtain ⟨last, hgives⟩ := ih hrep hrequests
    refine ⟨last, (Stream.gives_perform rep.wellFormed ?_).append hgives⟩
    rintro kind rfl
    obtain ⟨b'', hglued, -⟩ := rep.atGlued (.mark .braceR) (.mark .braceR)
    rw [permits, hglued] at hrequest
    exact hrequest

/-- Every session has answers. Looks put in between change no other answer, and the tokens that are
consumed are the steps of the scanner, one by one, and lie one after the other from the start of the
source. -/
theorem lookahead_is_pure (source : Text) (calls : List (Request ⊕ Look)) :
    ∃ answers, (ofText source).transcript (calls.map Request.ofCall) = some answers ∧
      answers.length = calls.length ∧
      (ofText source).transcript (calls.filterMap Sum.getLeft?) =
        some (((calls.zip answers).filter (·.1.isLeft)).map Prod.snd) ∧
      ((ofText source).isProper (calls.map Request.ofCall) = true →
        ∃ last, Gives (Scanner.ofText source) (answers.flatMap Answer.tokens) last ∧
          Covers source (answers.flatMap Answer.tokens) last) := by
  have hrep := represents_ofText source
  refine ⟨_, transcript_eq hrep _, by simp, ?_, ?_⟩
  · rw [transcript_eq hrep, Stream.transcript_filterMap]
  · intro proper
    obtain ⟨last, hgives⟩ := gives_transcript hrep proper
    exact ⟨last, hgives, hgives.covers (Scanner.covers_ofText source)⟩

/-- A session in which two braces are consumed as one, with looks at both of them and across a change
of mode put in between. -/
theorem lookahead_is_pure_braces :
    ∃ answers last, (ofText "\x7d\x7d a".toList).transcript
        [.look (.nth 2), .bumpGlued .interpolationClose, .look (.nth 1), .setMode .body, .bump] =
        some answers ∧
      Gives (Scanner.ofText "\x7d\x7d a".toList) (answers.flatMap Answer.tokens) last ∧
      Covers "\x7d\x7d a".toList (answers.flatMap Answer.tokens) last := by
  obtain ⟨answers, htranscript, -, -, hproper⟩ := lookahead_is_pure "\x7d\x7d a".toList
    [.inr (.nth 2), .inl (.bumpGlued .interpolationClose), .inr (.nth 1), .inl (.setMode .body),
      .inl .bump]
  obtain ⟨last, hgives, hcovers⟩ := hproper (by decide +kernel)
  exact ⟨answers, last, htranscript, hgives, hcovers⟩

end BufferedStream

end Justfile
