import Justfile.Proofs.Blank.Scanner
import Justfile.Proofs.Scanner.Line

/-!
# Stops between blanks

The scanner takes a run of blanks as a whole: it does not stop between two of them. There is one
exception, the indentation of a body line, of which only the width of the body is taken
(`Scanner.Placed.next_between`).

That no measure ends within a run of blanks is known from the comparison across a gap. Here the gap has
the same run on both sides, and a scanner is compared with itself.
-/

set_option autoImplicit false

namespace Justfile

open Text (byteSize)
open Justfile.Measure (isBlank)

/-! ## Runs of blanks -/

namespace Measure

/-- The text up to the blanks at its end. -/
theorem exists_blanks_behind (text : Text) :
    ∃ left run, text = left ++ run ∧ (∀ c ∈ run, isBlank c = true) ∧
      ∀ c ∈ left.getLast?, isBlank c = false := by
  have hsplit := List.takeWhile_append_dropWhile (p := isBlank) (l := text.reverse)
  refine ⟨(text.reverse.dropWhile isBlank).reverse, (text.reverse.takeWhile isBlank).reverse, ?_,
    ?_, ?_⟩
  · rw [← List.reverse_append, hsplit, List.reverse_reverse]
  · intro c hc
    exact List.all_eq_true.1 List.all_takeWhile c (List.mem_reverse.1 hc)
  · intro c hc
    rw [List.getLast?_reverse, Option.mem_def] at hc
    have hhead := List.head?_dropWhile_not isBlank text.reverse
    rw [hc] at hhead
    exact hhead

/-- The text behind the blanks at its front. -/
theorem exists_blanks_ahead (text : Text) :
    ∃ run right, text = run ++ right ∧ (∀ c ∈ run, isBlank c = true) ∧
      ∀ c ∈ right.head?, isBlank c = false := by
  refine ⟨text.takeWhile isBlank, text.dropWhile isBlank, List.takeWhile_append_dropWhile.symm,
    List.all_eq_true.1 List.all_takeWhile, ?_⟩
  intro c hc
  rw [Option.mem_def] at hc
  have hhead := List.head?_dropWhile_not isBlank text
  rw [hc] at hhead
  exact hhead

theorem exists_cons_of_blank {text : Text} (h : ∃ c ∈ text.head?, isBlank c = true) :
    ∃ c rest, text = c :: rest ∧ isBlank c = true := by
  obtain ⟨c, hc, hblank⟩ := h
  obtain ⟨rest, hrest⟩ := List.head?_eq_some_iff.1 hc
  exact ⟨c, rest, hrest, hblank⟩

end Measure

/-- The whole run of blanks around a place between two of them. -/
theorem Gap.exists_around {front back : Text} (hfront : ∃ c ∈ front.getLast?, isBlank c = true)
    (hback : ∃ c ∈ back.head?, isBlank c = true) :
    ∃ (g : Gap) (left before behind : Text), front = left ++ before ∧ g.old = before ++ behind ∧
      before ≠ [] ∧ behind ≠ [] ∧ g.Splits (some left) (front ++ back) (front ++ back) := by
  obtain ⟨left, before, rfl, hbefore, hleft⟩ := Measure.exists_blanks_behind front
  obtain ⟨behind, right, rfl, hbehind, hright⟩ := Measure.exists_blanks_ahead back
  have hne : before ≠ [] := by
    rintro rfl
    obtain ⟨c, hc, hblank⟩ := hfront
    rw [List.append_nil] at hc
    rw [hleft c hc] at hblank
    cases hblank
  have hne' : behind ≠ [] := by
    rintro rfl
    obtain ⟨c, hc, hblank⟩ := hback
    rw [List.nil_append] at hc
    rw [hright c hc] at hblank
    cases hblank
  have hrun : ∀ c ∈ before ++ behind, isBlank c = true := by
    intro c hc
    rcases List.mem_append.1 hc with hc | hc
    · exact hbefore c hc
    · exact hbehind c hc
  have happend : before ++ behind ≠ [] := by simp [hne]
  refine ⟨⟨before ++ behind, before ++ behind, happend, happend, hrun, hrun⟩, left, before, behind,
    rfl, rfl, hne, hne', ?_⟩
  have hsplits := Gap.Splits.ahead
    (g := ⟨before ++ behind, before ++ behind, happend, happend, hrun, hrun⟩) hleft hright
  have htext : left ++ before ++ (behind ++ right) = left ++ ((before ++ behind) ++ right) := by
    simp only [List.append_assoc]
  rw [htext]
  exact hsplits

/-- A gap that is ahead is still ahead behind more characters, unless they end with a blank of it. -/
theorem Gap.Splits.prepend {g : Gap} {left text text' : Text} (h : g.Splits (some left) text text')
    {front : Text} (hedge : left = [] → ∀ c ∈ front.getLast?, isBlank c = false) :
    g.Splits (some (front ++ left)) (front ++ text) (front ++ text') := by
  cases h with
  | @ahead _ back hleft hback =>
    rw [← List.append_assoc front left, ← List.append_assoc front left]
    refine .ahead ?_ hback
    intro c hc
    rw [List.getLast?_append, Option.mem_def] at hc
    cases hlast : left.getLast? with
    | none =>
      rw [hlast, Option.none_or] at hc
      exact hedge (List.getLast?_eq_none_iff.1 hlast) c hc
    | some d =>
      rw [hlast, Option.some_or] at hc
      exact hleft c (hlast.trans hc)

/-- Right in front of a gap there is a blank. -/
theorem Gap.Splits.head?_blank {g : Gap} {text text' : Text} (h : g.Splits (some []) text text') :
    ∃ c ∈ text.head?, isBlank c = true := by
  obtain ⟨blank, rest, hold, hblank, -⟩ := g.old_eq_cons
  cases h with
  | ahead =>
    refine ⟨blank, ?_, hblank⟩
    rw [List.nil_append, hold]
    rfl

namespace Scanner

/-- The scanner stands between two blanks. -/
def Between (s : Scanner) : Prop :=
  (∃ c ∈ s.previous, isBlank c = true) ∧ ∃ c ∈ s.rest.head?, isBlank c = true

/-! ## Places in a source -/

/-- The contents of a line that are remembered start no later than here. -/
def InLine (s : Scanner) : Prop := ∀ content ∈ s.lineContent, content ≤ s.offset

/-- The scanner has taken the front of the source, and the pieces of a shebang line that are decided
take runs of blanks as a whole. -/
structure Placed (source : Text) (s : Scanner) : Prop where
  base : s.base = (ofText source).base
  split : ∃ taken, source = taken ++ s.rest ∧ s.offset = byteSize taken ∧
    s.previous = taken.getLast?
  inLine : s.InLine
  queued : ∀ (g : Gap) (left : Text), g.Splits (some left) s.rest s.rest →
    ∃ last, g.Queues (some left) s.queued s.queued last

section Places

variable {source : Text} {s t : Scanner} {mode : Mode} {out : Token × Scanner}

theorem placed_ofText (source : Text) : Placed source (ofText source) :=
  ⟨rfl, ⟨[], rfl, rfl, rfl⟩, nofun, fun _ left _ => ⟨some left, .nil _⟩⟩

/-- The mark at the start of a source is the byte order mark. -/
theorem Placed.head?_of_lt (h : Placed source s) (hbase : s.offset < s.base) :
    s.rest.head? = some byteOrderMark := by
  obtain ⟨taken, hsource, hoffset, -⟩ := h.split
  rw [h.base] at hbase
  unfold ofText at hbase
  dsimp only at hbase
  split at hbase
  · next hmark =>
    have hhead := eq_of_beq hmark
    -- A character of the mark's size has not been taken, so nothing has.
    cases taken with
    | nil =>
      rw [hsource, List.nil_append] at hhead
      exact hhead
    | cons c taken =>
      rw [hsource, List.cons_append, List.head?_cons, Option.some_inj] at hhead
      rw [hoffset, Text.byteSize_cons, hhead] at hbase
      omega
  · exact absurd hbase (Nat.not_lt_zero _)

/-- Up to the start of the text proper there is no blank. -/
theorem Placed.not_between_of_le (h : Placed source s) (hbase : s.offset ≤ s.base) : ¬s.Between := by
  rintro ⟨⟨c, hc, hblank⟩, -⟩
  obtain ⟨taken, hsource, hoffset, hprevious⟩ := h.split
  rw [hprevious, Option.mem_def] at hc
  rw [h.base] at hbase
  unfold ofText at hbase
  dsimp only at hbase
  cases taken with
  | nil => cases hc
  | cons d taken =>
    have hd := d.utf8Size_pos
    rw [hoffset, Text.byteSize_cons] at hbase
    split at hbase
    · next hmark =>
      have hhead := eq_of_beq hmark
      rw [hsource, List.cons_append, List.head?_cons, Option.some_inj] at hhead
      subst hhead
      -- The mark is all that was taken.
      have htaken : taken = [] := by
        by_contra hne
        have hpos := Gap.byteSize_pos hne
        omega
      subst htaken
      rw [List.getLast?_singleton, Option.some_inj] at hc
      subst hc
      cases hblank
    · omega

/-- Where a line starts the scanner does not stand between two blanks. -/
theorem Placed.not_between_of_atLineStart (h : Placed source s) (hstart : s.atLineStart = true) :
    ¬s.Between := by
  unfold atLineStart at hstart
  rw [Bool.or_eq_true, beq_iff_eq, beq_iff_eq] at hstart
  rcases hstart with hbase | hfeed
  · exact h.not_between_of_le (Nat.le_of_eq hbase)
  · rintro ⟨⟨c, hc, hblank⟩, -⟩
    rw [hfeed, Option.mem_def, Option.some_inj] at hc
    subst hc
    cases hblank

/-! ## Steps -/

theorem InLine.next (h : s.InLine) (mode : Mode) : (s.next mode).2.InLine := by
  intro start hstart
  rcases recalls_next s mode start hstart with hbefore | ⟨-, -, -, hle⟩
  · have hoffset := (takes_next s mode).offset_eq
    have hstart := h start hbefore
    omega
  · exact hle

/-- A scanner in front of a run of blanks stands at the same place as itself. -/
theorem Placed.like_self (h : Placed source s) (hbase : s.base ≤ s.offset) {g : Gap} {left : Text}
    (hsplits : g.Splits (some left) s.rest s.rest) :
    ∃ front, byteSize front = s.offset + byteSize left ∧ g.Like front (some left) s s := by
  obtain ⟨taken, -, hoffset, hprevious⟩ := h.split
  have hfront : byteSize (taken ++ left) = s.offset + byteSize left := by
    rw [Text.byteSize_append, hoffset]
  have hle : ∀ content ∈ s.lineContent, content ≤ byteSize (taken ++ left) := by
    intro content hcontent
    rw [hfront]
    exact Nat.le_trans (h.inLine content hcontent) (Nat.le_add_right _ _)
  refine ⟨taken ++ left, hfront, ⟨hsplits, ?_, rfl, ?_, rfl, rfl, rfl, rfl, rfl, ?_, ?_⟩,
    h.queued g left hsplits⟩
  · rw [hoffset, hprevious]
    exact .ahead rfl
  · omega
  · cases hcontent : s.lineContent with
    | none => rfl
    | some content => rw [Option.map_some, Gap.place_of_le (hle content hcontent)]
  · exact fun content hcontent => .inl (hle content hcontent)

/-- What is read in any mode ends at no place within a run of blanks, if the run is not in front of a
line whose width counts. -/
theorem Placed.next_not_within (h : Placed source s) (wf : s.WellFormed) (hbase : s.base ≤ s.offset)
    {g : Gap} {left : Text} (hsplits : g.Splits (some left) s.rest s.rest)
    (hne : (s.next mode).1.text ≠ [])
    (htop : left = [] → mode = .bodyStart ∨ (mode = .body ∧ s.atLineStart = true) → s.top = 0) :
    byteSize (s.next mode).1.text ≤ byteSize left ∨
      byteSize left + byteSize g.old ≤ byteSize (s.next mode).1.text := by
  obtain ⟨front, hfront, hlike⟩ := h.like_self hbase hsplits
  have hindent : (s.next mode).1.kind ≠ .indent := by
    intro hkind
    rcases (step_next s mode).levels_cases wf with ⟨hlevel, -⟩ | ⟨-, width, htoken, -⟩ | ⟨-, hdedent, -⟩
    · rw [hkind] at hlevel
      cases hlevel
    · rw [htoken] at hne
      exact hne rfl
    · rw [hkind] at hdedent
      cases hdedent
  have hnone : s.offset = byteSize front →
      mode = .bodyStart ∨ (mode = .body ∧ s.atLineStart = true) → s.top = 0 := by
    intro hoffset
    apply htop
    by_contra hleft
    have hpos := Gap.byteSize_pos hleft
    omega
  obtain ⟨-, hafter⟩ := hlike.next wf hnone
  obtain ⟨spot, hlike'⟩ := hafter fun hkind => absurd hkind hindent
  have htakes := (takes_next s mode).offset_eq
  rcases hlike'.stands.outside with hout | hout
  · exact .inl (by omega)
  · exact .inr (by omega)

/-! ## The queue -/

/-- A piece that is taken does not end between two blanks, so that runs ahead of it are whole. -/
theorem Placed.queued_piece (h : Placed source s) (wf : s.WellFormed) {kind : Token.Kind} {size : Nat}
    {queued : List Interpreter.Piece} (hqueued : s.queued = (kind, size) :: queued) {g : Gap}
    {left : Text} (hsplits : g.Splits (some left) (s.rest.drop size) (s.rest.drop size)) :
    ∃ last, g.Queues (some left) queued queued last := by
  have hlength : (s.rest.take size).length = size := by
    have hfits := wf.fits
    rw [hqueued] at hfits
    simp only [Interpreter.total] at hfits
    rw [List.length_take]
    omega
  have hedge : left = [] → ∀ c ∈ (s.rest.take size).getLast?, isBlank c = false := by
    rintro rfl c hc
    by_contra hblank
    rw [Bool.not_eq_false] at hblank
    obtain ⟨whole, front, before, behind, hfront, hold, hne, hne', haround⟩ :=
      Gap.exists_around ⟨c, hc, hblank⟩ hsplits.head?_blank
    rw [List.take_append_drop] at haround
    obtain ⟨last, hqueues⟩ := h.queued whole front haround
    have hbefore := List.length_pos_iff.2 hne
    have hbehind := List.length_pos_iff.2 hne'
    have hsize := congrArg List.length hfront
    have hwhole := congrArg List.length hold
    rw [hlength, List.length_append] at hsize
    rw [List.length_append] at hwhole
    rw [hqueued] at hqueues
    -- The piece would end within the run around its end.
    cases hqueues with
    | cons _ hmeets _ =>
      cases hmeets with
      | within hle => omega
      | beyond more hmore _ => omega
  have hahead := hsplits.prepend hedge
  rw [List.take_append_drop] at hahead
  obtain ⟨last, hqueues⟩ := h.queued g _ hahead
  rw [hqueued] at hqueues
  cases hqueues with
  | cons _ _ hmore =>
    have hpast : Gap.past (some (s.rest.take size ++ left)) size = some left := by
      have hle : size ≤ (s.rest.take size ++ left).length := by
        rw [List.length_append]
        omega
      rw [Gap.past, if_pos hle, List.drop_append_of_le_length (Nat.le_of_eq hlength.symm),
        List.drop_eq_nil_of_le (Nat.le_of_eq hlength), List.nil_append]
    exact ⟨last, hpast ▸ hmore⟩

/-- The pieces of a shebang line take runs of blanks as a whole. -/
theorem queues_shebang {rest : Text} (hsigns : ['#', '!'].isPrefixOf rest = true) {g : Gap}
    {left : Text} (hsplits : g.Splits (some left) (rest.drop 2) (rest.drop 2)) :
    ∃ last, g.Queues (some left) (Interpreter.pieces ((rest.take (Measure.line rest)).drop 2))
      (Interpreter.pieces ((rest.take (Measure.line rest)).drop 2)) last := by
  obtain ⟨tail, rfl⟩ := List.isPrefixOf_iff_prefix.1 hsigns
  have hedge : left = [] → ∀ c ∈ ['#', '!'].getLast?, isBlank c = false := by
    intro _ c hc
    rw [List.getLast?_cons_cons, List.getLast?_singleton, Option.mem_def, Option.some_inj] at hc
    subst hc
    rfl
  exact Gap.exists_queues_line (hsplits.prepend hedge) hsigns

/-- The scanner stays in the source. -/
theorem Placed.next (h : Placed source s) (wf : s.WellFormed) (mode : Mode) :
    Placed source (s.next mode).2 := by
  have htakes := takes_next s mode
  have step := step_next s mode
  have hbase := step.base_eq
  have hprevious := step.previous_eq
  refine ⟨hbase.trans h.base, ?_, h.inLine.next mode, ?_⟩
  · obtain ⟨taken, hsource, hoffset, hlast⟩ := h.split
    refine ⟨taken ++ (s.next mode).1.text, ?_, ?_, ?_⟩
    · rw [List.append_assoc, htakes.text_append_rest]
      exact hsource
    · rw [Text.byteSize_append, ← hoffset]
      exact htakes.offset_eq
    · rw [hprevious, hlast, List.getLast?_append]
  · intro g left hsplits
    generalize s.next mode = out at step hsplits ⊢
    rcases step.queued_cases with hnil | ⟨kind, size, queued, hqueued, rfl⟩ |
      ⟨content, first, hsigns, rfl⟩
    · rw [hnil]
      exact ⟨some left, .nil _⟩
    · exact h.queued_piece wf hqueued hsplits
    · rw [shebang_rest] at hsplits
      rw [shebang_queued]
      exact queues_shebang hsigns hsplits

/-! ## Stops between blanks -/

/-- The indentation of a body line is about to be taken. -/
structure Indents (s : Scanner) (mode : Mode) : Prop where
  inBody : mode = .body
  atLineStart : s.atLineStart = true
  levels : s.levels ≠ []
  ready : s.Ready
  kind : (s.next mode).1.kind = .whitespace
  queued : (s.next mode).2.queued = []

theorem levels_ne_of_top (h : s.top ≠ 0) : s.levels ≠ [] :=
  fun hnil => h (top_of_levels hnil)

/-- Behind blanks at the start of a body line that has a width. -/
theorem Placed.indents (ready : s.Ready) (hstart : s.atLineStart = true) (htop : s.top ≠ 0)
    (hblank : ∃ c ∈ s.rest.head?, isBlank c = true) (hne : (s.next .body).1.text ≠ []) :
    s.Indents .body := by
  obtain ⟨c, rest, hrest, hblank⟩ := Measure.exists_cons_of_blank hblank
  have hwidth : 0 < Measure.indentation s.rest := by
    rw [hrest, Measure.indentation, List.takeWhile_cons_of_pos hblank]
    exact Nat.succ_pos _
  have hempty : s.rest.isEmpty = false := by
    rw [hrest]
    rfl
  have hnext : s.next .body = s.body := ready.next_eq .body
  -- What is taken are blanks, in front of the end of the line or of its contents.
  have htaken : (s.next .body).1.kind = .whitespace ∧ (s.next .body).2.queued = [] := by
    rw [hnext] at hne ⊢
    unfold body at hne ⊢
    rw [hempty, hstart] at hne ⊢
    simp only [Bool.false_eq_true, if_false, if_true, hwidth, Nat.pos_of_ne_zero htop] at hne ⊢
    split
    · exact ⟨rfl, ready.queued⟩
    · next hend =>
      split
      · next hnarrow =>
        rw [if_neg hend, if_pos hnarrow] at hne
        exact absurd rfl hne
      · exact ⟨rfl, ready.queued⟩
  exact ⟨rfl, hstart, levels_ne_of_top htop, ready, htaken.1, htaken.2⟩

/-- What is decided ahead does not depend on the mode. -/
theorem next_eq_normal (h : ¬s.Ready) (mode : Mode) : s.next mode = s.next .normal := by
  rcases s.ahead_cases with ⟨kind, size, queued, hqueued⟩ | ⟨hqueued, hbase⟩ |
    ⟨hqueued, hbase, count, hpending⟩ | ⟨hqueued, hbase, hpending, fault, hfault⟩ | ready
  · rw [next_of_queued hqueued, next_of_queued hqueued]
  · rw [next_of_lt_base hqueued hbase, next_of_lt_base hqueued hbase]
  · rw [next_of_pendingDedents hqueued hbase hpending,
      next_of_pendingDedents hqueued hbase hpending]
  · rw [next_of_pendingFault hqueued hbase hpending hfault,
      next_of_pendingFault hqueued hbase hpending hfault]
  · exact absurd ready h

/-- Between two blanks the scanner stops behind the indentation of a body line only. -/
theorem Placed.next_between (h : Placed source s) (wf : s.WellFormed)
    (hstart : mode = .bodyStart → s.levels = []) (hne : (s.next mode).1.text ≠ [])
    (hbetween : (s.next mode).2.Between) : s.Indents mode := by
  have htakes := takes_next s mode
  have hbase : s.base ≤ s.offset := by
    by_contra hlt
    have hlt := Nat.lt_of_not_le hlt
    have hmark := h.head?_of_lt hlt
    obtain ⟨hqueued, c, rest, hrest, -⟩ := wf.mark hlt
    have hnext : s.next mode = s.emit .whitespace 1 := next_of_lt_base hqueued hlt
    -- The byte order mark is no blank.
    obtain ⟨⟨d, hd, hblank⟩, -⟩ := hbetween
    rw [hrest, List.head?_cons, Option.some_inj] at hmark
    rw [hnext] at hd
    have htaken : (s.emit .whitespace 1).2.previous = some byteOrderMark := by
      simp [emit, hrest, hmark]
    rw [htaken, Option.mem_def, Option.some_inj] at hd
    subst hd
    cases hblank
  obtain ⟨⟨c, hc, hblank⟩, hhead⟩ := hbetween
  have hlast : c ∈ (s.next mode).1.text.getLast? := by
    rwa [(step_next s mode).previous_eq, List.getLast?_eq_some_getLast hne, Option.some_or,
      ← List.getLast?_eq_some_getLast hne] at hc
  obtain ⟨g, left, before, behind, htext, hold, hbefore, hbehind, hsplits⟩ :=
    Gap.exists_around ⟨c, hlast, hblank⟩ hhead
  rw [htakes.text_append_rest] at hsplits
  have hwithin : ∀ other : Mode, s.next other = s.next mode →
      ¬(left = [] → other = .bodyStart ∨ (other = .body ∧ s.atLineStart = true) → s.top = 0) := by
    intro other hsame htop
    have hne' : (s.next other).1.text ≠ [] := hsame ▸ hne
    have hnot := h.next_not_within wf hbase hsplits hne' htop
    have hpos := Gap.byteSize_pos hbefore
    have hpos' := Gap.byteSize_pos hbehind
    have hsize := congrArg byteSize htext
    have hwhole := congrArg byteSize hold
    rw [Text.byteSize_append] at hsize hwhole
    rw [hsame] at hnot
    omega
  have ready : s.Ready := by
    by_contra hready
    exact hwithin .normal (next_eq_normal hready mode).symm fun _ hmode => by
      rcases hmode with hmode | ⟨hmode, -⟩ <;> cases hmode
  have hmust := hwithin mode rfl
  simp only [Classical.not_imp] at hmust
  obtain ⟨rfl, hmode, htop⟩ := hmust
  rcases hmode with rfl | ⟨rfl, hline⟩
  · exact absurd (top_of_levels (hstart rfl)) htop
  · exact Placed.indents ready hline htop hsplits.head?_blank hne

/-- In front of a blank within a body line the text of the line is taken, or all of a line that fits no
level. -/
theorem next_in_line (wf : s.WellFormed) (hqueued : s.queued = []) (hbase : s.base ≤ s.offset)
    (hpending : s.pendingDedents = 0) (hline : s.atLineStart = false)
    (hblank : ∃ c ∈ s.rest.head?, isBlank c = true) :
    ((s.next .body).1.kind = .text ∨ ∃ fault, (s.next .body).1.kind = .errorRecovery fault) ∧
      (s.next .body).1.text ≠ [] := by
  obtain ⟨c, rest, hrest, hblank⟩ := Measure.exists_cons_of_blank hblank
  have hsize : ∀ {size : Nat}, 0 < size → s.rest.take size ≠ [] := by
    intro size hpos
    obtain ⟨size, rfl⟩ := Nat.exists_eq_succ_of_ne_zero (Nat.ne_of_gt hpos)
    rw [hrest, List.take_succ_cons]
    exact List.cons_ne_nil _ _
  cases hfault : s.pendingFault with
  | some fault =>
    have hnext : s.next .body =
        { s with pendingFault := none }.emit (.errorRecovery fault) (Measure.line s.rest) :=
      next_of_pendingFault hqueued hbase hpending hfault
    rw [hnext]
    exact ⟨.inr ⟨fault, rfl⟩, hsize (wf.fault fault hfault).2.2.1⟩
  | none =>
    have ready : s.Ready := ⟨hqueued, hbase, hpending, hfault⟩
    obtain ⟨hnewline, -, hdouble, -⟩ := Gap.starts_nothing hblank rest
    have hopens : Measure.opensInterpolation s.rest = false := by
      rw [hrest]
      unfold Measure.opensInterpolation
      rw [hdouble, Bool.false_and]
    have hcontent : ∀ t : Scanner, t.rest = s.rest →
        t.bodyContent = t.emit .text (Measure.run Measure.bodyUnit? s.rest) := by
      intro t ht
      unfold bodyContent
      rw [ht, hopens, hrest, hnewline]
      rfl
    have hsigns : ['#', '!'].isPrefixOf s.rest = false := by
      rw [hrest]
      exact Measure.isPrefixOf_stops (by decide) hblank [] rest
    have hprefix : Measure.linePrefix? s.rest = none := by
      rw [hrest]
      exact Measure.linePrefix?_stops.blank hblank [] rest
    have hempty : s.rest.isEmpty = false := by
      rw [hrest]
      rfl
    have hpos : 0 < Measure.run Measure.bodyUnit? s.rest := by
      rw [hrest]
      refine Measure.run_pos (Measure.bodyUnit?_isSome hnewline ?_)
      rw [← hrest]
      exact hopens
    rw [ready.next_eq .body]
    dsimp only
    unfold body bodyLine
    rw [hempty, hline, hsigns, hprefix, Bool.and_false]
    simp only [Bool.false_eq_true, if_false]
    -- What is remembered of the line makes no difference here.
    split
    · rw [hcontent { s with lineContent := none, firstBodyLine := false } rfl]
      exact ⟨.inl rfl, hsize hpos⟩
    · rw [hcontent s rfl]
      exact ⟨.inl rfl, hsize hpos⟩

end Places

end Scanner

end Justfile
