import Justfile.Proofs.Blank.Interpreter
import Justfile.Proofs.Simulation.Mirror

/-!
# The scanner across a gap

Two scanners stand at the same place of two texts that differ in a gap (`Gap.Like`): both in front of
it or both behind it, and they remember the same. Then their next tokens correspond, in every mode, and
they stand at the same place again (`Gap.Like.next`).

There are two exceptions, both where a line of a body could start with the gap: then its width would
count. A body that is opened there is remembered with another width, and the lines of an open body are
measured against its width.
-/

set_option autoImplicit false

namespace Justfile

open Text (byteSize)

/-- With no body open nothing is narrower than the innermost one. -/
theorem Scanner.top_of_levels {s : Scanner} (h : s.levels = []) : s.top = 0 := by
  unfold Scanner.top
  rw [h]
  rfl

namespace Gap

/-- Where an offset of the first source lies in the second, when the gap is not around it. -/
def place (g : Gap) (front : Text) (offset : Nat) : Nat :=
  if offset ≤ byteSize front then offset else offset + byteSize g.new - byteSize g.old

/-- The offset is not within the gap. -/
def Outside (g : Gap) (front : Text) (offset : Nat) : Prop :=
  offset ≤ byteSize front ∨ byteSize front + byteSize g.old ≤ offset

/-- Offsets in the two sources, and the characters in front of them: both in front of the gap, or both
behind it. -/
inductive Stands (g : Gap) (front : Text) :
    Option Text → Nat → Option Char → Nat → Option Char → Prop
  | ahead {taken left : Text} : front = taken ++ left →
      Stands g front (some left) (byteSize taken) taken.getLast? (byteSize taken) taken.getLast?
  | behind {offset offset' : Nat} {previous previous' : Option Char} :
      byteSize front + byteSize g.old ≤ offset →
      offset' + byteSize g.old = offset + byteSize g.new →
      (previous' = some '\n' ↔ previous = some '\n') →
      Stands g front none offset previous offset' previous'

/-- The two scanners stand at the same place and remember the same, but for pieces of a shebang line
that are decided. -/
structure Even (g : Gap) (front : Text) (spot : Option Text) (s t : Scanner) : Prop where
  text : g.Splits spot s.rest t.rest
  stands : g.Stands front spot s.offset s.previous t.offset t.previous
  base : t.base = s.base
  base_le : s.base ≤ byteSize front
  levels : t.levels = s.levels
  pendingDedents : t.pendingDedents = s.pendingDedents
  pendingFault : t.pendingFault = s.pendingFault
  firstBodyLine : t.firstBodyLine = s.firstBodyLine
  literalClosed : t.literalClosed = s.literalClosed
  line : t.lineContent = s.lineContent.map (g.place front)
  line_outside : ∀ content ∈ s.lineContent, g.Outside front content

/-- The two scanners stand at the same place and remember the same. -/
structure Like (g : Gap) (front : Text) (spot : Option Text) (s t : Scanner) : Prop
    extends Even g front spot s t where
  queued : ∃ last, g.Queues spot s.queued t.queued last

/-- Tokens that correspond, and scanners behind them that are at the same place. -/
def Agrees (g : Gap) (front : Text) (out out' : Token × Scanner) : Prop :=
  out.1.Mirrors (g.place front) out'.1 ∧ ∃ spot, g.Like front spot out.2 out'.2

section Gap

variable {g : Gap} {front : Text} {spot : Option Text} {s t : Scanner} {size size' : Nat}
  {offset offset' : Nat} {previous previous' : Option Char}

/-! ## Offsets -/

theorem byteSize_pos {text : Text} (h : text ≠ []) : 0 < byteSize text := by
  obtain ⟨c, rest, rfl⟩ := List.exists_cons_of_ne_nil h
  rw [Text.byteSize_cons]
  exact Nat.lt_of_lt_of_le c.utf8Size_pos (Nat.le_add_right _ _)

theorem old_bytes_pos (g : Gap) : 0 < byteSize g.old := byteSize_pos g.old_ne

theorem new_bytes_pos (g : Gap) : 0 < byteSize g.new := byteSize_pos g.new_ne

theorem place_of_le {offset : Nat} (h : offset ≤ byteSize front) : g.place front offset = offset :=
  if_pos h

theorem place_of_ge {offset : Nat} (h : byteSize front + byteSize g.old ≤ offset) :
    g.place front offset = offset + byteSize g.new - byteSize g.old := by
  have hpos := g.old_bytes_pos
  exact if_neg (by omega)

/-- Outside of the gap offsets keep their order. -/
theorem place_le_iff {first second : Nat} (hfirst : g.Outside front first)
    (hsecond : g.Outside front second) :
    g.place front first ≤ g.place front second ↔ first ≤ second := by
  have hold := g.old_bytes_pos
  have hnew := g.new_bytes_pos
  rcases hfirst with hfirst | hfirst
  · rcases hsecond with hsecond | hsecond
    · rw [place_of_le hfirst, place_of_le hsecond]
    · rw [place_of_le hfirst, place_of_ge hsecond]
      omega
  · rcases hsecond with hsecond | hsecond
    · rw [place_of_ge hfirst, place_of_le hsecond]
      omega
    · rw [place_of_ge hfirst, place_of_ge hsecond]
      omega

theorem place_inj {first second : Nat} (hfirst : g.Outside front first)
    (hsecond : g.Outside front second) :
    g.place front first = g.place front second ↔ first = second := by
  rw [Nat.le_antisymm_iff, place_le_iff hfirst hsecond, place_le_iff hsecond hfirst,
    ← Nat.le_antisymm_iff]

theorem Stands.offset_eq (h : g.Stands front spot offset previous offset' previous') :
    offset' = g.place front offset := by
  cases h with
  | ahead hfront =>
    refine (place_of_le ?_).symm
    rw [hfront, Text.byteSize_append]
    exact Nat.le_add_right _ _
  | behind hle hsum _ =>
    rw [place_of_ge hle]
    omega

theorem Stands.outside (h : g.Stands front spot offset previous offset' previous') :
    g.Outside front offset := by
  cases h with
  | ahead hfront =>
    refine .inl ?_
    rw [hfront, Text.byteSize_append]
    exact Nat.le_add_right _ _
  | behind hle _ _ => exact .inr hle

/-- The last of blanks is no line feed. -/
theorem getLast?_ne_feed {run : Text} (hrun : ∀ c ∈ run, Measure.isBlank c = true) :
    run.getLast? ≠ some '\n' := by
  intro hlast
  have hblank := hrun '\n' (List.mem_of_getLast? hlast)
  cases hblank

/-- Characters are taken in both sources. -/
theorem Stands.take {text text' : Text} (h : g.Stands front spot offset previous offset' previous')
    (htext : g.Splits spot text text') (hmeets : g.Meets spot size size') :
    g.Stands front (past spot size) (offset + byteSize (text.take size))
      ((text.take size).getLast?.or previous) (offset' + byteSize (text'.take size'))
      ((text'.take size').getLast?.or previous') := by
  cases h with
  | @ahead taken left hfront =>
    cases htext with
    | @ahead _ back hedge hback =>
      -- The token ends in front of the gap, or reaches behind it; then it takes the whole gap, and
      -- its last character is a line feed in both sources or in neither.
      cases hmeets with
      | within hle =>
        rw [List.take_append_of_le_length hle, List.take_append_of_le_length hle,
          ← Text.byteSize_append, ← List.getLast?_append, past, if_pos hle]
        apply Stands.ahead
        rw [List.append_assoc, List.take_append_drop]
        exact hfront
      | beyond more hsize hsize' =>
        have hold := g.old_length_pos
        have htake : ∀ run : Text, (left ++ (run ++ back)).take (left.length + run.length + more) =
            left ++ (run ++ back.take more) := by
          intro run
          rw [← List.append_assoc, ← List.length_append, List.take_length_add_append,
            List.append_assoc]
        have hlast : ∀ run : Text, (∀ c ∈ run, Measure.isBlank c = true) → run ≠ [] →
            (((left ++ (run ++ back.take more)).getLast?.or taken.getLast?) = some '\n' ↔
              (back.take more).getLast? = some '\n') := by
          intro run hrun hne
          have hnot := getLast?_ne_feed hrun
          cases hlast : (back.take more).getLast? with
          | none =>
            cases hrunLast : run.getLast? with
            | none => exact absurd (List.getLast?_eq_none_iff.1 hrunLast) hne
            | some c =>
              have hc : c ≠ '\n' := by
                rintro rfl
                exact hnot hrunLast
              simp [List.getLast?_append, hlast, hrunLast, hc]
          | some c => simp [List.getLast?_append, hlast]
        subst hsize hsize'
        rw [htake, htake, past, if_neg (by omega)]
        refine .behind ?_ ?_ ?_
        · rw [hfront]
          simp only [Text.byteSize_append]
          omega
        · simp only [Text.byteSize_append]
          omega
        · rw [hlast _ g.new_blank g.new_ne, hlast _ g.old_blank g.old_ne]
  | behind hle hsum hfeed =>
    cases htext with
    | behind =>
      cases hmeets
      refine .behind (Nat.le_trans hle (Nat.le_add_right _ _)) (by omega) ?_
      cases (text.take size).getLast? with
      | none => exact hfeed
      | some c => rfl

/-! ## What the two scanners have in common -/

theorem Even.like (h : g.Even front spot s t) (hs : s.queued = []) (ht : t.queued = []) :
    g.Like front spot s t := by
  refine ⟨h, spot, ?_⟩
  rw [hs, ht]
  exact .nil spot

theorem Even.top_eq (h : g.Even front spot s t) : t.top = s.top := by
  unfold Scanner.top
  rw [h.levels]

theorem Even.offset_beq_base (h : g.Even front spot s t) :
    (t.offset == t.base) = (s.offset == s.base) := by
  have hle := h.base_le
  have hold := g.old_bytes_pos
  have hnew := g.new_bytes_pos
  rw [h.base, Bool.eq_iff_iff, beq_iff_eq, beq_iff_eq]
  have hstands := h.stands
  generalize s.offset = offset, s.previous = previous at hstands ⊢
  generalize t.offset = offset', t.previous = previous' at hstands ⊢
  cases hstands with
  | ahead => rfl
  | behind hbehind hsum _ => omega

theorem Even.offset_lt_base (h : g.Even front spot s t) : t.offset < t.base ↔ s.offset < s.base := by
  have hle := h.base_le
  have hold := g.old_bytes_pos
  have hnew := g.new_bytes_pos
  rw [h.base]
  have hstands := h.stands
  generalize s.offset = offset, s.previous = previous at hstands ⊢
  generalize t.offset = offset', t.previous = previous' at hstands ⊢
  cases hstands with
  | ahead => rfl
  | behind hbehind hsum _ => omega

theorem Even.atLineStart_eq (h : g.Even front spot s t) : t.atLineStart = s.atLineStart := by
  have hfeed : (t.previous == some '\n') = (s.previous == some '\n') := by
    rw [Bool.eq_iff_iff, beq_iff_eq, beq_iff_eq]
    have hstands := h.stands
    generalize s.offset = offset, s.previous = previous at hstands ⊢
    generalize t.offset = offset', t.previous = previous' at hstands ⊢
    cases hstands with
    | ahead => rfl
    | behind _ _ hfeed => exact hfeed
  unfold Scanner.atLineStart
  rw [h.offset_beq_base, hfeed]

theorem Even.lineContent_beq_offset (h : g.Even front spot s t) :
    (t.lineContent == some t.offset) = (s.lineContent == some s.offset) := by
  rw [h.line, h.stands.offset_eq, Bool.eq_iff_iff, beq_iff_eq, beq_iff_eq]
  cases hline : s.lineContent with
  | none => simp
  | some content =>
    rw [Option.map_some, Option.some_inj, Option.some_inj]
    exact place_inj (h.line_outside content hline) h.stands.outside

/-- A scanner in front of the gap has nothing in front of it that is left. -/
theorem Even.spot_of_offset (h : g.Even front spot s t) :
    spot = some [] ↔ s.offset = byteSize front := by
  have hold := g.old_bytes_pos
  have hstands := h.stands
  generalize s.offset = offset, s.previous = previous at hstands ⊢
  generalize t.offset = offset', t.previous = previous' at hstands ⊢
  cases hstands with
  | @ahead taken left hfront =>
    rw [hfront, Text.byteSize_append]
    constructor
    · intro hspot
      obtain rfl := Option.some.inj hspot
      rfl
    · intro hsum
      have hzero : ¬0 < byteSize left := by omega
      by_contra hne
      exact hzero (byteSize_pos fun hnil => hne (by rw [hnil]))
  | behind hbehind _ _ =>
    constructor
    · exact nofun
    · intro heq
      omega

/-! ## Tokens -/

theorem mirrors_mark (h : g.Even front spot s t) {kind : Token.Kind} (hkind : kind ≠ .identifier)
    (indent indent' : Option Nat) :
    (s.mark kind indent).Mirrors (g.place front) (t.mark kind indent') := by
  refine ⟨rfl, ?_, fun heq => absurd heq hkind⟩
  simp only [Scanner.mark, Span.empty, Span.move, h.stands.offset_eq]

/-- Characters that end at the same place are taken. -/
theorem Even.emit (h : g.Even front spot s t) {kind : Token.Kind} (hmeets : g.Meets spot size size')
    (hword : kind = .identifier → t.rest.take size' = s.rest.take size)
    (hqueued : ∃ last, g.Queues (past spot size) s.queued t.queued last) :
    g.Agrees front (s.emit kind size) (t.emit kind size') := by
  have hstands := h.stands.take h.text hmeets
  refine ⟨⟨rfl, ?_, hword⟩, past spot size, ⟨h.text.drop hmeets, hstands, h.base, h.base_le, h.levels,
    h.pendingDedents, h.pendingFault, h.firstBodyLine, h.literalClosed, h.line, h.line_outside⟩,
    hqueued⟩
  simp only [Scanner.emit, Span.move, ← h.stands.offset_eq, ← hstands.offset_eq]

/-- Nothing is decided ahead of the characters. -/
theorem Even.emit_ready (h : g.Even front spot s t) (hs : s.queued = []) (ht : t.queued = [])
    {kind : Token.Kind} (hkind : kind ≠ .identifier) (hmeets : g.Meets spot size size') :
    g.Agrees front (s.emit kind size) (t.emit kind size') := by
  refine h.emit hmeets (fun heq => absurd heq hkind) ⟨past spot size, ?_⟩
  rw [hs, ht]
  exact .nil _

/-- A token without characters is given. -/
theorem Like.agrees_mark (h : g.Like front spot s t) {kind : Token.Kind} (hkind : kind ≠ .identifier)
    (indent : Option Nat) :
    g.Agrees front (s.mark kind indent, s) (t.mark kind indent, t) :=
  ⟨mirrors_mark h.toEven hkind _ _, spot, h⟩

theorem Even.forgetLine (h : g.Even front spot s t) :
    g.Even front spot { s with lineContent := none, firstBodyLine := false }
      { t with lineContent := none, firstBodyLine := false } :=
  ⟨h.text, h.stands, h.base, h.base_le, h.levels, h.pendingDedents, h.pendingFault, rfl,
    h.literalClosed, rfl, nofun⟩

theorem Even.withLiteral (h : g.Even front spot s t) (closed : Bool) :
    g.Even front spot { s with literalClosed := closed } { t with literalClosed := closed } :=
  ⟨h.text, h.stands, h.base, h.base_le, h.levels, h.pendingDedents, h.pendingFault, h.firstBodyLine,
    rfl, h.line, h.line_outside⟩

theorem Even.withLevels (h : g.Even front spot s t) (levels : List Nat) (first : Bool) :
    g.Even front spot { s with levels := levels, firstBodyLine := first }
      { t with levels := levels, firstBodyLine := first } :=
  ⟨h.text, h.stands, h.base, h.base_le, rfl, h.pendingDedents, h.pendingFault, rfl,
    h.literalClosed, h.line, h.line_outside⟩

/-- The start of the contents of a line is remembered, when it is at the same place. -/
theorem Even.enterLine (h : g.Even front spot s t) {content content' : Nat}
    (hplace : content' = g.place front content) (houtside : g.Outside front content) :
    g.Even front spot { s with lineContent := some content } { t with lineContent := some content' } := by
  refine ⟨h.text, h.stands, h.base, h.base_le, h.levels, h.pendingDedents, h.pendingFault,
    h.firstBodyLine, h.literalClosed, by rw [hplace]; rfl, ?_⟩
  rintro _ ⟨⟩
  exact houtside

/-! ## Shebang lines -/

/-- Pieces that are in front of the gap are the same in both texts. -/
theorem exists_queues_same {left : Text} {pieces : List Interpreter.Piece}
    (hle : Interpreter.total pieces ≤ left.length) :
    ∃ last, g.Queues (some left) pieces pieces last := by
  induction pieces generalizing left with
  | nil => exact ⟨some left, .nil _⟩
  | cons piece pieces ih =>
    obtain ⟨kind, size⟩ := piece
    simp only [Interpreter.total] at hle
    obtain ⟨last, hqueues⟩ := @ih (left.drop size) (by rw [List.length_drop]; omega)
    have hpast : past (some left) size = some (left.drop size) := if_pos (by omega)
    exact ⟨last, .cons kind (.within (by omega)) (hpast ▸ hqueues)⟩

theorem queues_refl (pieces : List Interpreter.Piece) : g.Queues none pieces pieces none := by
  induction pieces with
  | nil => exact .nil none
  | cons piece pieces ih =>
    obtain ⟨kind, size⟩ := piece
    exact .cons kind (.behind size) ih

/-- A shebang line is cut alike, whether it ends in front of the gap, holds it, or lies behind it. -/
theorem exists_queues_line {text text' : Text} (h : g.Splits spot text text')
    (hsigns : ['#', '!'].isPrefixOf text = true) :
    ∃ last, g.Queues (past spot 2)
      (Interpreter.pieces ((text.take (Measure.line text)).drop 2))
      (Interpreter.pieces ((text'.take (Measure.line text')).drop 2)) last := by
  have htwo : g.Meets spot 2 2 := h.meets_of_isPrefixOf (by decide) hsigns
  have hline := meets_line h
  generalize Measure.line text = size at hline ⊢
  generalize Measure.line text' = size' at hline ⊢
  cases h with
  | behind =>
    cases hline
    exact ⟨none, queues_refl _⟩
  | @ahead left back hedge hback =>
    have hle : 2 ≤ left.length := by
      rw [stops_old (Measure.isPrefixOf_stops (by decide))] at hsigns
      exact (List.isPrefixOf_iff_prefix.1 hsigns).length_le
    rw [past, if_pos hle]
    cases hline with
    | within hle' =>
      rw [List.take_append_of_le_length hle', List.take_append_of_le_length hle']
      apply exists_queues_same
      have htotal := (Interpreter.cuts_pieces ((left.take size).drop 2)).total_add
      rw [List.length_nil, Nat.add_zero, List.length_drop, List.length_take] at htotal
      rw [List.length_drop]
      omega
    | beyond more hsize hsize' =>
      subst hsize hsize'
      have htake : ∀ run : Text, ((left ++ (run ++ back)).take (left.length + run.length + more)).drop 2
          = left.drop 2 ++ (run ++ back.take more) := by
        intro run
        rw [← List.append_assoc, ← List.length_append, List.take_length_add_append,
          List.append_assoc, List.drop_append_of_le_length hle]
      rw [htake, htake]
      refine cuts_pieces (.ahead (edge_drop hedge 2) ?_)
      intro c hc
      rw [List.head?_take] at hc
      split at hc
      · cases hc
      · exact hback c hc

theorem Even.shebang (h : g.Even front spot s t) (hsigns : ['#', '!'].isPrefixOf s.rest = true) :
    g.Agrees front s.shebang t.shebang := by
  have heven : g.Even front spot
      { s with queued := Interpreter.pieces ((s.rest.take (Measure.line s.rest)).drop 2) }
      { t with queued := Interpreter.pieces ((t.rest.take (Measure.line t.rest)).drop 2) } :=
    ⟨h.text, h.stands, h.base, h.base_le, h.levels, h.pendingDedents, h.pendingFault,
      h.firstBodyLine, h.literalClosed, h.line, h.line_outside⟩
  unfold Scanner.shebang
  exact heven.emit (h.text.meets_of_isPrefixOf (by decide) hsigns) nofun
    (exists_queues_line h.text hsigns)

/-! ## Item level and literals -/

/-- A gap starts with a blank; otherwise the two texts start with the same character. -/
theorem cons_cases {c : Char} {rest text' : Text} (h : g.Splits spot (c :: rest) text') :
    ∃ c' rest', text' = c' :: rest' ∧
      ((Measure.isBlank c = true ∧ Measure.isBlank c' = true) ∨
        (c' = c ∧ Measure.isBlank c = false)) := by
  cases hblank : Measure.isBlank c with
  | true =>
    generalize htext : c :: rest = text at h
    cases h with
    | behind => exact ⟨c, rest, htext.symm, .inl ⟨rfl, hblank⟩⟩
    | @ahead left back _ _ =>
      cases left with
      | nil =>
        obtain ⟨blank, run, hnew, hisBlank, -⟩ := g.symm.old_eq_cons
        refine ⟨blank, run ++ back, ?_, .inl ⟨rfl, hisBlank⟩⟩
        rw [List.nil_append, show g.new = blank :: run from hnew, List.cons_append]
      | cons d left =>
        rw [List.cons_append] at htext
        obtain rfl := (List.cons.inj htext).1
        exact ⟨c, left ++ (g.new ++ back), rfl, .inl ⟨rfl, hblank⟩⟩
  | false =>
    generalize htext : c :: rest = text at h
    cases h with
    | behind => exact ⟨c, rest, htext.symm, .inr ⟨rfl, rfl⟩⟩
    | @ahead left back _ _ =>
      cases left with
      | nil =>
        obtain ⟨blank, run, hold, hisBlank, -⟩ := g.old_eq_cons
        rw [List.nil_append, hold, List.cons_append] at htext
        rw [(List.cons.inj htext).1, hisBlank] at hblank
        cases hblank
      | cons d left =>
        rw [List.cons_append] at htext
        obtain rfl := (List.cons.inj htext).1
        exact ⟨c, left ++ (g.new ++ back), rfl, .inr ⟨rfl, rfl⟩⟩

/-- A character that is no blank is not the first one of a gap. -/
theorem spot_ne_of_cons {c : Char} {rest text' : Text} (h : g.Splits spot (c :: rest) text')
    (hc : Measure.isBlank c = false) : spot ≠ some [] := by
  rintro rfl
  generalize htext : c :: rest = text at h
  cases h with
  | @ahead _ back _ _ =>
    obtain ⟨blank, run, hold, hisBlank, -⟩ := g.old_eq_cons
    rw [List.nil_append, hold, List.cons_append] at htext
    rw [(List.cons.inj htext).1, hisBlank] at hc
    cases hc

theorem normalToken_of_isBlank {c : Char} (hc : Measure.isBlank c = true) (s : Scanner) :
    s.normalToken c = s.emit .whitespace (Measure.blanks s.rest) := by
  unfold Scanner.normalToken
  rw [if_pos]
  rcases Measure.isBlank_iff.1 hc with rfl | rfl <;> rfl

section Ready

variable (hs : s.queued = []) (ht : t.queued = [])
include hs ht

theorem Even.normalToken (h : g.Even front spot s t) {c : Char} {rest rest' : Text}
    (hrest : s.rest = c :: rest) (hrest' : t.rest = c :: rest') (hc : Measure.isBlank c = false) :
    g.Agrees front (s.normalToken c) (t.normalToken c) := by
  have hemit : ∀ {kind : Token.Kind} {size size' : Nat}, kind ≠ .identifier →
      g.Meets spot size size' → g.Agrees front (s.emit kind size) (t.emit kind size') :=
    fun hkind hmeets => h.emit_ready hs ht hkind hmeets
  have hopen : ∀ {kind : Token.Kind} {size size' : Nat}, kind ≠ .identifier →
      g.Meets spot size size' → g.Agrees front (s.openLiteral kind size) (t.openLiteral kind size') :=
    fun hkind hmeets => (h.withLiteral false).emit_ready hs ht hkind hmeets
  have hone : g.Meets spot 1 1 := h.text.meets_one (spot_ne_of_cons (hrest ▸ h.text) hc)
  unfold Scanner.normalToken
  rw [h.text.same Dialect.detect?_stops.blank, h.text.same Mark.detect?_stops.blank,
    h.text.same (Measure.isPrefixOf_stops (Measure.isBlank_commandDelimiter true))]
  split
  · exact hemit nofun (meets_blanks h.text)
  · split
    · exact hemit nofun (meets_line h.text)
    · split
      · have hcontinues := meets_continuation? h.text
        generalize Measure.continuation? s.rest = found at hcontinues ⊢
        generalize Measure.continuation? t.rest = found' at hcontinues ⊢
        cases hcontinues with
        | none => exact hemit nofun hone
        | some hmeets => exact hemit nofun hmeets
      · cases hdialect : Dialect.detect? s.rest with
        | some dialect =>
          exact hopen nofun (h.text.meets_of_isPrefixOf dialect.isBlank_opening
            (Dialect.isPrefixOf_of_detect? hdialect))
        | none =>
          dsimp only
          split
          · next htick =>
            -- A backtick opens a command, by three of them or by one.
            refine hopen nofun (h.text.meets_of_isPrefixOf (Measure.isBlank_commandDelimiter _) ?_)
            cases hindented : (Measure.commandDelimiter true).isPrefixOf s.rest with
            | true => exact hindented
            | false =>
              obtain rfl := beq_iff_eq.1 htick
              rw [hrest]
              rfl
          · split
            · rw [h.text.same Measure.number_stops.blank]
              exact hemit nofun (h.text.meets_of_stops Measure.number_stops.blank Measure.number_le)
            · split
              · -- A name is in front of the gap, so that its characters are the same.
                refine h.emit ?_ (fun _ => h.text.same Measure.take_identifier_stops.blank) ?_
                · rw [h.text.same Measure.identifier_stops.blank]
                  exact h.text.meets_of_stops Measure.identifier_stops.blank Measure.identifier_le
                · rw [hs, ht]
                  exact ⟨_, .nil _⟩
              · cases hsign : Mark.detect? s.rest with
                | some sign =>
                  exact hemit nofun (h.text.meets_of_some (Mark.detect?_stops.blank.map fun sign => sign.map Mark.length)
                    (fun hsome => by
                      obtain ⟨sign, hsign, rfl⟩ := Option.map_eq_some_iff.1 hsome
                      exact Mark.length_le hsign) (by rw [hsign]; rfl))
                | none => exact hemit nofun hone

theorem Even.normal (h : g.Even front spot s t) : g.Agrees front s.normal t.normal := by
  have hbase := h.offset_beq_base
  have hsigns : ['#', '!'].isPrefixOf t.rest = ['#', '!'].isPrefixOf s.rest :=
    h.text.same (Measure.isPrefixOf_stops (by decide))
  have hnewline : Measure.newline? t.rest = Measure.newline? s.rest :=
    h.text.same Measure.newline?_stops
  unfold Scanner.normal
  cases hrest : s.rest with
  | nil =>
    have hempty := h.text.isEmpty_eq
    rw [hrest] at hempty
    rw [List.isEmpty_iff.1 (hempty.trans rfl)]
    exact (h.like hs ht).agrees_mark (by decide) none
  | cons c rest =>
    obtain ⟨c', rest', hrest', hcases⟩ := cons_cases (hrest ▸ h.text)
    rw [hrest']
    dsimp only
    rw [← hrest', ← hrest, hbase, hsigns, hnewline]
    split
    · next hshebang => exact h.shebang (Bool.and_eq_true_iff.1 hshebang).2
    · cases hline : Measure.newline? s.rest with
      | some size =>
        exact h.emit_ready hs ht nofun
          (h.text.meets_of_some Measure.newline?_stops Measure.newline?_le hline)
      | none =>
        dsimp only
        rcases hcases with ⟨hblank, hblank'⟩ | ⟨rfl, hblank⟩
        · rw [normalToken_of_isBlank hblank, normalToken_of_isBlank hblank']
          exact h.emit_ready hs ht nofun (meets_blanks h.text)
        · exact h.normalToken hs ht hrest hrest' hblank

theorem Even.unterminated (h : g.Even front spot s t) (fault : Fault) :
    g.Agrees front (s.unterminated fault) (t.unterminated fault) := by
  unfold Scanner.unterminated
  rw [h.literalClosed, h.text.isEmpty_eq]
  split
  · exact (h.like hs ht).agrees_mark (by decide) none
  · exact (h.withLiteral true).emit_ready hs ht nofun (meets_length h.text)

theorem Even.content (h : g.Even front spot s t) {kind : Token.Kind} {fault : Fault}
    {unit? : Text → Option Nat} (across : ReadsAcross unit?) (hkind : kind ≠ .identifier) :
    g.Agrees front (s.content kind fault unit?) (t.content kind fault unit?) := by
  have hrun := meets_run across h.text
  unfold Scanner.content
  dsimp only
  rw [(h.text.drop hrun).isEmpty_eq]
  split
  · exact h.unterminated hs ht fault
  · exact h.emit_ready hs ht hkind hrun

theorem Even.stringContent (h : g.Even front spot s t) (d : Dialect) :
    g.Agrees front (s.stringContent d) (t.stringContent d) := by
  unfold Scanner.stringContent
  rw [h.text.same (Measure.isPrefixOf_stops d.isBlank_closing), h.text.isEmpty_eq,
    h.text.same Measure.escape?_stops, h.text.same Measure.opensInterpolation_stops.blank]
  split
  · next hclose =>
    exact (h.withLiteral true).emit_ready hs ht nofun
      (h.text.meets_of_isPrefixOf d.isBlank_closing hclose)
  · split
    · exact h.unterminated hs ht _
    · cases hescape : (if d.readsEscapes = true then Measure.escape? s.rest else none) with
      | some size =>
        split at hescape
        · exact h.emit_ready hs ht nofun
            (h.text.meets_of_some Measure.escape?_stops Measure.escape?_le hescape)
        · cases hescape
      | none =>
        dsimp only
        split
        · next hopen =>
          exact h.emit_ready hs ht nofun (meets_opensInterpolation h.text (Bool.and_eq_true_iff.1 hopen).2)
        · exact h.content hs ht (stringUnit?_across d) nofun

theorem Even.commandContent (h : g.Even front spot s t) (indented : Bool) :
    g.Agrees front (s.commandContent indented) (t.commandContent indented) := by
  have hdelimiter := Measure.isBlank_commandDelimiter indented
  unfold Scanner.commandContent
  dsimp only
  rw [h.text.same (Measure.isPrefixOf_stops hdelimiter), h.text.isEmpty_eq,
    h.text.same Measure.opensInterpolation_stops.blank]
  split
  · next hclose =>
    exact (h.withLiteral true).emit_ready hs ht nofun (h.text.meets_of_isPrefixOf hdelimiter hclose)
  · split
    · exact h.unterminated hs ht _
    · split
      · next hopen => exact h.emit_ready hs ht nofun (meets_opensInterpolation h.text hopen)
      · exact h.content hs ht (commandUnit?_across indented) nofun

/-! ## Bodies -/

theorem Even.bodyStart (h : g.Even front spot s t) (htop : spot = some [] → s.top = 0) :
    s.bodyStart.1.Mirrors (g.place front) t.bodyStart.1 ∧
      ((s.bodyStart.1.kind = .indent → spot ≠ some []) →
        ∃ spot', g.Like front spot' s.bodyStart.2 t.bodyStart.2) := by
  have hblank := meets_blankLines h.text
  have hzero := hblank.eq_zero_iff
  unfold Scanner.bodyStart
  generalize Measure.blankLines s.rest = size at hblank hzero ⊢
  generalize Measure.blankLines t.rest = size' at hblank hzero ⊢
  cases size with
  | succ size =>
    obtain ⟨size', rfl⟩ : ∃ more, size' = more + 1 := by
      apply Nat.exists_eq_succ_of_ne_zero
      intro hnone
      cases hzero.2 hnone
    have hemit := h.emit_ready hs ht (by decide : Token.Kind.whitespace ≠ .identifier) hblank
    exact ⟨hemit.1, fun _ => hemit.2⟩
  | zero =>
    obtain rfl := hzero.1 rfl
    have hwidth := meets_indentation h.text
    have hend := (h.text.drop hwidth).atLineEnd_eq
    have hdeeper : t.top < Measure.indentation t.rest ↔ s.top < Measure.indentation s.rest := by
      rw [h.top_eq]
      by_cases hspot : spot = some []
      · -- No body is open, so that any width is deeper.
        have hpos := hwidth.eq_zero_iff
        rw [htop hspot]
        omega
      · rw [indentation_eq h.text hspot]
    dsimp only
    simp only [hend, hdeeper]
    split
    · refine ⟨mirrors_mark h (by decide) _ _, fun hspot => ?_⟩
      rw [indentation_eq h.text (hspot rfl), h.levels]
      exact ⟨spot, (h.withLevels _ true).like hs ht⟩
    · have hnormal := h.normal hs ht
      exact ⟨hnormal.1, fun _ => hnormal.2⟩

theorem Even.dedentTo (h : g.Even front spot s t) (width : Nat) :
    g.Agrees front (s.dedentTo width) (t.dedentTo width) := by
  have htop := h.top_eq
  have heven : g.Even front spot (s.dedentTo width).2 (t.dedentTo width).2 := by
    refine ⟨h.text, h.stands, h.base, h.base_le, ?_, ?_, ?_, h.firstBodyLine, h.literalClosed, h.line,
      h.line_outside⟩
    all_goals
      simp only [Scanner.dedentTo, h.levels, htop, h.pendingFault]
  exact ⟨mirrors_mark heven (by decide) _ _, spot, heven.like hs ht⟩

theorem Even.bodyContent (h : g.Even front spot s t) :
    g.Agrees front s.bodyContent t.bodyContent := by
  unfold Scanner.bodyContent
  rw [h.text.same Measure.newline?_stops, h.text.same Measure.opensInterpolation_stops.blank]
  cases hline : Measure.newline? s.rest with
  | some size =>
    exact h.emit_ready hs ht nofun
      (h.text.meets_of_some Measure.newline?_stops Measure.newline?_le hline)
  | none =>
    dsimp only
    split
    · next hopen => exact h.emit_ready hs ht nofun (meets_opensInterpolation h.text hopen)
    · exact h.emit_ready hs ht nofun (meets_run bodyUnit?_across h.text)

theorem Even.bodyLine (h : g.Even front spot s t) : g.Agrees front s.bodyLine t.bodyLine := by
  have hsigns : ['#', '!'].isPrefixOf t.rest = ['#', '!'].isPrefixOf s.rest :=
    h.text.same (Measure.isPrefixOf_stops (by decide))
  unfold Scanner.bodyLine
  dsimp only
  rw [h.lineContent_beq_offset, h.firstBodyLine, hsigns, h.text.same Measure.linePrefix?_stops.blank]
  split
  · split
    · next hopens => exact h.forgetLine.shebang (Bool.and_eq_true_iff.1 hopens).2
    · cases hprefix : Measure.linePrefix? s.rest with
      | some size =>
        exact h.forgetLine.emit_ready hs ht nofun
          (h.text.meets_of_some Measure.linePrefix?_stops.blank Measure.linePrefix?_le hprefix)
      | none => exact h.forgetLine.bodyContent hs ht
  · exact h.bodyContent hs ht

theorem Even.body (h : g.Even front spot s t)
    (htop : spot = some [] → s.atLineStart = true → s.top = 0) :
    g.Agrees front s.body t.body := by
  have hwidth := meets_indentation h.text
  have hzero := hwidth.eq_zero_iff
  unfold Scanner.body
  rw [h.text.isEmpty_eq, h.atLineStart_eq]
  split
  · rw [h.levels]
    cases hopen : s.levels with
    | nil => exact (h.like hs ht).agrees_mark (by decide) none
    | cons width levels =>
      have heven : g.Even front spot { s with levels := levels } { t with levels := levels } :=
        ⟨h.text, h.stands, h.base, h.base_le, rfl, h.pendingDedents, h.pendingFault, h.firstBodyLine,
          h.literalClosed, h.line, h.line_outside⟩
      exact ⟨mirrors_mark heven (by decide) _ _, spot, heven.like hs ht⟩
  · split
    · next hstart =>
      dsimp only
      rw [(h.text.drop hwidth).atLineEnd_eq, h.top_eq]
      split
      · have hpos : 0 < Measure.indentation t.rest ↔ 0 < Measure.indentation s.rest := by omega
        simp only [hpos]
        split
        · exact h.emit_ready hs ht nofun hwidth
        · exact h.bodyLine hs ht
      · -- At the gap no level is open, so that no line is too narrow there.
        have hsame : (Measure.indentation t.rest < s.top) = (Measure.indentation s.rest < s.top) := by
          by_cases hspot : spot = some []
          · rw [htop hspot hstart]
            simp
          · rw [indentation_eq h.text hspot]
        simp only [hsame]
        split
        · next hnarrow =>
          have hspot : spot ≠ some [] := by
            intro hspot
            rw [htop hspot hstart] at hnarrow
            exact absurd hnarrow (Nat.not_lt_zero _)
          rw [indentation_eq h.text hspot]
          exact h.dedentTo hs ht _
        · next hwide =>
          split
          · next hpos =>
            have hspot : spot ≠ some [] := by
              intro hspot
              rw [htop hspot hstart] at hpos
              exact absurd hpos (Nat.lt_irrefl 0)
            have hle := Nat.le_of_not_lt hwide
            have hle' : s.top ≤ Measure.indentation t.rest := by
              rw [indentation_eq h.text hspot]
              exact hle
            have hmeets := meets_of_le_indentation h.text hspot hle
            -- The contents start where the token ends.
            have hstands := h.stands.take h.text hmeets
            rw [Measure.byteSize_take_of_le_indentation hle,
              Measure.byteSize_take_of_le_indentation hle'] at hstands
            exact (h.enterLine hstands.offset_eq hstands.outside).emit_ready hs ht (by decide) hmeets
          · next hpos =>
            have hnone : s.top = 0 := Nat.eq_zero_of_not_pos hpos
            rw [hnone, Nat.add_zero, Nat.add_zero]
            exact (h.enterLine h.stands.offset_eq h.stands.outside).bodyLine hs ht
    · exact h.bodyLine hs ht

end Ready

/-! ## Any step -/

theorem Like.queued_nil (h : g.Like front spot s t) : t.queued = [] ↔ s.queued = [] := by
  obtain ⟨last, hqueued⟩ := h.queued
  rw [← List.isEmpty_iff, ← List.isEmpty_iff, hqueued.isEmpty_eq]

/-- The next tokens correspond, and so do the scanners behind them, unless a body was opened in front of
the gap. In front of the gap no width may be
asked for while a body is open. -/
theorem Like.next (h : g.Like front spot s t) (wf : s.WellFormed) {mode : Mode}
    (htop : s.offset = byteSize front →
      mode = .bodyStart ∨ (mode = .body ∧ s.atLineStart = true) → s.top = 0) :
    (s.next mode).1.Mirrors (g.place front) (t.next mode).1 ∧
      (((s.next mode).1.kind = .indent → s.offset ≠ byteSize front) →
        ∃ spot', g.Like front spot' (s.next mode).2 (t.next mode).2) := by
  have hspot := h.spot_of_offset
  have hagrees : ∀ {out out' : Token × Scanner}, g.Agrees front out out' →
      out.1.Mirrors (g.place front) out'.1 ∧
        ((out.1.kind = .indent → s.offset ≠ byteSize front) →
          ∃ spot', g.Like front spot' out.2 out'.2) :=
    fun hout => ⟨hout.1, fun _ => hout.2⟩
  have hbehind : s.base ≤ s.offset → t.base ≤ t.offset :=
    fun hbase => Nat.le_of_not_lt (mt h.offset_lt_base.1 (Nat.not_lt.2 hbase))
  -- One case for each thing that may be ahead, in the order in which the scanner looks for them.
  rcases s.ahead_cases with ⟨kind, size, queued, hqueued⟩ | ⟨hs, hbase⟩ | ⟨hs, hbase, count, hcount⟩ |
    ⟨hs, hbase, hcount, fault, hfault⟩ | ready
  · obtain ⟨last, hpieces⟩ := h.queued
    have hkind := (Scanner.ne_nil_of_queued wf hqueued).2.2
    rw [hqueued] at hpieces
    generalize hqueued' : t.queued = queued' at hpieces
    cases hpieces with
    | @cons _ _ _ size' _ pieces' _ hmeets hrest =>
      have heven : g.Even front spot { s with queued := queued } { t with queued := pieces' } :=
        ⟨h.text, h.stands, h.base, h.base_le, h.levels, h.pendingDedents, h.pendingFault,
          h.firstBodyLine, h.literalClosed, h.line, h.line_outside⟩
      rw [Scanner.next_of_queued hqueued, Scanner.next_of_queued hqueued']
      refine hagrees (heven.emit hmeets ?_ ⟨last, hrest⟩)
      rintro rfl
      cases hkind
  · have ht := h.queued_nil.2 hs
    -- The gap does not lie in front of the mark.
    have hne : spot ≠ some [] := by
      intro heq
      have hle := h.base_le
      have hoffset := hspot.1 heq
      omega
    rw [Scanner.next_of_lt_base hs hbase, Scanner.next_of_lt_base ht (h.offset_lt_base.2 hbase)]
    exact hagrees (h.emit_ready hs ht nofun (h.text.meets_one hne))
  · have ht := h.queued_nil.2 hs
    have heven : g.Even front spot { s with pendingDedents := count } { t with pendingDedents := count } :=
      ⟨h.text, h.stands, h.base, h.base_le, h.levels, rfl, h.pendingFault, h.firstBodyLine,
        h.literalClosed, h.line, h.line_outside⟩
    rw [Scanner.next_of_pendingDedents hs hbase hcount,
      Scanner.next_of_pendingDedents ht (hbehind hbase) (h.pendingDedents.trans hcount)]
    exact hagrees ⟨mirrors_mark heven (by decide) _ _, spot, heven.like hs ht⟩
  · have ht := h.queued_nil.2 hs
    have heven : g.Even front spot { s with pendingFault := none } { t with pendingFault := none } :=
      ⟨h.text, h.stands, h.base, h.base_le, h.levels, h.pendingDedents, rfl, h.firstBodyLine,
        h.literalClosed, h.line, h.line_outside⟩
    rw [Scanner.next_of_pendingFault hs hbase hcount hfault,
      Scanner.next_of_pendingFault ht (hbehind hbase) (h.pendingDedents.trans hcount)
        (h.pendingFault.trans hfault)]
    exact hagrees (heven.emit_ready hs ht nofun (meets_line h.text))
  · have hs := ready.queued
    have ht := h.queued_nil.2 hs
    have ready' : t.Ready := ⟨ht, hbehind ready.base_le, h.pendingDedents.trans ready.pendingDedents,
      h.pendingFault.trans ready.pendingFault⟩
    rw [ready.next_eq, ready'.next_eq]
    cases mode with
    | normal => exact hagrees (h.normal hs ht)
    -- Where a body is opened right in front of the gap, its width may differ.
    | bodyStart =>
      have hstart := h.toEven.bodyStart hs ht fun heq => htop (hspot.1 heq) (.inl rfl)
      refine ⟨hstart.1, fun hindent => hstart.2 fun hkind heq => ?_⟩
      exact hindent hkind (hspot.1 heq)
    | body =>
      exact hagrees (h.body hs ht fun heq hstart => htop (hspot.1 heq) (.inr ⟨rfl, hstart⟩))
    | stringContent dialect => exact hagrees (h.stringContent hs ht dialect)
    | commandContent indented => exact hagrees (h.commandContent hs ht indented)

end Gap

end Gap

end Justfile
