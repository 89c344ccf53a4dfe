import Justfile.Proofs.Append.Scanner
import Justfile.Proofs.Simulation.Mirror

/-!
# Scanning the second of two texts

A scanner at the start of a text is compared with one that came to the same text behind another one
(`Shifted`). The characters ahead are the same, and both stand at the start of a line, with no body open.
The second one may remember a literal or a body of the first text. That is asked for by no token, before
another literal or body is opened. So both scanners give the same tokens, at places that are apart by the
size of the first text (`shifted`).
-/

set_option autoImplicit false

namespace Justfile

open Justfile.Measure

/-- The span further on by a number of bytes. -/
abbrev shift (size : Nat) (offset : Nat) : Nat := offset + size

namespace Scanner

variable {size : Nat} {r r' : Recall} {s t : Scanner}

/-- The first scanner reads a text from its start on, and the second one the same text behind another one
of the given size. -/
structure Shifted (size : Nat) (r : Recall) (s t : Scanner) : Prop where
  rest : t.rest = s.rest
  offset : t.offset = shift size s.offset
  base : s.base = 0
  base_le : t.base ≤ size
  /-- Where the text starts, an item starts. -/
  start : s.offset = 0 → StartsItem s.rest
  /-- The first text ended with a line. -/
  previous : (s.offset = 0 ∧ t.previous = some '\n') ∨ (0 < s.offset ∧ t.previous = s.previous)
  levels : t.levels = s.levels
  queued : t.queued = s.queued
  pendingDedents : t.pendingDedents = s.pendingDedents
  pendingFault : t.pendingFault = s.pendingFault
  /-- A line of the first text is remembered by the second scanner at most. -/
  lineContent : ∀ start, t.lineContent = some (shift size start) ↔ s.lineContent = some start
  literal : r.literal → t.literalClosed = s.literalClosed
  body : r.body → t.firstBodyLine = s.firstBodyLine

/-- The two steps give the same token, and scanners that are shifted again. -/
def Shifts (size : Nat) (r : Recall) (out out' : Token × Scanner) : Prop :=
  out.1.Mirrors (shift size) out'.1 ∧ Shifted size (r.behind out.1.kind) out.2 out'.2

/-- Tokens of the kind open a literal or a body. -/
def opensSomething (kind : Token.Kind) : Bool := kind.opensLiteral || kind == .indent

/-- A token that opens nothing makes nothing known. -/
theorem Recall.behind_le {kind : Token.Kind} (hplain : opensSomething kind = false) (r : Recall) :
    r.behind kind ≤ r := by
  unfold opensSomething at hplain
  rw [Bool.or_eq_false_iff, beq_eq_false_iff_ne] at hplain
  refine ⟨fun h => h.resolve_right fun hkind => ?_, fun h => h.resolve_right hplain.2⟩
  rw [hkind] at hplain
  cases hplain.1

namespace Shifted

theorem mono (hle : r' ≤ r) (h : Shifted size r s t) : Shifted size r' s t :=
  { h with literal := fun hr => h.literal (hle.1 hr), body := fun hr => h.body (hle.2 hr) }

theorem top (h : Shifted size r s t) : t.top = s.top := by
  unfold Scanner.top
  rw [h.levels]

theorem atLineStart (h : Shifted size r s t) : t.atLineStart = s.atLineStart := by
  have hoffset := h.offset
  have hbase := h.base
  have hbase' := h.base_le
  unfold Scanner.atLineStart
  unfold shift at hoffset
  rcases h.previous with ⟨hzero, hprevious⟩ | ⟨hpos, hprevious⟩
  · rw [hprevious, hzero, hbase]
    simp
  · have hne : (t.offset == t.base) = false := beq_eq_false_iff_ne.2 (by omega)
    have hne' : (s.offset == s.base) = false := beq_eq_false_iff_ne.2 (by omega)
    rw [hne, hne', hprevious]

/-- No shebang starts the text. -/
theorem shebang_eq (h : Shifted size r s t) :
    (s.offset == s.base && ['#', '!'].isPrefixOf s.rest) = false ∧
      (t.offset == t.base && ['#', '!'].isPrefixOf t.rest) = false := by
  have hoffset := h.offset
  have hbase := h.base
  have hbase' := h.base_le
  unfold shift at hoffset
  rw [h.rest]
  rcases Nat.eq_zero_or_pos s.offset with hzero | hpos
  · obtain ⟨c, rest, hrest, hc⟩ := (h.start hzero).exists_cons
    have hsign : '#' ≠ c := Ne.symm (ne_of_startsItem hc (by decide))
    simp [hrest, List.isPrefixOf, hsign]
  · have hne : (t.offset == t.base) = false := beq_eq_false_iff_ne.2 (by omega)
    have hne' : (s.offset == s.base) = false := beq_eq_false_iff_ne.2 (by omega)
    rw [hne, hne']
    exact ⟨rfl, rfl⟩

theorem atContent (h : Shifted size r s t) :
    (t.lineContent == some t.offset) = (s.lineContent == some s.offset) := by
  rw [Bool.eq_iff_iff, beq_iff_eq, beq_iff_eq, h.offset]
  exact h.lineContent s.offset

/-! ## Tokens -/

theorem mark (h : Shifted size r s t) (kind : Token.Kind) (indent indent' : Option Nat) :
    (s.mark kind indent).Mirrors (shift size) (t.mark kind indent') := by
  refine ⟨rfl, ?_, fun _ => rfl⟩
  unfold Scanner.mark Span.empty Span.move
  rw [h.offset]

/-- A token with characters. -/
theorem emit (h : Shifted size r s t) {kind : Token.Kind} (hle : r'.behind kind ≤ r) (count : Nat) :
    Shifts size r' (s.emit kind count) (t.emit kind count) := by
  have hoffset := h.offset
  unfold shift at hoffset
  have hbytes : t.offset + Text.byteSize (s.rest.take count) =
      s.offset + Text.byteSize (s.rest.take count) + size := by omega
  unfold Scanner.emit Shifts
  rw [h.rest]
  refine ⟨⟨rfl, ?_, fun _ => rfl⟩, ?_⟩
  · unfold Span.move
    dsimp only
    rw [hbytes, hoffset]
  · refine Shifted.mono hle { h with
      rest := rfl
      offset := hbytes
      start := ?_
      previous := ?_ }
    · dsimp only
      intro hzero
      have hnil : s.rest.take count = [] := by
        cases htake : s.rest.take count with
        | nil => rfl
        | cons c taken =>
          rw [htake, Text.byteSize_cons] at hzero
          have hsize := c.utf8Size_pos
          omega
      have hdrop := List.take_append_drop count s.rest
      rw [hnil, List.nil_append] at hdrop
      rw [hdrop]
      exact h.start (by omega)
    · cases htake : s.rest.take count with
      | nil => exact h.previous
      | cons c taken =>
        have hsize := c.utf8Size_pos
        refine .inr ⟨?_, ?_⟩
        · change 0 < s.offset + Text.byteSize (c :: taken)
          rw [Text.byteSize_cons]
          omega
        · change (c :: taken).getLast?.or t.previous = (c :: taken).getLast?.or s.previous
          rw [List.getLast?_eq_some_getLast (List.cons_ne_nil c taken), Option.some_or, Option.some_or]

/-- A token that opens nothing. -/
theorem plain (h : Shifted size r s t) {kind : Token.Kind} (hplain : opensSomething kind = false)
    {count : Nat} : Shifts size r (s.emit kind count) (t.emit kind count) :=
  h.emit (Recall.behind_le hplain r) count

theorem openLiteral (h : Shifted size r s t) {kind : Token.Kind} (hopens : kind.opensLiteral = true)
    {count : Nat} : Shifts size r (s.openLiteral kind count) (t.openLiteral kind count) := by
  have hopened : Shifted size ⟨True, r.body⟩ { s with literalClosed := false }
      { t with literalClosed := false } := { h with literal := fun _ => rfl, body := h.body }
  have hle : r.behind kind ≤ ⟨True, r.body⟩ := by
    refine ⟨fun _ => trivial, fun hbody => hbody.resolve_right ?_⟩
    rintro rfl
    cases hopens
  exact hopened.emit hle count

theorem closeLiteral (h : Shifted size r s t) {kind : Token.Kind}
    (hplain : opensSomething kind = false) {count : Nat} :
    Shifts size r (s.closeLiteral kind count) (t.closeLiteral kind count) := by
  have hclosed : Shifted size ⟨True, r.body⟩ { s with literalClosed := true }
      { t with literalClosed := true } := { h with literal := fun _ => rfl, body := h.body }
  have hle : r.behind kind ≤ ⟨True, r.body⟩ := by
    refine ⟨fun _ => trivial, fun hbody => hbody.resolve_right ?_⟩
    rintro rfl
    cases hplain
  exact hclosed.emit hle count

/-- A token without characters, that leaves the scanner as it is. -/
theorem stay (h : Shifted size r s t) {kind : Token.Kind} (hplain : opensSomething kind = false) :
    Shifts size r (s.mark kind, s) (t.mark kind, t) :=
  ⟨h.mark kind none none, h.mono (Recall.behind_le hplain r)⟩

/-! ## Items and expressions -/

theorem normalToken (h : Shifted size r s t) (c : Char) :
    Shifts size r (s.normalToken c) (t.normalToken c) := by
  unfold Scanner.normalToken unexpected
  rw [h.rest]
  split
  · exact h.plain rfl
  · split
    · exact h.plain rfl
    · split
      · split
        · exact h.plain rfl
        · exact h.plain rfl
      · split
        · exact h.openLiteral rfl
        · dsimp only
          split
          · exact h.openLiteral rfl
          · split
            · exact h.plain rfl
            · split
              · exact h.plain rfl
              · split
                · exact h.plain rfl
                · exact h.plain rfl

theorem normal (h : Shifted size r s t) : Shifts size r s.normal t.normal := by
  obtain ⟨hshebang, hshebang'⟩ := h.shebang_eq
  rw [h.rest] at hshebang'
  unfold Scanner.normal
  rw [h.rest]
  cases hrest : s.rest with
  | nil => exact h.stay rfl
  | cons c rest =>
    rw [hrest] at hshebang hshebang'
    simp only [hshebang, hshebang', Bool.false_eq_true, if_false]
    split
    · exact h.plain rfl
    · exact h.normalToken c

/-! ## Literals -/

theorem unterminated (h : Shifted size r s t) (hliteral : r.literal) {fault : Fault} :
    Shifts size r (s.unterminated fault) (t.unterminated fault) := by
  unfold Scanner.unterminated
  rw [h.rest, h.literal hliteral]
  split
  · exact h.stay rfl
  · exact h.closeLiteral rfl

theorem content (h : Shifted size r s t) (hliteral : r.literal) {kind : Token.Kind}
    (hplain : opensSomething kind = false) {fault : Fault} {unit? : Text → Option Nat} :
    Shifts size r (s.content kind fault unit?) (t.content kind fault unit?) := by
  unfold Scanner.content
  dsimp only
  rw [h.rest]
  split
  · exact h.unterminated hliteral
  · exact h.plain hplain

theorem stringContent (h : Shifted size r s t) (hliteral : r.literal) (d : Dialect) :
    Shifts size r (s.stringContent d) (t.stringContent d) := by
  unfold Scanner.stringContent
  rw [h.rest]
  split
  · exact h.closeLiteral rfl
  · split
    · exact h.unterminated hliteral
    · split
      · exact h.plain rfl
      · split
        · exact h.plain rfl
        · exact h.content hliteral rfl

theorem commandContent (h : Shifted size r s t) (hliteral : r.literal) (indented : Bool) :
    Shifts size r (s.commandContent indented) (t.commandContent indented) := by
  unfold Scanner.commandContent
  dsimp only
  rw [h.rest]
  split
  · exact h.closeLiteral rfl
  · split
    · exact h.unterminated hliteral
    · split
      · exact h.plain rfl
      · exact h.content hliteral rfl

/-! ## Bodies -/

theorem bodyStart (h : Shifted size r s t) : Shifts size r s.bodyStart t.bodyStart := by
  unfold Scanner.bodyStart
  rw [h.rest, h.top]
  split
  · exact h.plain rfl
  · dsimp only
    split
    · refine ⟨h.mark .indent _ _, { h with rest := rfl, levels := ?_, literal := ?_, body := ?_ }⟩
      · exact congrArg (_ :: ·) h.levels
      · exact fun hr => h.literal (hr.resolve_right nofun)
      · exact fun _ => rfl
    · exact h.normal

theorem dedentTo (h : Shifted size r s t) (width : Nat) :
    Shifts size r (s.dedentTo width) (t.dedentTo width) := by
  have hafter : Shifted size r
      { s with
        levels := s.levels.dropWhile (width < ·)
        pendingDedents := s.levels.length - (s.levels.dropWhile (width < ·)).length - 1
        pendingFault :=
          if width = (s.levels.dropWhile (width < ·)).headD 0 then s.pendingFault
          else some (.dedentMismatch s.top ((s.levels.dropWhile (width < ·)).headD 0) width) }
      { t with
        levels := s.levels.dropWhile (width < ·)
        pendingDedents := s.levels.length - (s.levels.dropWhile (width < ·)).length - 1
        pendingFault :=
          if width = (s.levels.dropWhile (width < ·)).headD 0 then s.pendingFault
          else some (.dedentMismatch s.top ((s.levels.dropWhile (width < ·)).headD 0) width) } :=
    { h with levels := rfl, pendingDedents := rfl, pendingFault := rfl }
  unfold Scanner.dedentTo
  dsimp only
  rw [h.levels, h.top, h.pendingFault]
  exact ⟨h.mark .dedent _ _, hafter.mono (Recall.behind_le rfl r)⟩

theorem bodyContent (h : Shifted size r s t) : Shifts size r s.bodyContent t.bodyContent := by
  unfold Scanner.bodyContent
  rw [h.rest]
  split
  · exact h.plain rfl
  · split
    · exact h.plain rfl
    · exact h.plain rfl

theorem shebang (h : Shifted size r s t) : Shifts size r s.shebang t.shebang := by
  have hdecided : ∀ queued, Shifted size r { s with queued := queued }
      { t with rest := s.rest, queued := queued } :=
    fun _ => { h with rest := rfl, queued := rfl }
  unfold Scanner.shebang
  dsimp only
  rw [h.rest]
  exact (hdecided _).plain rfl

theorem bodyLine (h : Shifted size r s t) (hbody : r.body) :
    Shifts size r s.bodyLine t.bodyLine := by
  have hentered : Shifted size r { s with lineContent := none, firstBodyLine := false }
      { t with rest := s.rest, lineContent := none, firstBodyLine := false } :=
    { h with rest := rfl, lineContent := fun _ => iff_of_false nofun nofun, body := fun _ => rfl }
  unfold Scanner.bodyLine
  dsimp only
  rw [h.atContent, h.body hbody, h.rest]
  split
  · split
    · exact hentered.shebang
    · split
      · exact hentered.plain rfl
      · exact hentered.bodyContent
  · exact h.bodyContent

theorem inBody (h : Shifted size r s t) (hbody : r.body) : Shifts size r s.body t.body := by
  have hoffset := h.offset
  unfold shift at hoffset
  have hentered : Shifted size r { s with lineContent := some (s.offset + s.top) }
      { t with rest := s.rest, levels := s.levels, lineContent := some (t.offset + s.top) } := by
    refine { h with rest := rfl, levels := rfl, lineContent := fun start => ?_ }
    dsimp only
    rw [Option.some_inj, Option.some_inj]
    unfold shift
    omega
  unfold Scanner.body
  dsimp only
  rw [h.rest, h.levels, h.atLineStart, h.top]
  split
  · split
    · exact h.stay rfl
    · next levels _ =>
      refine ⟨h.mark .dedent _ _, mono (Recall.behind_le rfl r) { h with rest := rfl, levels := rfl }⟩
  · split
    · split
      · split
        · exact h.plain rfl
        · exact h.bodyLine hbody
      · split
        · exact h.dedentTo _
        · split
          · exact hentered.plain rfl
          · exact hentered.bodyLine hbody
    · exact h.bodyLine hbody

/-! ## The next token -/

theorem next (h : Shifted size r s t) (wf : s.WellFormed) {mode : Mode} (hrecall : r.Suffices mode) :
    Shifts size r (s.next mode) (t.next mode) := by
  have hbase' : t.base ≤ t.offset := by
    rw [h.offset]
    exact Nat.le_trans h.base_le (Nat.le_add_left _ _)
  rcases s.ahead_cases with ⟨kind, count, queued, hqueued⟩ | ⟨-, hbase⟩ |
    ⟨hqueued, hbase, count, hpending⟩ | ⟨hqueued, hbase, hpending, fault, hfault⟩ | ready
  · have hkind := (ne_nil_of_queued wf hqueued).2.2
    have hplain : opensSomething kind = false := by
      cases kind <;> first | rfl | cases hkind
    have hdecided : Shifted size r { s with queued := queued } { t with queued := queued } :=
      { h with queued := rfl }
    rw [next_of_queued hqueued, next_of_queued (h.queued.trans hqueued)]
    exact hdecided.plain hplain
  · -- The text has no byte order mark in front of it.
    rw [h.base] at hbase
    cases hbase
  · have hafter : Shifted size r { s with pendingDedents := count }
        { t with pendingDedents := count } := { h with pendingDedents := rfl }
    rw [next_of_pendingDedents hqueued hbase hpending,
      next_of_pendingDedents (h.queued.trans hqueued) hbase' (h.pendingDedents.trans hpending)]
    exact ⟨h.mark .dedent _ _, hafter.mono (Recall.behind_le rfl r)⟩
  · have hafter : Shifted size r { s with pendingFault := none }
        { t with pendingFault := none } := { h with pendingFault := rfl }
    rw [next_of_pendingFault hqueued hbase hpending hfault,
      next_of_pendingFault (h.queued.trans hqueued) hbase' (h.pendingDedents.trans hpending)
        (h.pendingFault.trans hfault),
      show line t.rest = line s.rest from congrArg line h.rest]
    exact hafter.plain rfl
  · have ready' : t.Ready := ⟨h.queued.trans ready.queued, hbase',
      h.pendingDedents.trans ready.pendingDedents, h.pendingFault.trans ready.pendingFault⟩
    rw [ready.next_eq, ready'.next_eq]
    cases mode with
    | normal => exact h.normal
    | bodyStart => exact h.bodyStart
    | body => exact h.inBody (hrecall.body rfl)
    | stringContent d => exact h.stringContent (hrecall.literal rfl) d
    | commandContent indented => exact h.commandContent (hrecall.literal rfl) indented

end Shifted

/-- The scanner of a text, and one behind another text of the size. -/
def shifted (size : Nat) : Mirror where
  place := shift size
  like := Shifted size
  clear _ := True
  clear_of_ne_indent _ := trivial
  offset_eq h := h.offset
  mono hle h := h.mono hle
  next wf h hrecall _ := ⟨(h.next wf hrecall).1, fun _ => (h.next wf hrecall).2⟩

/-! ## The start of the second text -/

/-- A text that starts with an item has no byte order mark. -/
theorem ready_ofText {source : Text} (h : StartsItem source) : (ofText source).Ready := by
  obtain ⟨c, rest, rfl, hc⟩ := h.exists_cons
  have hmark : c ≠ byteOrderMark := ne_of_startsItem hc (by decide)
  refine ⟨rfl, ?_, rfl, rfl⟩
  simp [ofText, hmark]

/-- At the end of the first text, with no body open, the scanner is a shifted one. -/
theorem Fed.shifted (fed : s.Fed) (ready : s.Ready) (hrest : s.rest = []) (hlevels : s.levels = [])
    {more : Text} (hmore : StartsItem more) (hliteral : ¬r.literal) (hbody : ¬r.body) :
    Shifted s.offset r (ofText more) (s.followed more) where
  rest := by
    change s.rest ++ more = more
    rw [hrest]
    rfl
  offset := (Nat.zero_add s.offset).symm
  base := Nat.le_zero.1 (ready_ofText hmore).base_le
  base_le := ready.base_le
  start _ := hmore
  previous := .inl ⟨rfl, fed.previous hrest⟩
  levels := hlevels
  queued := ready.queued
  pendingDedents := ready.pendingDedents
  pendingFault := ready.pendingFault
  lineContent start := by
    refine iff_of_false (fun hstart => ?_) nofun
    have hlt := fed.lineContent _ hstart
    rw [hrest, Text.byteSize_nil] at hlt
    unfold shift at hlt
    omega
  literal h := absurd h hliteral
  body h := absurd h hbody

end Scanner

end Justfile
