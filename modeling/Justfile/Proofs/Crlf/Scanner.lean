import Justfile.Proofs.Crlf.Measure
import Justfile.Proofs.Stream

/-!
# The scanner on the two texts

A scanner on a text without carriage returns has an image on the text with one in front of every line
feed. The image gives the image of each token, in every mode, and stays the image (`next_crlf`).
What the stream looks up ahead of the image is the image of what it looks up.
-/

set_option autoImplicit false

namespace Justfile

open Text (stretch)

/-! ## Images -/

/-- The span with both of its ends moved. -/
def Token.crlf (place : Nat → Nat) (token : Token) : Token :=
  { token with span := ⟨place token.span.start, place token.span.stop⟩, text := token.text.crlf }

namespace Scanner

/-- The scanner at the same place of the text with carriage returns. -/
def crlf (place : Nat → Nat) (s : Scanner) : Scanner :=
  { s with
    offset := place s.offset
    rest := s.rest.crlf
    lineContent := s.lineContent.map place }

/-- A token and the scanner after it, both on the text with carriage returns. -/
def imageOf (place : Nat → Nat) (out : Token × Scanner) : Token × Scanner :=
  (out.1.crlf place, out.2.crlf place)

/-- The scanner stands in the source, which has no carriage returns, and the pieces of a shebang line
that are decided lie within the line. -/
structure On (source : Text) (s : Scanner) : Prop where
  plain : '\r' ∉ source
  split : ∃ front, source = front ++ s.rest ∧ s.offset = Text.byteSize front
  base_eq : s.base = (ofText source).base
  inLine : '\n' ∉ s.rest.take (Interpreter.total s.queued)

section On

variable {source : Text} {s t : Scanner} {mode : Mode}

theorem on_ofText (h : '\r' ∉ source) : On source (ofText source) :=
  ⟨h, ⟨[], rfl, rfl⟩, rfl, by simp [Interpreter.total, ofText]⟩

theorem ofText_crlf (source : Text) :
    ofText source.crlf = (ofText source).crlf source.crlfPlace := by
  have hmark : (source.crlf.head? == some byteOrderMark) =
      (source.head? == some byteOrderMark) := by
    cases source with
    | nil => rfl
    | cons c rest =>
      by_cases hc : c = '\n'
      · subst hc
        rfl
      · rw [Text.crlf_cons hc]
        rfl
  simp [ofText, crlf, hmark]

theorem On.rest_plain (on : On source s) : '\r' ∉ s.rest := by
  obtain ⟨front, hsplit, -⟩ := on.split
  intro hmem
  apply on.plain
  rw [hsplit]
  exact List.mem_append_right front hmem

theorem On.place_offset_add (on : On source s) (size : Nat) :
    source.crlfPlace (s.offset + Text.byteSize (s.rest.take size)) =
      source.crlfPlace s.offset + Text.byteSize (Text.crlf (s.rest.take size)) := by
  obtain ⟨front, hsplit, hoffset⟩ := on.split
  have hfront := Text.crlfPlace_byteSize front s.rest
  have hmore := Text.crlfPlace_byteSize (front ++ s.rest.take size) (s.rest.drop size)
  rw [List.append_assoc, List.take_append_drop, Text.byteSize_append, Text.crlf_append,
    Text.byteSize_append, ← hsplit, ← hoffset] at hmore
  rw [← hsplit, ← hoffset] at hfront
  rw [hmore, hfront]

theorem On.place_base (on : On source s) : source.crlfPlace s.base = s.base := by
  rw [on.base_eq]
  unfold ofText
  dsimp only
  split
  · next hmark =>
    cases hsource : source with
    | nil => rfl
    | cons c rest =>
      rw [hsource] at hmark
      obtain rfl := Option.some.inj (beq_iff_eq.1 hmark)
      rw [Text.crlfPlace, if_neg (Nat.lt_irrefl _), Nat.sub_self, Text.crlfPlace_zero]
      rfl
  · exact Text.crlfPlace_zero source

theorem On.offset_lt_base (on : On source s) :
    (s.crlf source.crlfPlace).offset < (s.crlf source.crlfPlace).base ↔ s.offset < s.base := by
  rw [← Text.crlfPlace_lt_iff source s.offset s.base, on.place_base]
  rfl

theorem On.offset_beq_base (on : On source s) :
    ((s.crlf source.crlfPlace).offset == (s.crlf source.crlfPlace).base) = (s.offset == s.base) := by
  rw [Bool.eq_iff_iff, beq_iff_eq, beq_iff_eq, ← Text.crlfPlace_inj source s.offset s.base,
    on.place_base]
  rfl

theorem On.atLineStart (on : On source s) :
    (s.crlf source.crlfPlace).atLineStart = s.atLineStart := by
  unfold Scanner.atLineStart
  rw [on.offset_beq_base]
  rfl

end On

/-! ## Each mode -/

section Modes

variable {source : Text} {s : Scanner}

/-- What is emitted of the image. The two scanners may remember other things of the line. -/
theorem On.emit_crlf (on : On source s) {t u : Scanner} (hu : u = t.crlf source.crlfPlace)
    (hrest : t.rest = s.rest) (hoffset : t.offset = s.offset) {kind : Token.Kind} {size size' : Nat}
    (hsize : size' = stretch s.rest size) :
    u.emit kind size' = imageOf source.crlfPlace (t.emit kind size) := by
  subst hu hsize
  have hplace := on.place_offset_add size
  have htake := Text.take_crlf s.rest size
  have hdrop := Text.drop_crlf s.rest size
  simp only [emit, imageOf, crlf, Token.crlf, hrest, hoffset, htake, hdrop, hplace,
    Text.getLast?_crlf]

/-- As many characters as stand in front of the next line break. -/
theorem On.emit_same (on : On source s) {t u : Scanner} (hu : u = t.crlf source.crlfPlace)
    (hrest : t.rest = s.rest) (hoffset : t.offset = s.offset) {kind : Token.Kind} {size : Nat}
    (hsize : stretch s.rest size = size) :
    u.emit kind size = imageOf source.crlfPlace (t.emit kind size) :=
  on.emit_crlf hu hrest hoffset hsize.symm

theorem On.shebang_crlf (on : On source s) {t u : Scanner} (hu : u = t.crlf source.crlfPlace)
    (hrest : t.rest = s.rest) (hoffset : t.offset = s.offset)
    (hsigns : ['#', '!'].isPrefixOf s.rest = true) :
    u.shebang = imageOf source.crlfPlace t.shebang := by
  have hplain := on.rest_plain
  have hline : s.rest.crlf.take (Measure.line s.rest.crlf) = s.rest.take (Measure.line s.rest) := by
    rw [Measure.line_crlf hplain]
    have htake := Text.take_crlf s.rest (Measure.line s.rest)
    rw [Measure.stretch_line] at htake
    rw [htake, Text.crlf_of_not_mem (Measure.not_mem_take_line s.rest)]
  have hsize : stretch s.rest ['#', '!'].length = ['#', '!'].length :=
    Measure.stretch_of_isPrefixOf (by decide) hsigns
  have hqueued : { u with
        queued := Interpreter.pieces ((u.rest.take (Measure.line u.rest)).drop 2) } =
      crlf source.crlfPlace { t with
        queued := Interpreter.pieces ((t.rest.take (Measure.line t.rest)).drop 2) } := by
    subst hu
    simp only [crlf, hrest, hline]
  exact on.emit_same hqueued hrest hoffset hsize

theorem On.openLiteral_crlf (on : On source s) {kind : Token.Kind} {size : Nat}
    (hsize : stretch s.rest size = size) :
    (s.crlf source.crlfPlace).openLiteral kind size =
      imageOf source.crlfPlace (s.openLiteral kind size) :=
  on.emit_same (t := { s with literalClosed := false }) rfl rfl rfl hsize

theorem On.closeLiteral_crlf (on : On source s) {kind : Token.Kind} {size size' : Nat}
    (hsize : size' = stretch s.rest size) :
    (s.crlf source.crlfPlace).closeLiteral kind size' =
      imageOf source.crlfPlace (s.closeLiteral kind size) :=
  on.emit_crlf (t := { s with literalClosed := true }) rfl rfl rfl hsize

theorem On.normalToken_crlf (on : On source s) {c : Char} {rest : Text} (hrest : s.rest = c :: rest)
    (hnewline : Measure.newline? s.rest = none) :
    (s.crlf source.crlfPlace).normalToken c = imageOf source.crlfPlace (s.normalToken c) := by
  have hplain := on.rest_plain
  have hc : c ≠ '\n' := by
    rintro rfl
    rw [hrest] at hnewline
    cases hnewline
  have hone : stretch s.rest 1 = 1 := by rw [hrest, Measure.stretch_one hc]
  have hemit : ∀ {kind : Token.Kind} {size : Nat}, stretch s.rest size = size →
      (s.crlf source.crlfPlace).emit kind size = imageOf source.crlfPlace (s.emit kind size) :=
    fun hsize => on.emit_same rfl rfl rfl hsize
  unfold normalToken
  have himage : (s.crlf source.crlfPlace).rest = s.rest.crlf := rfl
  simp only [himage, Measure.blanks_crlf hplain, Measure.line_crlf hplain,
    Measure.continuation?_crlf hplain, Dialect.detect?_crlf,
    Text.isPrefixOf_crlf (Measure.not_mem_commandDelimiter true) hplain, Measure.number_crlf, Measure.identifier_crlf,
    Mark.detect?_crlf]
  split
  · exact hemit (Measure.stretch_blanks hplain)
  · split
    · exact hemit (Measure.stretch_line s.rest)
    · split
      · cases Measure.continuation? s.rest with
        | some size => exact on.emit_crlf rfl rfl rfl rfl
        | none => exact hemit hone
      · cases hdialect : Dialect.detect? s.rest with
        | some dialect => exact on.openLiteral_crlf (Dialect.stretch_opening hdialect)
        | none =>
          dsimp only
          split
          · next htick =>
            -- A backtick opens a command, by three of them or by one.
            refine on.openLiteral_crlf
              (Measure.stretch_of_isPrefixOf (Measure.not_mem_commandDelimiter _).1 ?_)
            cases hindented : (Measure.commandDelimiter true).isPrefixOf s.rest with
            | true => exact hindented
            | false =>
              obtain rfl := beq_iff_eq.1 htick
              rw [hrest]
              rfl
          · split
            · exact hemit (Measure.stretch_number s.rest)
            · split
              · exact hemit (Measure.stretch_identifier s.rest)
              · cases hsign : Mark.detect? s.rest with
                | some sign => exact hemit (Mark.stretch_length hsign)
                | none => exact hemit hone

theorem On.normal_crlf (on : On source s) :
    (s.crlf source.crlfPlace).normal = imageOf source.crlfPlace s.normal := by
  have hplain := on.rest_plain
  rcases Text.plain_cases hplain with hnil | ⟨rest, hcons, -⟩ | ⟨c, rest, hcons, hc, hreturn, -⟩
  · simp [normal, crlf, hnil, imageOf, mark, Token.crlf, Span.empty]
  · have himage : (s.crlf source.crlfPlace).rest = '\r' :: '\n' :: Text.crlf rest := by
      simp [crlf, hcons]
    have hemit : (s.crlf source.crlfPlace).emit .newline 2 =
        imageOf source.crlfPlace (s.emit .newline 1) :=
      on.emit_crlf rfl rfl rfl (by rw [hcons]; rfl)
    simpa [normal, hcons, himage, List.isPrefixOf, Measure.newline?] using hemit
  · have himage : (s.crlf source.crlfPlace).rest = c :: Text.crlf rest := by
      simp [crlf, hcons, Text.crlf_cons hc]
    have hprefix : ['#', '!'].isPrefixOf (c :: Text.crlf rest) = ['#', '!'].isPrefixOf s.rest := by
      rw [← himage]
      exact Text.isPrefixOf_crlf (by decide) hplain
    have hnewline := Measure.newline?_cons hc hreturn rest
    have hnewline' := Measure.newline?_cons hc hreturn (Text.crlf rest)
    unfold normal
    rw [himage, hcons]
    dsimp only
    rw [on.offset_beq_base, hprefix, hnewline, hnewline', ← hcons]
    split
    · next hshebang => exact on.shebang_crlf rfl rfl rfl (Bool.and_eq_true_iff.1 hshebang).2
    · exact on.normalToken_crlf hcons (hcons ▸ hnewline)

theorem On.unterminated_crlf (on : On source s) (fault : Fault) :
    (s.crlf source.crlfPlace).unterminated fault =
      imageOf source.crlfPlace (s.unterminated fault) := by
  have hrest : (s.crlf source.crlfPlace).rest = s.rest.crlf := rfl
  have hflag : (s.crlf source.crlfPlace).literalClosed = s.literalClosed := rfl
  unfold unterminated
  rw [hrest, hflag, Text.isEmpty_crlf]
  split
  · rfl
  · exact on.closeLiteral_crlf (Text.stretch_length s.rest).symm

theorem On.content_crlf (on : On source s) {kind : Token.Kind} {fault : Fault}
    {unit? : Text → Option Nat} {answer : Option Nat} (alike : Measure.ReadsAlike unit? answer) :
    (s.crlf source.crlfPlace).content kind fault unit? =
      imageOf source.crlfPlace (s.content kind fault unit?) := by
  have hrun : Measure.run unit? (s.crlf source.crlfPlace).rest =
      stretch s.rest (Measure.run unit? s.rest) := Measure.run_crlf alike on.rest_plain
  have hempty : ((s.crlf source.crlfPlace).rest.drop
      (stretch s.rest (Measure.run unit? s.rest))).isEmpty =
        (s.rest.drop (Measure.run unit? s.rest)).isEmpty := by
    change (s.rest.crlf.drop _).isEmpty = _
    rw [Text.drop_crlf, Text.isEmpty_crlf]
  unfold content
  dsimp only
  rw [hrun, hempty]
  split
  · exact on.unterminated_crlf fault
  · exact on.emit_crlf rfl rfl rfl rfl

theorem On.stringContent_crlf (on : On source s) (d : Dialect) :
    (s.crlf source.crlfPlace).stringContent d = imageOf source.crlfPlace (s.stringContent d) := by
  have hplain := on.rest_plain
  have hclosing := Measure.not_mem_closing d
  have himage : (s.crlf source.crlfPlace).rest = s.rest.crlf := rfl
  unfold stringContent
  rw [himage, Text.isPrefixOf_crlf hclosing hplain, Text.isEmpty_crlf, Measure.escape?_crlf hplain,
    Measure.opensInterpolation_crlf hplain]
  split
  · next hclose => exact on.closeLiteral_crlf (Measure.stretch_of_isPrefixOf hclosing.1 hclose).symm
  · split
    · exact on.unterminated_crlf _
    · have hescape : (if d.readsEscapes = true then
          (Measure.escape? s.rest).map (stretch s.rest) else none) =
          (if d.readsEscapes = true then Measure.escape? s.rest else none).map
            (stretch s.rest) := by
        split <;> rfl
      rw [hescape]
      cases (if d.readsEscapes = true then Measure.escape? s.rest else none) with
      | some size => exact on.emit_crlf rfl rfl rfl rfl
      | none =>
        simp only [Option.map_none]
        split
        · next hopen =>
          exact on.emit_same rfl rfl rfl
            (Measure.stretch_opensInterpolation (Bool.and_eq_true_iff.1 hopen).2)
        · exact on.content_crlf (Measure.stringUnit?_alike d)

theorem On.commandContent_crlf (on : On source s) (indented : Bool) :
    (s.crlf source.crlfPlace).commandContent indented =
      imageOf source.crlfPlace (s.commandContent indented) := by
  have hplain := on.rest_plain
  have hdelimiter := Measure.not_mem_commandDelimiter indented
  have himage : (s.crlf source.crlfPlace).rest = s.rest.crlf := rfl
  unfold commandContent
  dsimp only
  rw [himage, Text.isPrefixOf_crlf hdelimiter hplain, Text.isEmpty_crlf,
    Measure.opensInterpolation_crlf hplain]
  split
  · next hclose =>
    exact on.closeLiteral_crlf (Measure.stretch_of_isPrefixOf hdelimiter.1 hclose).symm
  · split
    · exact on.unterminated_crlf _
    · split
      · next hopen => exact on.emit_same rfl rfl rfl (Measure.stretch_opensInterpolation hopen)
      · exact on.content_crlf (Measure.commandUnit?_alike indented)

theorem On.bodyStart_crlf (on : On source s) :
    (s.crlf source.crlfPlace).bodyStart = imageOf source.crlfPlace s.bodyStart := by
  have hplain := on.rest_plain
  have himage : (s.crlf source.crlfPlace).rest = s.rest.crlf := rfl
  have htop : (s.crlf source.crlfPlace).top = s.top := rfl
  unfold bodyStart
  rw [himage, Measure.blankLines_crlf hplain]
  cases hblank : Measure.blankLines s.rest with
  | succ size =>
    have hne : s.rest ≠ [] := by
      intro hnil
      rw [hnil] at hblank
      cases hblank
    have hpos : stretch s.rest (size + 1) ≠ 0 := Text.stretch_succ_ne_zero hne size
    obtain ⟨size', hsize⟩ := Nat.exists_eq_succ_of_ne_zero hpos
    rw [hsize]
    exact on.emit_crlf rfl rfl rfl hsize.symm
  | zero =>
    rw [Text.stretch_zero]
    dsimp only
    rw [htop, Measure.drop_indentation_crlf, Measure.indentation_crlf,
      Measure.atLineEnd_crlf (Text.not_mem_drop hplain _)]
    split
    · rfl
    · exact on.normal_crlf

theorem On.bodyContent_crlf (on : On source s) {t u : Scanner} (hu : u = t.crlf source.crlfPlace)
    (hrest : t.rest = s.rest) (hoffset : t.offset = s.offset) :
    u.bodyContent = imageOf source.crlfPlace t.bodyContent := by
  have hplain := on.rest_plain
  have himage : u.rest = s.rest.crlf := by
    subst hu
    simp only [crlf, hrest]
  unfold bodyContent
  rw [himage, hrest, Measure.newline?_crlf hplain, Measure.opensInterpolation_crlf hplain,
    Measure.run_crlf Measure.bodyUnit?_alike hplain]
  cases Measure.newline? s.rest with
  | some size => exact on.emit_crlf hu hrest hoffset rfl
  | none =>
    simp only [Option.map_none]
    split
    · next hopen => exact on.emit_same hu hrest hoffset (Measure.stretch_opensInterpolation hopen)
    · exact on.emit_crlf hu hrest hoffset rfl

theorem On.bodyLine_crlf (on : On source s) {t u : Scanner} (hu : u = t.crlf source.crlfPlace)
    (hrest : t.rest = s.rest) (hoffset : t.offset = s.offset) :
    u.bodyLine = imageOf source.crlfPlace t.bodyLine := by
  have hplain := on.rest_plain
  have himage : u.rest = t.rest.crlf := by
    subst hu
    rfl
  have hshebang : ['#', '!'].isPrefixOf u.rest = ['#', '!'].isPrefixOf t.rest := by
    rw [himage, hrest, Text.isPrefixOf_crlf (by decide) hplain]
  have hsigns : Measure.linePrefix? u.rest = Measure.linePrefix? t.rest := by
    rw [himage, Measure.linePrefix?_crlf]
  have hcontent : (u.lineContent == some u.offset) = (t.lineContent == some t.offset) := by
    subst hu
    cases hline : t.lineContent with
    | none => simp [crlf, hline]
    | some content =>
      rw [Bool.eq_iff_iff]
      simp [crlf, hline, Text.crlfPlace_inj]
  have hfirst : u.firstBodyLine = t.firstBodyLine := by
    subst hu
    rfl
  have hentered : { u with lineContent := none, firstBodyLine := false } =
      crlf source.crlfPlace { t with lineContent := none, firstBodyLine := false } := by
    subst hu
    rfl
  unfold bodyLine
  dsimp only
  rw [hcontent, hfirst, hshebang, hsigns]
  split
  · split
    · next hopens =>
      exact on.shebang_crlf hentered hrest hoffset (hrest ▸ (Bool.and_eq_true_iff.1 hopens).2)
    · cases hprefix : Measure.linePrefix? t.rest with
      | some size =>
        rw [hrest] at hprefix
        exact on.emit_same hentered hrest hoffset (Measure.stretch_linePrefix? hprefix)
      | none => exact on.bodyContent_crlf hentered hrest hoffset
  · exact on.bodyContent_crlf hu hrest hoffset

theorem On.body_crlf (on : On source s) :
    (s.crlf source.crlfPlace).body = imageOf source.crlfPlace s.body := by
  have hplain := on.rest_plain
  have himage : (s.crlf source.crlfPlace).rest = s.rest.crlf := rfl
  have htop : (s.crlf source.crlfPlace).top = s.top := rfl
  have hlevels : (s.crlf source.crlfPlace).levels = s.levels := rfl
  unfold body
  dsimp only
  rw [himage, htop, hlevels, Text.isEmpty_crlf, on.atLineStart, Measure.drop_indentation_crlf,
    Measure.indentation_crlf, Measure.atLineEnd_crlf (Text.not_mem_drop hplain _)]
  split
  · cases s.levels with
    | nil => rfl
    | cons width levels => rfl
  · split
    · split
      · split
        · exact on.emit_same rfl rfl rfl (Measure.stretch_indentation s.rest)
        · exact on.bodyLine_crlf rfl rfl rfl
      · split
        · rfl
        · next hwidth =>
          -- The content of the line starts behind blanks, so that its place moves with the line.
          have hstretch : stretch s.rest s.top = s.top :=
            Measure.stretch_of_le_indentation (Nat.le_of_not_lt hwidth)
          have hentered : { s.crlf source.crlfPlace with
                lineContent := some ((s.crlf source.crlfPlace).offset + s.top) } =
              crlf source.crlfPlace { s with lineContent := some (s.offset + s.top) } := by
            have hwidth := Nat.le_of_not_lt hwidth
            have hplace := on.place_offset_add s.top
            rw [Text.crlf_of_not_mem (Measure.not_mem_take_of_le_indentation hwidth),
              Measure.byteSize_take_of_le_indentation hwidth] at hplace
            simp only [crlf, Option.map_some, hplace]
          split
          · exact on.emit_same hentered rfl rfl hstretch
          · exact on.bodyLine_crlf hentered rfl rfl
    · exact on.bodyLine_crlf rfl rfl rfl

/-- In front of the start of the text proper stands the byte order mark. -/
theorem On.byteOrderMark (on : On source s) (h : s.offset < s.base) :
    ∃ rest, s.rest = Scanner.byteOrderMark :: rest := by
  obtain ⟨front, hsplit, hoffset⟩ := on.split
  rw [on.base_eq] at h
  unfold ofText at h
  dsimp only at h
  split at h
  · next hmark =>
    cases front with
    | nil =>
      rw [List.nil_append] at hsplit
      cases hsource : source with
      | nil =>
        rw [hsource] at hmark
        cases hmark
      | cons c rest =>
        rw [hsource] at hmark hsplit
        obtain rfl := Option.some.inj (beq_iff_eq.1 hmark)
        exact ⟨rest, hsplit.symm⟩
    | cons c front =>
      -- The mark would have been taken already.
      rw [hsplit] at hmark
      obtain rfl := Option.some.inj (beq_iff_eq.1 hmark)
      rw [hoffset, Text.byteSize_cons] at h
      omega
  · exact absurd h (Nat.not_lt_zero _)

/-- The image of a scanner gives the image of each of its tokens. -/
theorem On.next_crlf (on : On source s) (wf : s.WellFormed) (mode : Mode) :
    (s.crlf source.crlfPlace).next mode = imageOf source.crlfPlace (s.next mode) := by
  have hbehind : s.base ≤ s.offset → (s.crlf source.crlfPlace).base ≤ (s.crlf source.crlfPlace).offset :=
    fun hbase => Nat.le_of_not_lt (mt on.offset_lt_base.1 (Nat.not_lt.2 hbase))
  rcases s.ahead_cases with ⟨kind, size, queued, hqueued⟩ | ⟨hqueued, hbase⟩ |
    ⟨hqueued, hbase, count, hpending⟩ | ⟨hqueued, hbase, hpending, fault, hfault⟩ | ready
  · have hfits := wf.fits
    have hinLine := on.inLine
    rw [hqueued] at hfits hinLine
    simp only [Interpreter.total] at hfits hinLine
    have hsize : stretch s.rest size = size := by
      apply Text.stretch_of_not_mem
      · exact fun hmem => hinLine (List.take_subset_take_left s.rest (Nat.le_add_right ..) hmem)
      · omega
    rw [next_of_queued hqueued, next_of_queued (s := s.crlf source.crlfPlace) hqueued]
    exact on.emit_same (t := { s with queued := queued }) rfl rfl rfl hsize
  · obtain ⟨rest, hmark⟩ := on.byteOrderMark hbase
    have hone : stretch s.rest 1 = 1 := by
      rw [hmark]
      rfl
    rw [next_of_lt_base hqueued hbase,
      next_of_lt_base (s := s.crlf source.crlfPlace) hqueued (on.offset_lt_base.2 hbase)]
    exact on.emit_same rfl rfl rfl hone
  · rw [next_of_pendingDedents hqueued hbase hpending,
      next_of_pendingDedents (s := s.crlf source.crlfPlace) hqueued (hbehind hbase) hpending]
    rfl
  · have hline : Measure.line (s.crlf source.crlfPlace).rest = Measure.line s.rest :=
      Measure.line_crlf on.rest_plain
    rw [next_of_pendingFault hqueued hbase hpending hfault,
      next_of_pendingFault (s := s.crlf source.crlfPlace) hqueued (hbehind hbase) hpending hfault,
      hline]
    exact on.emit_same (t := { s with pendingFault := none }) rfl rfl rfl (Measure.stretch_line s.rest)
  · have ready' : (s.crlf source.crlfPlace).Ready :=
      ⟨ready.queued, hbehind ready.base_le, ready.pendingDedents, ready.pendingFault⟩
    rw [ready.next_eq, ready'.next_eq]
    cases mode with
    | normal => exact on.normal_crlf
    | bodyStart => exact on.bodyStart_crlf
    | body => exact on.body_crlf
    | stringContent dialect => exact on.stringContent_crlf dialect
    | commandContent indented => exact on.commandContent_crlf indented

/-- The pieces of a shebang line that are decided lie within the line. -/
theorem Step.inLine {mode : Mode} {out : Token × Scanner} (step : s.Step mode out)
    (hinLine : '\n' ∉ s.rest.take (Interpreter.total s.queued)) :
    '\n' ∉ out.2.rest.take (Interpreter.total out.2.queued) := by
  rcases step.queued_cases with hnil | ⟨kind, size, queued, hqueued, rfl⟩ | ⟨content, first, -, rfl⟩
  · simp [hnil, Interpreter.total]
  · rw [hqueued] at hinLine
    simp only [Interpreter.total, List.take_add, List.mem_append, not_or] at hinLine
    exact hinLine.2
  · have htotal := (Interpreter.cuts_pieces ((s.rest.take (Measure.line s.rest)).drop 2)).total_add
    rw [List.length_nil, Nat.add_zero] at htotal
    rw [shebang_queued, shebang_rest]
    dsimp only
    rw [htotal]
    intro hmem
    apply Measure.not_mem_take_line s.rest
    refine List.mem_of_mem_drop (i := 2) ?_
    rw [List.drop_take] at hmem ⊢
    exact List.take_subset_take_left _ (List.length_take_le ..) hmem

/-- A scanner that has gone on stands in the source as before. -/
theorem On.step {mode : Mode} {out : Token × Scanner} (on : On source s)
    (step : s.Step mode out) (takes : s.Takes out) : On source out.2 := by
  have hsplit : ∃ front, source = front ++ out.2.rest ∧ out.2.offset = Text.byteSize front := by
    obtain ⟨front, hsplit, hoffset⟩ := on.split
    refine ⟨front ++ out.1.text, ?_, ?_⟩
    · rw [List.append_assoc, takes.text_append_rest]
      exact hsplit
    · rw [takes.offset_eq, hoffset, Text.byteSize_append]
  have hbase : out.2.base = s.base := by cases step <;> rfl
  exact ⟨on.plain, hsplit, hbase.trans on.base_eq, step.inLine on.inLine⟩

theorem On.next (on : On source s) (mode : Mode) : On source (s.next mode).2 :=
  on.step (step_next s mode) (takes_next s mode)

theorem On.run {mode : Mode} {tokens : List Token} {t : Scanner} (run : Run mode s tokens t)
    (on : On source s) : On source t := by
  induction run with
  | nil => exact on
  | cons _ ih => exact ih (on.next mode)

end Modes

/-! ## Identifiers -/

/-- A token that is an identifier holds no line break. -/
def IsWord (token : Token) : Prop := token.kind = .identifier → '\n' ∉ token.text

theorem isWord_normalToken (s : Scanner) (c : Char) : IsWord (s.normalToken c).1 := by
  have hword : IsWord (s.emit .identifier (Measure.identifier s.rest)).1 :=
    fun _ => Measure.not_mem_take_identifier s.rest
  unfold normalToken
  dsimp only
  repeat' split
  all_goals first
    | exact hword
    | intro hkind
      cases hkind

/-- Only item level has identifiers. -/
theorem Step.ready_of_identifier {s : Scanner} {mode : Mode} {out : Token × Scanner}
    (wf : s.WellFormed) (step : s.Step mode out) (hkind : out.1.kind = .identifier) :
    s.Ready ∧ (mode = .normal ∨ mode = .bodyStart) := by
  obtain ⟨ready, hadmits⟩ := step.admits_inv wf (.inl hkind)
  rw [hkind] at hadmits
  refine ⟨ready, ?_⟩
  cases mode with
  | normal => exact .inl rfl
  | bodyStart => exact .inr rfl
  | body => cases hadmits
  | stringContent _ => cases hadmits
  | commandContent _ => cases hadmits

theorem isWord_next {s : Scanner} (wf : s.WellFormed) (mode : Mode) : IsWord (s.next mode).1 := by
  have hnormal : IsWord s.normal.1 := by
    unfold normal
    repeat' split
    · exact nofun
    · exact nofun
    · exact nofun
    · exact isWord_normalToken s _
  intro hkind
  obtain ⟨ready, hmode⟩ := (step_next s mode).ready_of_identifier wf hkind
  rw [ready.next_eq] at hkind ⊢
  rcases hmode with rfl | rfl
  · exact hnormal hkind
  · revert hkind
    dsimp only
    unfold bodyStart
    dsimp only
    repeat' split
    · exact nofun
    · exact nofun
    · exact hnormal

end Scanner

/-! ## Looking ahead -/

namespace Stream

variable {source : Text} {z : Stream}

/-- The stream at the same place of the text with carriage returns. -/
def crlf (place : Nat → Nat) (z : Stream) : Stream := { z with scanner := z.scanner.crlf place }

/-- Trivia is skipped alike, whatever bounds its number. -/
theorem skip_crlf {fuel fuel' : Text} {scanner : Scanner} (on : scanner.On source)
    (wf : scanner.WellFormed) (hfuel : scanner.rest.length ≤ fuel.length)
    (hfuel' : scanner.rest.crlf.length ≤ fuel'.length) :
    z.skip fuel' (scanner.crlf source.crlfPlace) =
      ((z.skip fuel scanner).1.map (Token.crlf source.crlfPlace),
        (z.skip fuel scanner).2.crlf source.crlfPlace) := by
  induction fuel generalizing scanner fuel' with
  | nil =>
    have htrivia : z.isTrivia (scanner.next z.mode).1.kind = false := by
      have hstop := (skip_spec z [] scanner wf hfuel).2.2
      exact hstop
    have htrivia' : z.isTrivia ((scanner.crlf source.crlfPlace).next z.mode).1.kind = false := by
      rw [on.next_crlf wf]
      exact htrivia
    rw [skip_of_not_isTrivia htrivia, skip_of_not_isTrivia htrivia']
    rfl
  | cons c fuel ih =>
    have himage := on.next_crlf wf z.mode
    cases htrivia : z.isTrivia (scanner.next z.mode).1.kind with
    | false =>
      have htrivia' : z.isTrivia ((scanner.crlf source.crlfPlace).next z.mode).1.kind = false := by
        rw [himage]
        exact htrivia
      rw [skip_of_not_isTrivia htrivia, skip_of_not_isTrivia htrivia']
      rfl
    | true =>
      have hlt := (Scanner.step_next scanner z.mode).rest_lt wf (canBeEmpty_of_isTrivia htrivia)
      have htakes := (Scanner.takes_next scanner z.mode).text_append_rest
      have hgrows := Text.length_le_length_crlf (scanner.next z.mode).1.text
      have hlength := congrArg List.length htakes
      have hlength' := congrArg (fun text => (Text.crlf text).length) htakes
      simp only [Text.crlf_append, List.length_append] at hlength hlength'
      rw [List.length_cons] at hfuel
      cases fuel' with
      | nil =>
        rw [List.length_nil] at hfuel'
        omega
      | cons c' fuel' =>
        rw [List.length_cons] at hfuel'
        have hmore := @ih fuel' _ (on.next z.mode) (wf.next z.mode) (by omega) (by omega)
        have htrivia' :
            z.isTrivia ((scanner.next z.mode).1.crlf source.crlfPlace).kind = true := htrivia
        simp only [skip, himage, Scanner.imageOf, htrivia, htrivia', if_true, hmore, List.map_cons]

theorem ahead_crlf {scanner : Scanner} (on : scanner.On source) (wf : scanner.WellFormed) :
    (z.crlf source.crlfPlace).ahead (scanner.crlf source.crlfPlace) =
      ⟨(z.ahead scanner).trivia.map (Token.crlf source.crlfPlace),
        (z.ahead scanner).before.crlf source.crlfPlace,
        (z.ahead scanner).token.crlf source.crlfPlace,
        (z.ahead scanner).after.crlf source.crlfPlace⟩ := by
  have hskip := skip_crlf (z := z) on wf (Nat.le_refl _) (Nat.le_refl _)
  obtain ⟨hrun, -, -⟩ := skip_spec z scanner.rest scanner wf (Nat.le_refl _)
  have himage := (Scanner.On.run hrun on).next_crlf (hrun.wellFormed wf).1 z.mode
  unfold crlf
  rw [ahead_withScanner]
  have hrest : (scanner.crlf source.crlfPlace).rest = scanner.rest.crlf := rfl
  simp only [ahead, hrest, hskip, himage, Scanner.imageOf]

/-- What stands behind the next significant token is well-formed and in the source. -/
theorem ahead_on {scanner : Scanner} (on : scanner.On source) (wf : scanner.WellFormed) :
    (z.ahead scanner).after.On source ∧ (z.ahead scanner).after.WellFormed ∧
      (z.ahead scanner).before.On source ∧ (z.ahead scanner).before.WellFormed := by
  obtain ⟨hrun, -, -⟩ := skip_spec z scanner.rest scanner wf (Nat.le_refl _)
  have hbefore := Scanner.On.run hrun on
  have hwf := (hrun.wellFormed wf).1
  exact ⟨hbefore.next z.mode, hwf.next z.mode, hbefore, hwf⟩

theorem nthFrom_crlf {scanner : Scanner} (on : scanner.On source) (wf : scanner.WellFormed)
    (n : Nat) :
    (z.crlf source.crlfPlace).nthFrom n (scanner.crlf source.crlfPlace) =
      (z.nthFrom n scanner).crlf source.crlfPlace := by
  induction n generalizing scanner with
  | zero => rw [nthFrom, nthFrom, ahead_crlf on wf]
  | succ n ih =>
    obtain ⟨hon, hwf, -, -⟩ := ahead_on (z := z) on wf
    have hkind : ((z.ahead scanner).token.crlf source.crlfPlace).kind =
        (z.ahead scanner).token.kind := rfl
    rw [nthFrom, nthFrom, ahead_crlf on wf]
    dsimp only
    rw [hkind]
    split
    · rfl
    · exact ih hon hwf

theorem nth_crlf (on : z.scanner.On source) (wf : z.scanner.WellFormed) (n : Nat) :
    (z.crlf source.crlfPlace).nth n = (z.nth n).crlf source.crlfPlace :=
  nthFrom_crlf on wf n

/-- Identifiers that are found ahead have the same text. -/
theorem isWord_nth (wf : z.scanner.WellFormed) (n : Nat) : Scanner.IsWord (z.nth n) := by
  have hall : ∀ scanner : Scanner, scanner.WellFormed → Scanner.IsWord (z.nthFrom n scanner) := by
    induction n with
    | zero =>
      intro scanner wf
      obtain ⟨hrun, -, -⟩ := skip_spec z scanner.rest scanner wf (Nat.le_refl _)
      exact Scanner.isWord_next (hrun.wellFormed wf).1 z.mode
    | succ n ih =>
      intro scanner wf
      obtain ⟨hrun, -, -⟩ := skip_spec z scanner.rest scanner wf (Nat.le_refl _)
      have hwf := (hrun.wellFormed wf).1
      rw [nthFrom]
      split
      · exact Scanner.isWord_next hwf z.mode
      · exact ih _ (hwf.next z.mode)
  exact hall _ wf

theorem takeTrivia_crlf (on : z.scanner.On source) (wf : z.scanner.WellFormed) :
    (z.crlf source.crlfPlace).takeTrivia =
      (z.takeTrivia.1.map (Token.crlf source.crlfPlace),
        z.takeTrivia.2.crlf source.crlfPlace) := by
  have hskip := skip_crlf (z := z) on wf (Nat.le_refl _) (Nat.le_refl _)
  have hrest : (z.scanner.crlf source.crlfPlace).rest = z.scanner.rest.crlf := rfl
  unfold takeTrivia crlf
  rw [skip_withScanner]
  dsimp only
  rw [hrest, hskip]

theorem atGlued_crlf (on : z.scanner.On source) (wf : z.scanner.WellFormed)
    (first second : Token.Kind) :
    (z.crlf source.crlfPlace).atGlued first second = z.atGlued first second := by
  obtain ⟨hon, hwf, -, -⟩ := ahead_on (z := z) on wf
  have himage := hon.next_crlf hwf z.mode
  have hmode : (z.crlf source.crlfPlace).mode = z.mode := rfl
  have hplace : ∀ a b : Nat, (source.crlfPlace a == source.crlfPlace b) = (a == b) := by
    intro a b
    rw [Bool.eq_iff_iff, beq_iff_eq, beq_iff_eq, Text.crlfPlace_inj]
  have hahead : (z.crlf source.crlfPlace).ahead (z.crlf source.crlfPlace).scanner = _ :=
    ahead_crlf on wf
  unfold atGlued
  rw [hahead, hmode]
  dsimp only
  rw [himage]
  simp only [Scanner.imageOf, Token.crlf, hplace]

end Stream

end Justfile
