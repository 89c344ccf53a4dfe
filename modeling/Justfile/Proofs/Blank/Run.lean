import Justfile.Proofs.Blank.Spaced
import Justfile.Proofs.Simulation.Item
import Justfile.Proofs.Tree.Tokens

/-!
# Blanks of a tree

A leaf of white space that consists of blanks, and stands inside a line, is a whole run of blanks: there
is none in front of it and none behind it, and no body is opened in front of it (`blanks_of_leaf`).

A body that is opened at the start of the text proper would be one in front of the leaf as well. There
is none because the trivia at the start of a source is taken first (`file_flushed`), so that bodies are
opened behind it.
-/

set_option autoImplicit false

namespace Justfile

open Text (byteSize)
open Justfile.Measure (isBlank)

namespace Grammar

/-! ## Trivia at the start -/

section Flushed

variable {rules : Rules} {s : State}

theorem flushed_flushed (wf : s.scanner.WellFormed) : s.flushed.flushed = s.flushed :=
  (flushed_of_flush (trimmed_flushed wf).flush).2

theorem front_flushed (wf : s.scanner.WellFormed) : s.flushed.front = s.front :=
  (trimmed_flushed wf).front

theorem bump_flushed (wf : s.scanner.WellFormed) (hne : s.front ≠ .endOfInput) :
    (bump none s.flushed).2 = (bump none s).2 := by
  have hne' : s.flushed.front ≠ .endOfInput := by rwa [front_flushed wf]
  unfold bump
  rw [bumpAs_eq none none _ hne', bumpAs_eq none none _ hne, flushed_flushed wf]

/-- A production that takes the trivia first. -/
theorem after_flushed {α : Type} {f : Forest → Parse α}
    (hf : ∀ before before' t, (f before t).2 = (f before' t).2) (wf : s.scanner.WellFormed) :
    ((trivia >>= f) s.flushed).2 = ((trivia >>= f) s).2 := by
  change (f (trivia s.flushed).1 (trivia s.flushed).2).2 = (f (trivia s).1 (trivia s).2).2
  rw [trivia_eq, trivia_eq, flushed_flushed wf]
  exact hf _ _ _

/-- A production that looks at the next significant token first. -/
theorem peek_flushed {α : Type} {f : Token.Kind → Parse α} (wf : s.scanner.WellFormed)
    (h : (f s.front s.flushed).2 = (f s.front s).2) :
    ((peek >>= f) s.flushed).2 = ((peek >>= f) s).2 := by
  change (f s.flushed.front s.flushed).2 = (f s.front s).2
  rw [front_flushed wf]
  exact h

theorem item_flushed (wf : s.scanner.WellFormed) :
    (item rules s.flushed).2 = (item rules s).2 := by
  have hother : (attributedItem rules s.flushed).2 = (attributedItem rules s).2 := by
    rw [attributedItem_eq]
    exact after_flushed (fun _ _ _ => rfl) wf
  unfold item
  refine peek_flushed wf ?_
  cases hfront : s.front with
  | newline => exact bump_flushed wf (by rw [hfront]; exact nofun)
  | indent => exact bump_flushed wf (by rw [hfront]; exact nofun)
  | dedent => exact bump_flushed wf (by rw [hfront]; exact nofun)
  | errorRecovery fault => exact bump_flushed wf (by rw [hfront]; exact nofun)
  | _ => exact hother

theorem loop_fileStep (bound : Nat) (s : State) :
    (loop (fileStep rules) (bound + 1) () s).2 = if s.front == .endOfInput then s else
      (loop (fileStep rules) bound () (item rules s).2).2 := by
  have hstep : fileStep rules () s = (if s.front == .endOfInput then done [] else
    (item rules >>= fun nodes => again nodes)) s := rfl
  have hbind : ∀ {α β : Type} (p : Parse α) (f : α → Parse β) (t : State),
      (p >>= f) t = f (p t).1 (p t).2 := fun _ _ _ => rfl
  rw [loop, hbind, hstep]
  split
  · rfl
  · rfl

/-- A shebang line starts with its trivia. -/
theorem fileShebang_flushed (wf : s.scanner.WellFormed) :
    (fileShebang rules s.flushed).2 =
      if s.front == .shebangStart then (fileShebang rules s).2 else s.flushed := by
  have hat : ∀ t : State, fileShebang rules t = (if t.front == .shebangStart then
    (shebang rules none >>= fun line => lineEnd rules >>= fun ending => pure (line ++ ending))
      else pure []) t := fun _ => rfl
  have hline : (shebang rules none s.flushed).2 = (shebang rules none s).2 :=
    after_flushed (fun _ _ _ => rfl) wf
  rw [hat, hat, front_flushed wf]
  split
  · exact congrArg (fun t => (lineEnd rules t).2) hline
  · rfl

theorem fileShebang_of_ne (hne : (s.front == .shebangStart) = false) :
    (fileShebang rules s).2 = s := by
  have hat : fileShebang rules s = (if s.front == .shebangStart then
    (shebang rules none >>= fun line => lineEnd rules >>= fun ending => pure (line ++ ending))
      else pure []) s := rfl
  rw [hat, hne]
  rfl

/-- The trivia at the start of a file is taken first, whatever stands behind it. -/
theorem file_flushed {bound : Nat} (hbudget : rules.budget = bound + 1)
    (wf : s.scanner.WellFormed) : (file rules s.flushed).2 = (file rules s).2 := by
  have hfile : ∀ t : State, (file rules t).2 =
      (loop (fileStep rules) rules.budget () (fileShebang rules t).2).2.flushed := fun _ => rfl
  rw [hfile, hfile, fileShebang_flushed wf]
  split
  · rfl
  · next hne =>
    rw [fileShebang_of_ne (Bool.eq_false_iff.2 hne), hbudget, loop_fileStep, loop_fileStep,
      front_flushed wf, item_flushed wf]
    split
    · exact flushed_flushed wf
    · rfl

end Flushed

/-! ## Runs -/

/-- Nothing was taken yet. -/
theorem spaced_ofText (source : Text) : Spaced source 0 .outer (.ofText source) [] := by
  have hnone : ∀ {token : Token}, token ∉ ([] : List Token) := List.not_mem_nil
  refine ⟨Nat.zero_le 1, fun _ => rfl, Scanner.placed_ofText source, ?_, ?_, Nat.zero_le _,
    fun _ hmem => absurd hmem hnone, fun _ hmem => absurd hmem hnone,
    fun _ hmem => absurd hmem hnone⟩
  · rintro ⟨-, ⟨c, hc, -⟩ | ⟨-, token, hmem, -⟩⟩
    · cases hc
    · exact absurd hmem hnone
  · intro token hhead
    cases hhead

/-- A body that is still to be opened is opened at the scanner's place or behind it. -/
theorem Spaced.raise {source : Text} {low : Nat} {c : Context} {s : Scanner}
    {consumed : List Token} (h : Spaced source low c s consumed)
    (hnone : ∀ token ∈ consumed, token.kind ≠ .indent) : Spaced source s.offset c s consumed :=
  ⟨h.bodies_le, h.bodyStart, h.placed, h.inText, h.entered, Nat.le_refl _, h.starts,
    fun token hmem hkind => absurd hkind (hnone token hmem), h.apart⟩

/-- What a whole run consumes. No body is opened in front of the trivia that the source starts with. -/
theorem spaced_run (limit : Nat) (source : Text) :
    Spaced source (State.ofText source).flushed.scanner.offset .outer (run limit source).2.scanner
      (run limit source).2.consumed := by
  have wf : (State.ofText source).scanner.WellFormed := Scanner.wellFormed_ofText source
  have hstart : (spaced source 0).inv .outer (.ofText source) :=
    ⟨balanced_start [] source, fun _ => spaced_ofText source⟩
  have hflushed : (spaced source 0).inv .outer (State.ofText source).flushed :=
    ((lawful_spaced source 0).trivia hstart).1
  have hnone : ∀ token ∈ (State.ofText source).flushed.consumed, token.kind ≠ .indent := by
    intro token hmem hkind
    have hkinds : levelKinds (State.ofText source).flushed.consumed = [] := (steady_flushed wf).kinds
    have hlevel : Token.Kind.indent ∈ levelKinds (State.ofText source).flushed.consumed := by
      rw [← hkind]
      exact List.mem_filter.2 ⟨List.mem_map_of_mem hmem, by rw [hkind]; rfl⟩
    rw [hkinds] at hlevel
    cases hlevel
  have lawful := lawful_spaced source (State.ofText source).flushed.scanner.offset
  have hinv : (spaced source (State.ofText source).flushed.scanner.offset).inv .outer
      (State.ofText source).flushed :=
    ⟨hflushed.1, fun hlive => (hflushed.2 hlive).raise hnone⟩
  have pairs := lawful.pairs_tie (Nat.le_refl limit) (.inl rfl)
    (Nat.le_refl (budgetFor source.length))
  have hlast := exhausted_run limit source
  have hbudget : (Rules.tie limit (budgetFor source.length)).budget = 8 * source.length + 7 + 1 := by
    change 8 * (source.length + 1) = _
    omega
  rw [run_eq] at hlast ⊢
  generalize Rules.tie limit (budgetFor source.length) = rules at *
  have hrun := (lawful.file (c := .outer) rfl rfl pairs rfl hinv).1
  rw [file_flushed hbudget wf] at hrun
  exact hrun.2 hlast

/-- What was taken by a run of tokens is never given back. -/
theorem offset_le_of_run {mode : Mode} {s t : Scanner} {tokens : List Token}
    (run : Scanner.Run mode s tokens t) : s.offset ≤ t.offset := by
  induction run with
  | nil => exact Nat.le_refl _
  | @cons s t tokens _ ih =>
    have htakes := (Scanner.takes_next s mode).offset_eq
    omega

/-- White space is taken before the scanner stops. -/
theorem exists_run_of_whitespace {mode : Mode} {s t : Scanner} {tokens : List Token}
    (run : Scanner.Run mode s tokens t) (hkind : (s.next mode).1.kind = .whitespace)
    (hstop : (t.next mode).1.kind ≠ .whitespace) :
    ∃ more, Scanner.Run mode (s.next mode).2 more t := by
  cases run with
  | nil => exact absurd hkind hstop
  | cons run => exact ⟨_, run⟩

/-- The trivia at the start of a source. -/
theorem run_ofText (source : Text) :
    (∃ tokens, Scanner.Run .normal (.ofText source) tokens (State.ofText source).flushed.scanner) ∧
      ((State.ofText source).flushed.scanner.next .normal).1.kind ≠ .whitespace := by
  have wf : (Stream.ofText source).scanner.WellFormed := Scanner.wellFormed_ofText source
  obtain ⟨hrun, -, hstop⟩ := Stream.takeTrivia_spec wf
  refine ⟨⟨_, hrun⟩, fun hkind => ?_⟩
  have htrivia : (Stream.ofText source).flushed.isTrivia .whitespace = true := rfl
  rw [← hkind] at htrivia
  exact absurd (hstop.symm.trans htrivia) Bool.false_ne_true

/-- In front of a blank, white space is read outside of literals and bodies. -/
theorem next_of_blank {s : Scanner} (ready : s.Ready) (hblank : ∃ c ∈ s.rest.head?, isBlank c = true) :
    (s.next .normal).1.kind = .whitespace := by
  obtain ⟨c, rest, hrest, hblank⟩ := Measure.exists_cons_of_blank hblank
  obtain ⟨hnewline, -, -, -⟩ := Gap.starts_nothing hblank rest
  have hsigns : ['#', '!'].isPrefixOf (c :: rest) = false :=
    Measure.isPrefixOf_stops (by decide) hblank [] rest
  have hwhite : (c == ' ' || c == '\t' || c == '\r') = true := by
    unfold isBlank at hblank
    rw [hblank, Bool.true_or]
  rw [ready.next_eq .normal]
  dsimp only
  unfold Scanner.normal
  rw [hrest]
  dsimp only
  rw [hsigns, Bool.and_false, hnewline]
  simp only [Bool.false_eq_true, if_false]
  unfold Scanner.normalToken
  rw [if_pos hwhite]
  rfl

/-- Where blanks follow the byte order mark, they are trivia at the start as well. -/
theorem base_lt_offset_flushed {source : Text} {x : Scanner} (placed : x.Placed source)
    (hbase : x.offset = x.base) (hpos : 0 < x.offset)
    (hblank : ∃ c ∈ x.rest.head?, isBlank c = true) :
    x.base < (State.ofText source).flushed.scanner.offset := by
  obtain ⟨taken, hsource, hoffset, -⟩ := placed.split
  have hlt : (Scanner.ofText source).offset < (Scanner.ofText source).base := by
    rw [← placed.base, ← hbase]
    exact hpos
  have hmark : source.head? = some Scanner.byteOrderMark :=
    (Scanner.placed_ofText source).head?_of_lt hlt
  have hsize : (Scanner.ofText source).base = Scanner.byteOrderMark.utf8Size := by
    unfold Scanner.ofText
    rw [hmark]
    rfl
  -- The mark is all that stands in front of the blanks.
  obtain rfl : taken = [Scanner.byteOrderMark] := by
    cases taken with
    | nil =>
      rw [hoffset] at hpos
      cases hpos
    | cons c taken =>
      rw [hsource, List.cons_append, List.head?_cons, Option.some_inj] at hmark
      subst hmark
      rw [hbase, placed.base, hsize, Text.byteSize_cons] at hoffset
      have hnone : ¬0 < byteSize taken := by omega
      by_contra hne
      exact hnone (Gap.byteSize_pos fun hnil => hne (by rw [hnil]))
  obtain ⟨⟨tokens, hrun⟩, hstop⟩ := run_ofText source
  have hfirst : (Scanner.ofText source).next .normal = (Scanner.ofText source).emit .whitespace 1 :=
    Scanner.next_of_lt_base rfl hlt
  obtain ⟨_, hrun⟩ := exists_run_of_whitespace hrun (by rw [hfirst]; rfl) hstop
  have hwf := (Scanner.wellFormed_ofText source).next .normal
  rw [hfirst] at hrun hwf
  generalize hsecond : ((Scanner.ofText source).emit .whitespace 1).2 = s at hrun hwf
  have hbehind : s.rest = x.rest := by
    rw [← hsecond]
    change source.drop 1 = x.rest
    rw [hsource]
    rfl
  have hat : s.offset = x.base := by
    rw [← hsecond, placed.base, hsize]
    change 0 + byteSize (source.take 1) = _
    rw [hsource]
    simp
  have ready : s.Ready := by
    have hle : s.base ≤ s.offset := by
      rw [hat, placed.base, ← hsecond]
      exact Nat.le_refl _
    rw [← hsecond] at hle ⊢
    exact ⟨rfl, hle, rfl, rfl⟩
  rw [← hbehind] at hblank
  have hkind := next_of_blank ready hblank
  obtain ⟨_, hrun⟩ := exists_run_of_whitespace hrun hkind hstop
  have hle := offset_le_of_run hrun
  have htakes := (Scanner.takes_next s .normal).offset_eq
  have htext := Gap.byteSize_pos (Scanner.text_next_ne_nil hwf (by rw [hkind]; rfl))
  omega

/-! ## Leaves -/

/-- A leaf of white space is a token that was consumed. -/
theorem exists_token_of_mark {tokens : List Token} {nodes : Forest}
    (hmarks : tokens.map tokenMark = Node.tokenMarks nodes) {leaf : Node}
    (hmem : leaf ∈ Node.preorderList nodes) (hleaf : leaf.isLeaf = true)
    (hkind : leaf.kind = .token .whitespace) :
    ∃ token ∈ tokens, token.kind = .whitespace ∧ token.span = leaf.span := by
  have hmark : leaf.mark ∈ tokens.map tokenMark := by
    rw [hmarks]
    refine List.mem_map_of_mem (List.mem_filter.2 ⟨hmem, ?_⟩)
    rw [hleaf, hkind]
    rfl
  obtain ⟨token, htoken, hsame⟩ := List.mem_map.1 hmark
  obtain ⟨hsameKind, hspan⟩ := Prod.mk.inj hsame
  refine ⟨token, htoken, ?_, hspan⟩
  rw [hkind] at hsameKind
  cases hother : token.kind with
  | whitespace => rfl
  | _ =>
    rw [hother] at hsameKind
    cases hsameKind

theorem exists_token_of_leaf (limit : Nat) (source : Text) {leaf : Node}
    (hleaf : leaf ∈ (parse limit source).root.leaves) (hkind : leaf.kind = .token .whitespace) :
    ∃ token ∈ (run limit source).2.consumed,
      token.kind = .whitespace ∧ token.span = leaf.span := by
  obtain ⟨tokens, hconsumed, hmarks⟩ := (derives_file limit source).1.emits
  obtain ⟨hmem, hisLeaf⟩ := List.mem_filter.1 hleaf
  rw [root_parse, Node.preorder_eq_cons, Node.children_branch] at hmem
  rcases List.mem_cons.1 hmem with hroot | hmem
  · rw [hroot] at hkind
    cases hkind
  · obtain ⟨token, htoken, htokenKind, hspan⟩ := exists_token_of_mark hmarks hmem hisLeaf hkind
    refine ⟨token, ?_, htokenKind, hspan⟩
    rw [hconsumed]
    exact List.mem_append_left _ (List.mem_reverse.2 htoken)

/-- A scanner behind the front of a source has the rest of it left. -/
theorem rest_of_offset {front back : Text} {x : Scanner} (placed : x.Placed (front ++ back))
    (hoffset : x.offset = byteSize front) : x.rest = back ∧ x.previous = front.getLast? := by
  obtain ⟨taken, hsource, htaken, hprevious⟩ := placed.split
  have hfront := Text.takeBytes?_append front back
  have hback := Text.dropBytes?_append front back
  rw [hsource, ← hoffset, htaken] at hfront hback
  rw [Text.takeBytes?_append, Option.some_inj] at hfront
  rw [Text.dropBytes?_append, Option.some_inj] at hback
  exact ⟨hback, hfront ▸ hprevious⟩

/-- A token of blanks inside a line is a whole run of them, and no body is opened in front of it. -/
theorem Spaced.blanks {front old back : Text} {low : Nat} {c : Context} {s : Scanner}
    {consumed : List Token} (h : Spaced (front ++ (old ++ back)) low c s consumed)
    (hlow : ∀ x : Scanner, x.Placed (front ++ (old ++ back)) → x.offset = x.base → 0 < x.offset →
      (∃ c ∈ x.rest.head?, isBlank c = true) → x.base < low)
    {token : Token} (hmem : token ∈ consumed) (hkind : token.kind = .whitespace)
    (hspan : token.span = ⟨byteSize front, byteSize front + byteSize old⟩)
    (hold : ∀ c ∈ old, isBlank c = true) (hfront : front ≠ [])
    (hline : front.getLast? ≠ some '\n') :
    old ≠ [] ∧ (∀ c ∈ front.getLast?, isBlank c = false) ∧
      (∀ c ∈ back.head?, isBlank c = false) ∧
      ∀ other ∈ consumed, other.kind = .indent → other.span.start ≠ byteSize front := by
  obtain ⟨x, y, hxy, -, apart⟩ := h.apart token hmem hkind
  obtain ⟨hx, hy⟩ := Span.mk.inj (hxy.symm.trans hspan)
  have hne : old ≠ [] := by
    rintro rfl
    have hlt := apart.lt
    rw [hx, hy] at hlt
    exact Nat.lt_irrefl _ hlt
  obtain ⟨hrest, hprevious⟩ := rest_of_offset apart.first hx
  have hplaced := apart.second
  rw [← List.append_assoc] at hplaced
  rw [← Text.byteSize_append] at hy
  obtain ⟨hrest', hprevious'⟩ := rest_of_offset hplaced hy
  have hahead : ∃ d ∈ x.rest.head?, isBlank d = true := by
    rw [hrest, List.head?_append_of_ne_nil _ hne]
    exact ⟨old.head hne, List.head?_eq_some_head hne, hold _ (List.head_mem hne)⟩
  have hbehind : ∃ d ∈ y.previous, isBlank d = true := by
    rw [hprevious', List.getLast?_append_of_ne_nil _ hne]
    exact ⟨old.getLast hne, List.getLast?_eq_some_getLast hne, hold _ (List.getLast_mem hne)⟩
  -- Behind the byte order mark a line starts as well, but there bodies are opened further behind.
  have hlater : x.atLineStart = true → ∀ other ∈ consumed, other.kind = .indent →
      x.offset < other.span.start := by
    intro hstart other hother hindent
    unfold Scanner.atLineStart at hstart
    rw [Bool.or_eq_true, beq_iff_eq, beq_iff_eq, hprevious] at hstart
    have hbase := hstart.resolve_right hline
    have hlt := hlow x apart.first hbase (hx ▸ Gap.byteSize_pos hfront) hahead
    have hle := h.low_indent other hother hindent
    omega
  refine ⟨hne, ?_, ?_, ?_⟩
  · intro d hd
    by_contra hblank
    rw [Bool.not_eq_false] at hblank
    exact apart.start ⟨⟨d, hprevious ▸ hd, hblank⟩, hahead⟩
  · intro d hd
    by_contra hblank
    rw [Bool.not_eq_false] at hblank
    obtain ⟨hstart, other, hother, hindent, hle⟩ := apart.stop ⟨hbehind, d, hrest' ▸ hd, hblank⟩
    exact Nat.not_lt_of_le hle (hlater hstart other hother hindent)
  · intro other hother hindent
    rw [← hx]
    cases hstart : x.atLineStart with
    | true => exact Nat.ne_of_gt (hlater hstart other hother hindent)
    | false => exact apart.noIndent hahead hstart other hother hindent

/-- A leaf of blanks inside a line is a whole run of them, and no body is opened in front of it. -/
theorem blanks_of_leaf (limit : Nat) {front old back : Text} {leaf : Node}
    (hleaf : leaf ∈ (parse limit (front ++ (old ++ back))).root.leaves)
    (hkind : leaf.kind = .token .whitespace)
    (hspan : leaf.span = ⟨byteSize front, byteSize front + byteSize old⟩)
    (hold : ∀ c ∈ old, isBlank c = true) (hfront : front ≠ [])
    (hline : front.getLast? ≠ some '\n') :
    old ≠ [] ∧ (∀ c ∈ front.getLast?, isBlank c = false) ∧
      (∀ c ∈ back.head?, isBlank c = false) ∧
      ∀ token ∈ (run limit (front ++ (old ++ back))).2.consumed, token.kind = .indent →
        token.span.start ≠ byteSize front := by
  obtain ⟨token, hmem, htoken, hsame⟩ := exists_token_of_leaf limit _ hleaf hkind
  exact (spaced_run limit _).blanks (fun _ placed => base_lt_offset_flushed placed) hmem htoken
    (hsame.trans hspan) hold hfront hline

end Grammar

end Justfile
