import Justfile.Proofs.Scanner.Cut

/-!
# Measures across a gap

Two texts that differ in one run of blanks only: a `Gap` says which run stands in the one and which in
the other. A text still to be read has the gap ahead, behind some characters that are the same in both
texts, or has left it behind (`Gap.Splits`).

What a measure counts ends in front of the gap in both texts, or behind it at the same place in both
(`Gap.Meets`): no measure ends within the gap. For that the gap has to be a whole run of blanks, and
the measures have to be those of the text in front of it where a line starts with it.
-/

set_option autoImplicit false

namespace Justfile

open Justfile.Measure

/-- A run of blanks, and another one in its place. -/
structure Gap where
  old : Text
  new : Text
  old_ne : old ≠ []
  new_ne : new ≠ []
  old_blank : ∀ c ∈ old, isBlank c = true
  new_blank : ∀ c ∈ new, isBlank c = true

namespace Gap

/-- The gap seen from the other side. -/
def symm (g : Gap) : Gap := ⟨g.new, g.old, g.new_ne, g.old_ne, g.new_blank, g.old_blank⟩

/-- The two texts are to be read from the same place on. The gap is ahead, behind the characters in
front of it, or nothing is left of it. Neither side of the gap goes on with a blank. -/
inductive Splits (g : Gap) : Option Text → Text → Text → Prop
  | ahead {front back : Text} : (∀ c ∈ front.getLast?, isBlank c = false) →
      (∀ c ∈ back.head?, isBlank c = false) →
      Splits g (some front) (front ++ (g.old ++ back)) (front ++ (g.new ++ back))
  | behind (rest : Text) : Splits g none rest rest

/-- Two numbers of characters reach to the same place of the two texts, which is not within the
gap. -/
inductive Meets (g : Gap) : Option Text → Nat → Nat → Prop
  | within {front : Text} {size : Nat} : size ≤ front.length → Meets g (some front) size size
  | beyond {front : Text} {size size' : Nat} (more : Nat) :
      size = front.length + g.old.length + more → size' = front.length + g.new.length + more →
      Meets g (some front) size size'
  | behind (size : Nat) : Meets g none size size

/-- What stands in front of the gap when some characters are taken. -/
def past : Option Text → Nat → Option Text
  | some front, size => if size ≤ front.length then some (front.drop size) else none
  | none, _ => none

section Gap

variable {g : Gap} {spot : Option Text} {front back text text' : Text} {size size' : Nat}

theorem old_length_pos (g : Gap) : 0 < g.old.length := List.length_pos_iff.2 g.old_ne

theorem new_length_pos (g : Gap) : 0 < g.new.length := List.length_pos_iff.2 g.new_ne

theorem meets_zero (g : Gap) (spot : Option Text) : g.Meets spot 0 0 := by
  cases spot with
  | none => exact .behind 0
  | some front => exact .within (Nat.zero_le _)

theorem Meets.succ (c : Char) (h : g.Meets (some front) size size') :
    g.Meets (some (c :: front)) (size + 1) (size' + 1) := by
  cases h with
  | within hle => exact .within (Nat.succ_le_succ hle)
  | beyond more hsize hsize' =>
    refine .beyond more ?_ ?_
    · rw [List.length_cons]
      omega
    · rw [List.length_cons]
      omega

/-- A number of characters is none in both texts or in neither. -/
theorem Meets.eq_zero_iff (h : g.Meets spot size size') : size = 0 ↔ size' = 0 := by
  have hold := g.old_length_pos
  have hnew := g.new_length_pos
  cases h with
  | within hle => rfl
  | beyond more hsize hsize' => omega
  | behind size => rfl

/-! ## What is left -/

theorem edge_drop (h : ∀ c ∈ front.getLast?, isBlank c = false) (size : Nat) :
    ∀ c ∈ (front.drop size).getLast?, isBlank c = false := by
  intro c hc
  rw [List.getLast?_drop] at hc
  split at hc
  · cases hc
  · exact h c hc

theorem edge_cons {c : Char} (h : ∀ d ∈ (c :: front).getLast?, isBlank d = false) :
    ∀ d ∈ front.getLast?, isBlank d = false :=
  edge_drop h 1

/-- In front of the gap stand characters that are no blanks, unless nothing does. -/
theorem edge_of_forall_blank (h : ∀ c ∈ front.getLast?, isBlank c = false)
    (hblank : ∀ c ∈ front, isBlank c = true) : front = [] := by
  cases hlast : front.getLast? with
  | none => exact List.getLast?_eq_none_iff.1 hlast
  | some c =>
    have hnot := h c hlast
    rw [hblank c (List.mem_of_getLast? hlast)] at hnot
    cases hnot

theorem drop_beyond (front run back : Text) (more : Nat) :
    (front ++ (run ++ back)).drop (front.length + run.length + more) = back.drop more := by
  rw [← List.append_assoc, ← List.length_append, List.drop_append, List.drop_eq_nil_of_le (by omega),
    List.nil_append, Nat.add_sub_cancel_left]

/-- Behind the same place the two texts go on as before. -/
theorem Splits.drop (h : g.Splits spot text text') (hmeets : g.Meets spot size size') :
    g.Splits (past spot size) (text.drop size) (text'.drop size') := by
  have hold := g.old_length_pos
  cases h with
  | behind rest =>
    cases hmeets
    exact .behind _
  | ahead hfront hback =>
    cases hmeets with
    | within hle =>
      rw [past, if_pos hle, List.drop_append_of_le_length hle, List.drop_append_of_le_length hle]
      exact .ahead (edge_drop hfront _) hback
    | beyond more hsize hsize' =>
      subst hsize hsize'
      rw [past, if_neg (by omega), drop_beyond, drop_beyond]
      exact .behind _

theorem Splits.isEmpty_eq (h : g.Splits spot text text') : text'.isEmpty = text.isEmpty := by
  cases h with
  | behind => rfl
  | @ahead front back hfront hback =>
    have hold : front ++ (g.old ++ back) ≠ [] := by simp [g.old_ne]
    have hnew : front ++ (g.new ++ back) ≠ [] := by simp [g.new_ne]
    rw [List.isEmpty_eq_false_iff.2 hold, List.isEmpty_eq_false_iff.2 hnew]

theorem meets_length (h : g.Splits spot text text') :
    g.Meets spot text.length text'.length := by
  cases h with
  | behind => exact .behind _
  | @ahead front back hfront hback =>
    refine .beyond back.length ?_ ?_
    · simp only [List.length_append, Nat.add_assoc]
    · simp only [List.length_append, Nat.add_assoc]

/-! ## Measures that stop at a blank -/

theorem old_eq_cons (g : Gap) :
    ∃ blank rest, g.old = blank :: rest ∧ isBlank blank = true ∧ ∀ c ∈ rest, isBlank c = true := by
  obtain ⟨blank, rest, hold⟩ := List.exists_cons_of_ne_nil g.old_ne
  have hblank := g.old_blank
  rw [hold] at hblank
  exact ⟨blank, rest, hold, hblank blank List.mem_cons_self,
    fun c hc => hblank c (List.mem_cons_of_mem _ hc)⟩

theorem stops_old {α : Type} {f : Text → α} (hf : StopsAtBlank f) (front back : Text) :
    f (front ++ (g.old ++ back)) = f front := by
  obtain ⟨blank, rest, hold, hblank, -⟩ := g.old_eq_cons
  rw [hold, List.cons_append]
  exact hf hblank front (rest ++ back)

theorem stops_new {α : Type} {f : Text → α} (hf : StopsAtBlank f) (front back : Text) :
    f (front ++ (g.new ++ back)) = f front :=
  stops_old (g := g.symm) hf front back

/-- Such a measure finds the same in both texts. -/
theorem Splits.same {α : Type} {f : Text → α} (hf : StopsAtBlank f) (h : g.Splits spot text text') :
    f text' = f text := by
  cases h with
  | behind => rfl
  | @ahead front back _ _ => rw [stops_old hf, stops_new hf]

/-- It counts characters in front of the gap only. -/
theorem Splits.meets_of_stops {m : Text → Nat} (hm : StopsAtBlank m) (hle : ∀ text, m text ≤ text.length)
    (h : g.Splits spot text text') : g.Meets spot (m text) (m text) := by
  cases h with
  | behind => exact .behind _
  | @ahead front back _ _ =>
    rw [stops_old hm]
    exact .within (hle front)

theorem Splits.meets_of_some {m : Text → Option Nat} (hm : StopsAtBlank m)
    (hle : ∀ {text size}, m text = some size → size ≤ text.length)
    (h : g.Splits spot text text') (hsome : m text = some size) : g.Meets spot size size := by
  cases h with
  | behind => exact .behind _
  | @ahead front back _ _ =>
    rw [stops_old hm] at hsome
    exact .within (hle hsome)

theorem Splits.meets_of_isPrefixOf {word : Text} (hword : word.any isBlank = false)
    (h : g.Splits spot text text') (hstarts : word.isPrefixOf text = true) :
    g.Meets spot word.length word.length := by
  cases h with
  | behind => exact .behind _
  | @ahead front back _ _ =>
    rw [stops_old (isPrefixOf_stops hword)] at hstarts
    exact .within (List.isPrefixOf_iff_prefix.1 hstarts).length_le

/-! ## Lines and blanks -/

theorem line_append_blank {run : Text} (hrun : ∀ c ∈ run, isBlank c = true) (back : Text) :
    line (run ++ back) = run.length + line back := by
  induction run with
  | nil => simp
  | cons c run ih =>
    have hmore := ih fun d hd => hrun d (List.mem_cons_of_mem _ hd)
    have hc := newline?_stops (hrun c List.mem_cons_self) [] (run ++ back)
    rw [List.nil_append] at hc
    rw [List.cons_append, line, hc, hmore, List.length_cons]
    simp only [newline?_nil, Option.isSome_none, Bool.false_eq_true, if_false]
    omega

theorem meets_line (h : g.Splits spot text text') : g.Meets spot (line text) (line text') := by
  cases h with
  | behind => exact .behind _
  | @ahead front back hfront hback =>
    induction front with
    | nil =>
      refine .beyond (line back) ?_ ?_
      · simp [line_append_blank g.old_blank]
      · simp [line_append_blank g.new_blank]
    | cons c front ih =>
      have hold := stops_old (g := g) newline?_stops (c :: front) back
      have hnew := stops_new (g := g) newline?_stops (c :: front) back
      rw [List.cons_append] at hold hnew
      rw [List.cons_append, List.cons_append, line, line, hold, hnew]
      split
      · exact meets_zero g _
      · exact (ih (edge_cons hfront)).succ c

theorem indentation_append_blank {run : Text} (hrun : ∀ c ∈ run, isBlank c = true)
    (hback : ∀ c ∈ back.head?, isBlank c = false) : indentation (run ++ back) = run.length := by
  unfold indentation
  rw [List.takeWhile_append_of_pos hrun]
  cases back with
  | nil => simp
  | cons c back => simp [hback c rfl]

/-- Where the gap does not start at once, the indentation ends in front of it. -/
theorem indentation_ahead (hfront : ∀ c ∈ front.getLast?, isBlank c = false) (hne : front ≠ [])
    (run : Text) : indentation (front ++ run) = indentation front ∧
      indentation front ≤ front.length := by
  refine ⟨?_, indentation_le front⟩
  unfold indentation
  rw [List.takeWhile_append]
  split
  · next hall =>
    exfalso
    apply hne
    refine edge_of_forall_blank hfront ?_
    have htake : front.takeWhile isBlank = front :=
      (List.takeWhile_sublist isBlank).eq_of_length hall
    have hall : (front.takeWhile isBlank).all isBlank = true := List.all_takeWhile
    rw [htake] at hall
    exact List.all_eq_true.1 hall
  · rfl

theorem meets_indentation (h : g.Splits spot text text') :
    g.Meets spot (indentation text) (indentation text') := by
  cases h with
  | behind => exact .behind _
  | @ahead front back hfront hback =>
    by_cases hne : front = []
    · subst hne
      refine .beyond 0 ?_ ?_
      · simpa using indentation_append_blank g.old_blank hback
      · simpa using indentation_append_blank g.new_blank hback
    · rw [(indentation_ahead hfront hne _).1, (indentation_ahead hfront hne _).1]
      exact .within (indentation_le front)

/-- Away from the gap a line is as deep in both texts. -/
theorem indentation_eq {text text' : Text} (h : g.Splits spot text text') (hspot : spot ≠ some []) :
    indentation text' = indentation text := by
  cases h with
  | behind => rfl
  | @ahead left back hedge _ =>
    have hne : left ≠ [] := by
      rintro rfl
      exact hspot rfl
    rw [(indentation_ahead hedge hne _).1, (indentation_ahead hedge hne _).1]

/-- So many blanks lie in front of the gap, or behind it. -/
theorem meets_of_le_indentation {text text' : Text} (h : g.Splits spot text text')
    (hspot : spot ≠ some []) (hle : size ≤ indentation text) : g.Meets spot size size := by
  cases h with
  | behind => exact .behind size
  | @ahead left back hedge _ =>
    have hne : left ≠ [] := by
      rintro rfl
      exact hspot rfl
    rw [(indentation_ahead hedge hne _).1] at hle
    exact .within (Nat.le_trans hle (indentation_le left))

theorem Splits.atLineEnd_eq (h : g.Splits spot text text') : atLineEnd text' = atLineEnd text := by
  unfold atLineEnd
  rw [h.isEmpty_eq, h.same newline?_stops]

theorem blanks_append_blank {run : Text} (hrun : ∀ c ∈ run, isBlank c = true) (back : Text) :
    blanks (run ++ back) = run.length + blanks back := by
  induction run with
  | nil => simp
  | cons c run ih =>
    have hmore := ih fun d hd => hrun d (List.mem_cons_of_mem _ hd)
    rcases isBlank_iff.1 (hrun c List.mem_cons_self) with rfl | rfl
    · simp only [List.cons_append, blanks, hmore, List.length_cons]
      omega
    · simp only [List.cons_append, blanks, hmore, List.length_cons]
      omega

/-- The blanks between two tokens, character by character. -/
theorem blanks_cons (c : Char) (rest : Text) :
    blanks (c :: rest) = if isBlank c || (c == '\r' && (newline? (c :: rest)).isNone) then
      blanks rest + 1 else 0 := by
  by_cases hspace : c = ' '
  · subst hspace
    rfl
  by_cases htab : c = '\t'
  · subst htab
    rfl
  have hblank : isBlank c = false := by simp [isBlank, hspace, htab]
  by_cases hreturn : c = '\r'
  · subst hreturn
    rcases rest with _ | ⟨d, rest⟩
    · rfl
    · by_cases hfeed : d = '\n'
      · subst hfeed
        rfl
      · simp [blanks, newline?, hfeed]
  · simp [blanks, hspace, htab, hreturn, hblank]

theorem meets_blanks (h : g.Splits spot text text') :
    g.Meets spot (blanks text) (blanks text') := by
  cases h with
  | behind => exact .behind _
  | @ahead front back hfront hback =>
    induction front with
    | nil =>
      refine .beyond (blanks back) ?_ ?_
      · simp [blanks_append_blank g.old_blank]
      · simp [blanks_append_blank g.new_blank]
    | cons c front ih =>
      have hold := stops_old (g := g) newline?_stops (c :: front) back
      have hnew := stops_new (g := g) newline?_stops (c :: front) back
      rw [List.cons_append] at hold hnew
      rw [List.cons_append, List.cons_append, blanks_cons, blanks_cons, hold, hnew]
      split
      · exact (ih (edge_cons hfront)).succ c
      · exact meets_zero g _

/-- Blank lines, character by character. A carriage return in front of a line feed waits for it like a
blank. -/
theorem blankLinesFrom_cons (counted pending : Nat) (c : Char) (rest : Text) :
    blankLinesFrom counted pending (c :: rest) =
      if isBlank c || (c == '\r' && (newline? (c :: rest)).isSome) then
        blankLinesFrom counted (pending + 1) rest
      else if c == '\n' then blankLinesFrom (counted + pending + 1) 0 rest else counted := by
  by_cases hspace : c = ' '
  · subst hspace
    rfl
  by_cases htab : c = '\t'
  · subst htab
    rfl
  by_cases hfeed : c = '\n'
  · subst hfeed
    rfl
  have hblank : isBlank c = false := by simp [isBlank, hspace, htab]
  by_cases hreturn : c = '\r'
  · subst hreturn
    rcases rest with _ | ⟨d, rest⟩
    · rfl
    · by_cases hnext : d = '\n'
      · subst hnext
        rfl
      · simp [blankLinesFrom, newline?, hnext, isBlank]
  · simp [blankLinesFrom, hspace, htab, hreturn, hblank, hfeed]

/-- Lines that are counted already are no more than counted. -/
theorem blankLinesFrom_add (more counted pending : Nat) (text : Text) :
    blankLinesFrom (more + counted) pending text = more + blankLinesFrom counted pending text := by
  induction text generalizing counted pending with
  | nil => simp only [blankLinesFrom, Nat.add_assoc]
  | cons c rest ih =>
    have hassoc : more + counted + pending + 1 = more + (counted + pending + 1) := by omega
    rw [blankLinesFrom_cons, blankLinesFrom_cons, hassoc, ih, ih]
    split
    · rfl
    · split <;> rfl

theorem blankLinesFrom_append_blank {run : Text} (hrun : ∀ c ∈ run, isBlank c = true)
    (counted pending : Nat) (back : Text) :
    blankLinesFrom counted pending (run ++ back) =
      blankLinesFrom counted (pending + run.length) back := by
  induction run generalizing pending with
  | nil => simp
  | cons c run ih =>
    have hmore := ih (fun d hd => hrun d (List.mem_cons_of_mem _ hd)) (pending + 1)
    rw [List.cons_append, blankLinesFrom_cons, hrun c List.mem_cons_self, Bool.true_or, if_pos rfl,
      hmore, List.length_cons, Nat.add_assoc, Nat.add_comm 1]

/-- The blanks that wait in front of a text are counted all or not at all, whatever their number. -/
theorem blankLinesFrom_pending (back : Text) :
    (∀ counted pending, blankLinesFrom counted pending back = counted) ∨
      ∃ more, ∀ counted pending,
        blankLinesFrom counted pending back = counted + pending + more := by
  induction back with
  | nil => exact .inr ⟨0, fun _ _ => rfl⟩
  | cons c back ih =>
    by_cases hwaits : (isBlank c || (c == '\r' && (newline? (c :: back)).isSome)) = true
    · rcases ih with hnone | ⟨more, hmore⟩
      · refine .inl fun counted pending => ?_
        rw [blankLinesFrom_cons, if_pos hwaits, hnone]
      · refine .inr ⟨more + 1, fun counted pending => ?_⟩
        rw [blankLinesFrom_cons, if_pos hwaits, hmore]
        omega
    · by_cases hfeed : (c == '\n') = true
      · refine .inr ⟨1 + blankLines back, fun counted pending => ?_⟩
        have hadd := blankLinesFrom_add (counted + pending + 1) 0 0 back
        rw [blankLinesFrom_cons, if_neg hwaits, if_pos hfeed, blankLines, ← Nat.add_assoc]
        exact hadd
      · refine .inl fun counted pending => ?_
        rw [blankLinesFrom_cons, if_neg hwaits, if_neg hfeed]

/-- Blank lines, behind as many characters as are counted or wait. -/
theorem meets_blankLinesFrom (whole front back : Text) (counted pending : Nat)
    (hwhole : whole.length = counted + pending + front.length) :
    g.Meets (some whole) (blankLinesFrom counted pending (front ++ (g.old ++ back)))
      (blankLinesFrom counted pending (front ++ (g.new ++ back))) := by
  induction front generalizing counted pending with
  | nil =>
    rw [List.nil_append, List.nil_append, blankLinesFrom_append_blank g.old_blank,
      blankLinesFrom_append_blank g.new_blank]
    rw [List.length_nil, Nat.add_zero] at hwhole
    rcases blankLinesFrom_pending back with hnone | ⟨more, hmore⟩
    · rw [hnone, hnone]
      exact .within (by omega)
    · rw [hmore, hmore]
      exact .beyond more (by omega) (by omega)
  | cons c front ih =>
    have hold := stops_old (g := g) newline?_stops (c :: front) back
    have hnew := stops_new (g := g) newline?_stops (c :: front) back
    rw [List.length_cons] at hwhole
    rw [List.cons_append] at hold hnew
    rw [List.cons_append, List.cons_append, blankLinesFrom_cons, blankLinesFrom_cons, hold, hnew]
    split
    · exact ih counted (pending + 1) (by omega)
    · split
      · exact ih (counted + pending + 1) 0 (by omega)
      · exact .within (by omega)

theorem meets_blankLines (h : g.Splits spot text text') :
    g.Meets spot (blankLines text) (blankLines text') := by
  cases h with
  | behind => exact .behind _
  | @ahead front back hfront hback => exact meets_blankLinesFrom front front back 0 0 (by simp)

/-- Of two stretches one after the other both ends meet. -/
theorem Meets.add {more more' : Nat} (h : g.Meets spot size size')
    (hmore : g.Meets (past spot size) more more') : g.Meets spot (size + more) (size' + more') := by
  cases h with
  | behind =>
    cases hmore
    exact .behind _
  | @within front _ hle =>
    rw [past, if_pos hle] at hmore
    cases hmore with
    | within hle' =>
      rw [List.length_drop] at hle'
      exact .within (by omega)
    | beyond rest hsize hsize' =>
      rw [List.length_drop] at hsize hsize'
      exact .beyond rest (by omega) (by omega)
  | @beyond front _ _ rest hsize hsize' =>
    have hold := g.old_length_pos
    rw [past, if_neg (by omega)] at hmore
    cases hmore
    exact .beyond (rest + more) (by omega) (by omega)

theorem meets_continuation? (h : g.Splits spot text text') :
    Option.Rel (g.Meets spot) (continuation? text) (continuation? text') := by
  cases h with
  | behind =>
    cases continuation? text with
    | none => exact .none
    | some size => exact .some (.behind size)
  | @ahead front back hfront hback =>
    cases front with
    | nil =>
      have hnone := fun (run : Text) (hrun : ∀ c ∈ run, isBlank c = true) (hne : run ≠ []) =>
        show continuation? (run ++ back) = none by
          obtain ⟨c, rest, rfl⟩ := List.exists_cons_of_ne_nil hne
          rcases isBlank_iff.1 (hrun c List.mem_cons_self) with rfl | rfl <;> rfl
      rw [List.nil_append, List.nil_append, hnone _ g.old_blank g.old_ne,
        hnone _ g.new_blank g.new_ne]
      exact .none
    | cons c front =>
      by_cases hback : c = '\\'
      · subst hback
        have hsplits : g.Splits (some front) (front ++ (g.old ++ back)) (front ++ (g.new ++ back)) :=
          .ahead (edge_cons hfront) ‹_›
        have hwidth := meets_indentation hsplits
        have hrest := hsplits.drop hwidth
        have hsame := hrest.same newline?_stops
        simp only [List.cons_append, continuation?, hsame]
        cases hline : newline? ((front ++ (g.old ++ back)).drop
            (indentation (front ++ (g.old ++ back)))) with
        | none => exact .none
        | some size =>
          have hmeets := (hwidth.add (hrest.meets_of_some newline?_stops newline?_le hline)).succ '\\'
          refine .some ?_
          simpa only [Nat.add_comm 1, Nat.add_right_comm] using hmeets
      · have hnone : ∀ rest, continuation? (c :: rest) = none := by
          intro rest
          simp [continuation?, hback]
        rw [List.cons_append, List.cons_append, hnone, hnone]
        exact .none

/-! ## Runs of units -/

/-- The unit reads the two texts alike, and takes the blanks of a gap one by one. -/
structure ReadsAcross (unit? : Text → Option Nat) : Prop where
  blank : ∀ {c : Char}, isBlank c = true → ∀ rest, unit? (c :: rest) = some 1
  other : ∀ {g : Gap} {spot : Option Text} {text text' : Text}, g.Splits spot text text' →
    spot ≠ some [] → Option.Rel (g.Meets spot) (unit? text) (unit? text')

theorem runFrom_append_blank {unit? : Text → Option Nat} (across : ReadsAcross unit?) {run : Text}
    (hrun : ∀ c ∈ run, isBlank c = true) (back : Text) :
    runFrom unit? 0 (run ++ back) = run.length + runFrom unit? 0 back := by
  induction run with
  | nil => simp
  | cons c run ih =>
    have hmore := ih fun d hd => hrun d (List.mem_cons_of_mem _ hd)
    simp only [List.cons_append, runFrom, across.blank (hrun c List.mem_cons_self), Nat.sub_self,
      hmore, List.length_cons]
    omega

theorem runFrom_append_skip (unit? : Text → Option Nat) (run back : Text) (skip : Nat) :
    runFrom unit? (run.length + skip) (run ++ back) = run.length + runFrom unit? skip back := by
  induction run with
  | nil => simp
  | cons c run ih =>
    rw [List.cons_append, List.length_cons, Nat.add_right_comm, runFrom, ih]
    omega

theorem meets_runFrom {unit? : Text → Option Nat} (across : ReadsAcross unit?) {skip skip' : Nat}
    (h : g.Splits spot text text') (hskip : g.Meets spot skip skip') :
    g.Meets spot (runFrom unit? skip text) (runFrom unit? skip' text') := by
  cases h with
  | behind =>
    cases hskip
    exact .behind _
  | @ahead front back hfront hback =>
    -- On the characters in front of the gap; the skips count those of a unit already begun.
    induction front generalizing skip skip' with
    | nil =>
      cases hskip with
      | within hle =>
        obtain rfl := Nat.le_zero.1 hle
        refine .beyond (runFrom unit? 0 back) ?_ ?_
        · simpa using runFrom_append_blank across g.old_blank back
        · simpa using runFrom_append_blank across g.new_blank back
      | beyond more hsize hsize' =>
        subst hsize hsize'
        refine .beyond (runFrom unit? more back) ?_ ?_
        · simpa using runFrom_append_skip unit? g.old back more
        · simpa using runFrom_append_skip unit? g.new back more
    | cons c front ih =>
      have ih := fun {skip skip' : Nat} => @ih skip skip' (edge_cons hfront)
      have hpred : ∀ {size size' : Nat}, g.Meets (some (c :: front)) size size' →
          g.Meets (some front) (size - 1) (size' - 1) := by
        intro size size' hmeets
        cases hmeets with
        | within hle =>
          rw [List.length_cons] at hle
          exact .within (by omega)
        | beyond more hsize hsize' =>
          rw [List.length_cons] at hsize hsize'
          exact .beyond more (by omega) (by omega)
      cases skip with
      | succ skip =>
        obtain ⟨skip', rfl⟩ : ∃ more, skip' = more + 1 := by
          apply Nat.exists_eq_succ_of_ne_zero
          intro hzero
          cases hskip.eq_zero_iff.2 hzero
        simp only [List.cons_append, runFrom]
        exact (ih (hpred hskip)).succ c
      | zero =>
        obtain rfl := hskip.eq_zero_iff.1 rfl
        have hunit := across.other (.ahead (g := g) hfront hback) (by simp)
        rw [List.cons_append, List.cons_append] at hunit ⊢
        simp only [runFrom]
        generalize unit? (c :: (front ++ (g.old ++ back))) = found at hunit ⊢
        generalize unit? (c :: (front ++ (g.new ++ back))) = found' at hunit ⊢
        cases hunit with
        | none => exact meets_zero g _
        | some hmeets => exact (ih (hpred hmeets)).succ c

theorem meets_run {unit? : Text → Option Nat} (across : ReadsAcross unit?)
    (h : g.Splits spot text text') : g.Meets spot (run unit? text) (run unit? text') :=
  meets_runFrom across h (meets_zero g spot)

/-- One character ahead of the gap. -/
theorem Splits.meets_one (h : g.Splits spot text text') (hspot : spot ≠ some []) :
    g.Meets spot 1 1 := by
  cases h with
  | behind => exact .behind 1
  | @ahead front back _ _ =>
    refine .within (List.length_pos_iff.2 ?_)
    rintro rfl
    exact hspot rfl

theorem meets_braces (h : g.Splits spot text text') (hbraces : escapedBraces text = true) :
    g.Meets spot 4 4 := by
  rw [escapedBraces_eq] at hbraces
  exact h.meets_of_isPrefixOf (by decide) hbraces

theorem meets_opensInterpolation (h : g.Splits spot text text')
    (hopens : opensInterpolation text = true) : g.Meets spot 2 2 := by
  have hdouble := (Bool.and_eq_true_iff.1 hopens).1
  rw [doubleBrace_eq] at hdouble
  exact h.meets_of_isPrefixOf (by decide) hdouble

theorem head?_backslash_stops : StopsAtBlank fun text => text.head? == some '\\' :=
  head?_stops (by decide)

/-- A blank is neither the end of a line nor the start of anything. -/
theorem starts_nothing {c : Char} (hc : isBlank c = true) (rest : Text) :
    newline? (c :: rest) = none ∧ escapedBraces (c :: rest) = false ∧
      doubleBrace (c :: rest) = false ∧ ((c :: rest).head? == some '\\') = false :=
  ⟨newline?_stops hc [] rest, escapedBraces_stops.blank hc [] rest,
    doubleBrace_stops.blank hc [] rest, head?_backslash_stops hc [] rest⟩

theorem stringUnit?_across (d : Dialect) : ReadsAcross (stringUnit? d) where
  blank hc rest := by
    obtain ⟨-, hescaped, hdouble, hback⟩ := starts_nothing hc rest
    have hclosing := isPrefixOf_stops d.isBlank_closing hc [] rest
    have hnil : d.closing.isPrefixOf [] = false := by
      rw [← Bool.not_eq_true]
      exact fun h => ne_nil_of_isPrefixOf d.closing_length_pos h rfl
    rw [List.nil_append, hnil] at hclosing
    simp only [stringUnit?, hclosing, hescaped, hdouble, hback, Bool.and_false, Bool.false_eq_true,
      if_false]
  other h hspot := by
    unfold stringUnit?
    rw [h.same (isPrefixOf_stops d.isBlank_closing), h.same head?_backslash_stops,
      h.same escape?_stops, h.same escapedBraces_stops.blank, h.same doubleBrace_stops.blank]
    split
    · exact .none
    · split
      · split
        · exact .none
        · exact .some (h.meets_one hspot)
      · split
        · next hbraces => exact .some (meets_braces h (Bool.and_eq_true_iff.1 hbraces).2)
        · split
          · exact .none
          · exact .some (h.meets_one hspot)

theorem commandUnit?_across (indented : Bool) : ReadsAcross (commandUnit? indented) where
  blank hc rest := by
    obtain ⟨-, hescaped, hdouble, -⟩ := starts_nothing hc rest
    have hclosing := isPrefixOf_stops (isBlank_commandDelimiter indented) hc [] rest
    have hnil : (commandDelimiter indented).isPrefixOf [] = false := by
      rw [← Bool.not_eq_true]
      exact fun h => ne_nil_of_isPrefixOf (commandDelimiter_length_pos indented) h rfl
    rw [List.nil_append, hnil] at hclosing
    simp only [commandUnit?, hclosing, hescaped, hdouble, Bool.false_eq_true, if_false]
  other h hspot := by
    unfold commandUnit?
    rw [h.same (isPrefixOf_stops (isBlank_commandDelimiter indented)),
      h.same escapedBraces_stops.blank, h.same doubleBrace_stops.blank]
    split
    · exact .none
    · split
      · next hbraces => exact .some (meets_braces h hbraces)
      · split
        · exact .none
        · exact .some (h.meets_one hspot)

/-- The backslashes can be followed by the gap and the end of the line. Then it belongs to them. -/
theorem meets_backslashes (h : g.Splits spot text text') :
    g.Meets spot (backslashes text) (backslashes text') := by
  have hstops : StopsAtBlank fun text => text.takeWhile (· == '\\') := by
    refine takeWhile_stops fun c hc => ?_
    rcases isBlank_iff.1 hc with rfl | rfl <;> rfl
  have hle : ∀ text : Text, (text.takeWhile (· == '\\')).length ≤ text.length :=
    fun text => (List.takeWhile_sublist _).length_le
  have hcount := h.meets_of_stops (hstops.map List.length) hle
  have hfront := h.meets_of_stops (hstops.map (·.length - 1))
    fun text => Nat.le_trans (Nat.sub_le _ 1) (hle text)
  have hsame : text'.takeWhile (· == '\\') = text.takeWhile (· == '\\') := h.same hstops
  unfold backslashes
  dsimp only
  rw [hsame]
  split
  · have hmore := meets_continuation? (h.drop hfront)
    generalize continuation? (text.drop _) = found at hmore ⊢
    generalize continuation? (text'.drop _) = found' at hmore ⊢
    cases hmore with
    | none => exact hcount
    | some hmeets => exact hfront.add hmeets
  · exact hcount

theorem bodyUnit?_across : ReadsAcross bodyUnit? where
  blank hc rest := by
    obtain ⟨hnewline, hescaped, hdouble, hback⟩ := starts_nothing hc rest
    simp only [bodyUnit?, hnewline, hescaped, hdouble, hback, Option.isSome_none,
      Bool.false_eq_true, if_false]
  other h hspot := by
    unfold bodyUnit?
    rw [h.same newline?_stops, h.same escapedBraces_stops.blank, h.same doubleBrace_stops.blank,
      h.same head?_backslash_stops]
    split
    · exact .none
    · split
      · next hbraces => exact .some (meets_braces h hbraces)
      · split
        · exact .none
        · split
          · exact .some (meets_backslashes h)
          · exact .some (h.meets_one hspot)

end Gap

end Gap

end Justfile
