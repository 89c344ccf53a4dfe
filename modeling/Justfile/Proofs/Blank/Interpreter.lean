import Justfile.Proofs.Blank.Measure

/-!
# Shebang lines across a gap

The two texts of a shebang line are cut into pieces of the same kinds, one by one, and no cut is
within the gap (`Gap.cuts_pieces`): blanks in such a line are a piece of their own, or belong to the
text behind the name of the interpreter.
-/

set_option autoImplicit false

namespace Justfile.Gap

open Justfile.Measure Interpreter

/-- Pieces of the two texts that have the same kinds, and ends that meet. The last index says what is
left in front of the gap behind all of them. -/
inductive Queues (g : Gap) : Option Text → List Piece → List Piece → Option Text → Prop
  | nil (spot : Option Text) : Queues g spot [] [] spot
  | cons {spot last : Option Text} {size size' : Nat} {pieces pieces' : List Piece}
      (kind : Token.Kind) : g.Meets spot size size' → Queues g (past spot size) pieces pieces' last →
      Queues g spot ((kind, size) :: pieces) ((kind, size') :: pieces') last

/-- Pieces and the texts behind them. -/
def Cuts (g : Gap) (spot : Option Text) (out out' : List Piece × Text) : Prop :=
  ∃ last, g.Queues spot out.1 out'.1 last ∧ g.Splits last out.2 out'.2

section Pieces

variable {g : Gap} {spot middle last : Option Text} {text text' : Text} {size size' : Nat}
  {front front' back back' : List Piece} {out out' : List Piece × Text}

theorem Queues.append (hfront : g.Queues spot front front' middle)
    (hback : g.Queues middle back back' last) :
    g.Queues spot (front ++ back) (front' ++ back') last := by
  induction hfront with
  | nil spot => exact hback
  | cons kind hmeets _ ih => exact .cons kind hmeets (ih hback)

theorem Queues.isEmpty_eq (h : g.Queues spot front front' last) : front'.isEmpty = front.isEmpty := by
  cases h <;> rfl

theorem queues_single (kind : Token.Kind) (h : g.Meets spot size size') :
    g.Queues spot [(kind, size)] [(kind, size')] (past spot size) :=
  .cons kind h (.nil _)

theorem cuts_blanks (h : g.Splits spot text text') :
    g.Cuts spot (Interpreter.blanks text) (Interpreter.blanks text') := by
  have hmeets := meets_indentation h
  have hdrop := h.drop hmeets
  have hzero := hmeets.eq_zero_iff
  unfold Interpreter.blanks
  generalize indentation text = width at hmeets hdrop hzero ⊢
  generalize indentation text' = width' at hmeets hdrop hzero ⊢
  cases width with
  | zero =>
    obtain rfl := hzero.1 rfl
    exact ⟨spot, .nil spot, h⟩
  | succ width =>
    obtain ⟨width', rfl⟩ : ∃ more, width' = more + 1 := by
      apply Nat.exists_eq_succ_of_ne_zero
      intro hnone
      cases hzero.2 hnone
    exact ⟨_, queues_single _ hmeets, hdrop⟩

/-- A flag is a word that starts with a dash. -/
theorem flags_succ (fuel : Nat) (text : Text) :
    flags (fuel + 1) text =
      if text.head? == some '-' then
        let space := Interpreter.blanks (text.drop (word text))
        let more := flags fuel space.2
        ((.shebangFlag, word text) :: space.1 ++ more.1, more.2)
      else ([], text) := by
  cases text with
  | nil => rfl
  | cons c rest =>
    by_cases hc : c = '-'
    · subst hc
      rfl
    · simp [flags, hc]

/-- Behind a flag and the blanks after it there is less text. -/
theorem length_behind_flag {text : Text} (h : (text.head? == some '-') = true) :
    (Interpreter.blanks (text.drop (word text))).2.length < text.length := by
  have htotal := (Interpreter.cuts_blanks (text.drop (word text))).total_add
  rw [List.length_drop] at htotal
  cases text with
  | nil => cases h
  | cons c rest =>
    obtain rfl := Option.some.inj (beq_iff_eq.1 h)
    have hpos : 0 < word ('-' :: rest) := by simp [word, isBlank]
    rw [List.length_cons] at htotal ⊢
    omega

theorem cuts_flags {fuel fuel' : Nat} (h : g.Splits spot text text') (hfuel : text.length ≤ fuel)
    (hfuel' : text'.length ≤ fuel') : g.Cuts spot (flags fuel text) (flags fuel' text') := by
  have hnone : ∀ {text : Text}, (text.head? == some '-') = false → ∀ fuel,
      flags fuel text = ([], text) := by
    intro text hhead fuel
    cases fuel with
    | zero => rfl
    | succ fuel => rw [flags_succ, hhead, if_neg Bool.false_ne_true]
  induction fuel generalizing fuel' spot text text' with
  | zero =>
    obtain rfl := List.length_eq_zero_iff.1 (Nat.le_zero.1 hfuel)
    obtain rfl := List.isEmpty_iff.1 (h.isEmpty_eq.trans rfl)
    rw [hnone rfl, hnone rfl]
    exact ⟨spot, .nil spot, h⟩
  | succ fuel ih =>
    have hhead : (text'.head? == some '-') = (text.head? == some '-') :=
      h.same (head?_stops (by decide))
    cases hdash : text.head? == some '-' with
    | false =>
      rw [hnone hdash, hnone (hhead.trans hdash)]
      exact ⟨spot, .nil spot, h⟩
    | true =>
      have hless := length_behind_flag hdash
      have hless' := length_behind_flag (hhead.trans hdash)
      obtain ⟨fuel', rfl⟩ := Nat.exists_eq_succ_of_ne_zero (by omega : fuel' ≠ 0)
      have hword := h.meets_of_stops word_stops word_le
      have hsame : word text' = word text := h.same word_stops
      rw [hsame] at hless'
      obtain ⟨middle, hspace, hafter⟩ := cuts_blanks (h.drop hword)
      obtain ⟨last, hmore, hrest⟩ := ih hafter (by omega) (by omega : _ ≤ fuel')
      rw [flags_succ, flags_succ, hhead, hdash, hsame, if_pos rfl, if_pos rfl]
      exact ⟨last, (Queues.cons _ hword hspace).append hmore, hrest⟩

theorem directory?_stops : StopsAtBlank directory? := by
  intro blank hblank front tail
  unfold directory?
  rw [word_stops hblank, List.take_append_of_le_length (word_le front)]

theorem directory?_le {size : Nat} (h : directory? text = some size) : size ≤ text.length :=
  (directory?_bounds h).2

/-- What follows `env` is cut alike, with or without flags and a name. -/
theorem cuts_afterEnv (h : g.Splits spot text text') (hword : g.Meets spot 3 3) :
    Option.Rel (g.Cuts spot) (afterEnv text) (afterEnv text') := by
  have hdrop := h.drop hword
  obtain ⟨middle, hspace, hstart⟩ := cuts_blanks hdrop
  have hle : ∀ text : Text, (Interpreter.blanks (text.drop 3)).2.length ≤ text.length := by
    intro text
    have htotal := (Interpreter.cuts_blanks (text.drop 3)).total_add
    rw [List.length_drop] at htotal
    omega
  obtain ⟨last, hflags, hrest⟩ := cuts_flags hstart (hle text) (hle text')
  have hname := hrest.meets_of_stops identifier_stops.blank identifier_le
  have hsame := hrest.same identifier_stops.blank
  unfold afterEnv
  dsimp only
  rw [hsame, hflags.isEmpty_eq]
  generalize identifier (flags text.length (Interpreter.blanks (text.drop 3)).2).2 = size at hname ⊢
  cases size with
  | zero =>
    dsimp only
    split
    · exact .some ⟨_, queues_single _ hword, hdrop⟩
    · exact .none
  | succ size =>
    refine .some ⟨_, ?_, hrest.drop hname⟩
    exact ((Queues.cons _ hword hspace).append hflags).append (queues_single _ hname)

theorem cuts_name? (h : g.Splits spot text text') :
    Option.Rel (g.Cuts spot) (name? text) (name? text') := by
  unfold name?
  rw [h.same directory?_stops]
  cases hpath : directory? text with
  | none => exact .none
  | some path =>
    have hmeets := h.meets_of_some directory?_stops directory?_le hpath
    have hstart := h.drop hmeets
    have hname := hstart.meets_of_stops identifier_stops.blank identifier_le
    have hsame := hstart.same identifier_stops.blank
    have htext := hstart.same take_identifier_stops.blank
    simp only [Option.bind_eq_bind, Option.bind_some]
    rw [hsame]
    rw [hsame] at htext
    cases hsize : identifier (text.drop path) with
    | zero => exact .none
    | succ size =>
      rw [hsize] at hname htext
      dsimp only
      rw [htext]
      split
      · next henv =>
        have hlength := congrArg List.length (eq_of_beq henv)
        have hthree : Keyword.envWord.spelling.length = 3 := by decide
        have hle := identifier_le (text.drop path)
        rw [List.length_take, hthree] at hlength
        obtain rfl : size = 2 := by omega
        have hafter := cuts_afterEnv hstart hname
        generalize afterEnv (text.drop path) = found at hafter ⊢
        generalize afterEnv (text'.drop path) = found' at hafter ⊢
        cases hafter with
        | none => exact .none
        | some hcuts =>
          obtain ⟨last, hqueues, hrest⟩ := hcuts
          exact .some ⟨last, .cons _ hmeets hqueues, hrest⟩
      · exact .some ⟨_, .cons _ hmeets (queues_single _ hname), hstart.drop hname⟩

/-- The whole line is cut alike. -/
theorem cuts_pieces (h : g.Splits spot text text') :
    ∃ last, g.Queues spot (pieces text) (pieces text') last := by
  obtain ⟨middle, hspace, hstart⟩ := cuts_blanks h
  have hname : g.Cuts middle
      ((name? (Interpreter.blanks text).2).getD ([], (Interpreter.blanks text).2))
      ((name? (Interpreter.blanks text').2).getD ([], (Interpreter.blanks text').2)) := by
    have hrel := cuts_name? hstart
    generalize name? (Interpreter.blanks text).2 = found at hrel ⊢
    generalize name? (Interpreter.blanks text').2 = found' at hrel ⊢
    cases hrel with
    | none => exact ⟨middle, .nil middle, hstart⟩
    | some hcuts => exact hcuts
  obtain ⟨last, hfound, hrest⟩ := hname
  have hempty := hrest.isEmpty_eq
  have hlength := meets_length hrest
  unfold pieces
  dsimp only
  rw [hempty]
  split
  · exact ⟨_, (hspace.append hfound).append (.nil _)⟩
  · exact ⟨_, (hspace.append hfound).append (queues_single _ hlength)⟩

end Pieces

end Justfile.Gap
