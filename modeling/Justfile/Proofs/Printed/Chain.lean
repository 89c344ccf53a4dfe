import Justfile.Proofs.Printed.Expression

/-!
# Reading printed chains

A chain is read from left to right: each sign makes one expression of all that stands before it.
So what is proved of a chain is how it goes on (`Continues`): after the operands and signs of a
layout it is as if a chain had been started with the nodes of the layout. One sign more gives the
layout with the two sides joined (`Continues.sign`), and the sums and terms follow along their
left sides.

Each sign raises the depth by one, so a chain can be read as far as the limit allows. With the
nested expressions this is what the size of an expression counts, and `readsExpr_tie` says that an
expression of a size within the limit is read.
-/

set_option autoImplicit false

namespace Justfile.Grammar

open Scanner Printed Layout

section Chain

variable {rules : Rules} {right? : Token.Kind → Option (Parse Forest)} {a : Spot} {signs : Nat}
  {x y : Layout} {rest : Text}

/-- After the text of the layout, with so many signs in it, the chain goes on with the nodes of the
layout. -/
def Continues (rules : Rules) (right? : Token.Kind → Option (Parse Forest)) (a : Spot) (signs : Nat)
    (x : Layout) (rest : Text) : Prop :=
  ∀ s, At a (x.text ++ rest) s → ∀ (fuel : Nat) (Q : Forest → State → Prop),
    (∀ t, At { a with depth := a.depth + signs } rest t → Passes x.text s t →
      Ensures t (chainFrom rules right? fuel signs (x.nodes s.stream.offset)) Q) →
    Ensures s (operand rules >>= chainFrom rules right? (signs + fuel) 0) Q

theorem continues_operand (h : Spells a a (operand rules) id [] x rest) :
    Continues rules right? a 0 x rest := by
  intro s hs fuel Q hnext
  refine (h s hs).bind ?_
  rintro nodes t ⟨rfl, ht, hpass⟩
  rw [Nat.zero_add]
  exact hnext t ht hpass

/-- A further sign, and what it is followed by. -/
theorem Continues.sign {sign : Mark} {right : Parse Forest} {kind : Token.Kind} {word : Text}
    (h : Continues rules right? a signs x
      ((blank ++ (mark sign ++ (blank ++ group (some .right) .expression y))).text ++ rest))
    (hmode : a.mode = .normal) (halone : sign.isAlone = true)
    (hright : right? (.mark sign) = some right) (hlimit : a.depth + signs < rules.limit)
    (lead : Leads a (y.text ++ rest) kind word)
    (hy : ∀ b : Spot, b = { a with depth := a.depth + (signs + 1) } →
      Spells b b right id [] y rest) :
    Continues rules right? a (signs + 1) (joined x sign y) rest := by
  intro s hs fuel Q hnext
  have hs' : At a (x.text ++ ((blank ++ (mark sign ++ (blank ++
      group (some .right) .expression y))).text ++ rest)) s := by
    rw [← List.append_assoc]
    exact hs
  rw [Nat.add_right_comm, Nat.add_assoc]
  refine h s hs' (fuel + 1) Q ?_
  intro t ht hpass
  let b : Spot := { a with depth := a.depth + (signs + 1) }
  let c : Spot := { a with depth := a.depth + signs }
  have hb : b.mode = .normal := hmode
  have hc : c.mode = .normal := hmode
  have hfront : t.front = .mark sign :=
    ((mark_leads hc sign halone _).append.sees_layout (isGap_blank hc)).front ht
  have hdepth : ¬rules.limit ≤ t.depth := by
    rw [ht.depth]
    exact Nat.not_le.2 hlimit
  unfold chainFrom
  refine Ensures.peek ?_
  rw [hfront, hright]
  refine Ensures.get ?_
  rw [if_neg hdepth]
  refine Ensures.offset (Ensures.modify ?_)
  -- One level deeper stand the sign and the side on its right.
  have hdeeper : At b ((blank ++ mark sign).text ++
      ((blank ++ group (some .right) .expression y).text ++ rest)) { t with depth := t.depth + 1 } := by
    refine ⟨ht.ready, ?_, ht.levels, ht.mode, ht.nesting, congrArg (· + 1) ht.depth⟩
    rw [ht.rest]
    simp only [text_append, List.append_assoc]
  refine (bump_mark hb (isGap_blank hb) sign halone _ _ hdeeper).bind ?_
  rintro bumped u ⟨rfl, hu, hbumped⟩
  refine (branch_spells (some .right) .expression (isGap_blank hb) lead (hy b rfl) u hu).bind ?_
  rintro branched v ⟨rfl, hv, hbranched⟩
  have hall : Passes (joined x sign y).text s v := by
    have hsigned : Passes (blank ++ mark sign).text t u :=
      ⟨hbumped.offset, hbumped.reports, hbumped.exhausted⟩
    have hjoined := hpass.trans (hsigned.trans hbranched)
    rw [text_joined]
    simpa using hjoined
  have hnodes : Node.branch (some .left) .expression (x.nodes s.stream.offset) t.stream.offset ::
      (blank ++ mark sign).nodes t.stream.offset ++
        (blank ++ group (some .right) .expression y).nodes u.stream.offset =
      (joined x sign y).nodes s.stream.offset := by
    rw [hbumped.offset, hpass.offset]
    simp [joined, Nat.add_assoc]
  have hgoal := hnext v hv hall
  rw [← hnodes] at hgoal
  exact hgoal

/-- A chain ends where no right side is known for the next token. -/
theorem chain_spells {gap word' : Text} {kind kind' : Token.Kind} {word : Text}
    (h : Continues rules right? a signs x rest) (hgap : IsGap a gap)
    (lead : Leads a (x.text ++ rest) kind word) (hbudget : signs < rules.budget)
    (hsees : Sees a rest kind' word') (hend : right? kind' = none) :
    Spells a a (chain rules right?) id [] (.gap gap ++ x) rest := by
  unfold chain
  refine Spells.bind (trivia_spells hgap lead) fun before => ?_
  rw [← bind_assoc]
  refine .last ?_ fun _ => rfl
  intro s hs
  obtain ⟨fuel, hfuel⟩ : ∃ fuel, rules.budget = signs + (fuel + 1) :=
    ⟨rules.budget - signs - 1, by omega⟩
  rw [hfuel]
  refine h s hs (fuel + 1) _ ?_
  intro t ht hpass
  let c : Spot := { a with depth := a.depth + signs }
  have hsees' : Sees c rest kind' word' := hsees
  have hfront : t.front = kind' := hsees'.front ht
  unfold chainFrom
  refine Ensures.peek ?_
  rw [hfront, hend]
  exact Ensures.modify (.pure ⟨rfl, ht.surface, ⟨hpass.offset, hpass.reports, hpass.exhausted⟩⟩)

/-! ## Terms and sums -/

/-- The rules read the expressions inside a term. -/
def ReadsTerm (rules : Rules) : Term → Prop
  | .operand only => ReadsOperand rules only
  | .slash left right => ReadsTerm rules left ∧ ReadsOperand rules right

/-- The rules read the expressions inside a sum. -/
def ReadsSum (rules : Rules) : Sum → Prop
  | .term only => ReadsTerm rules only
  | .plus left right => ReadsSum rules left ∧ ReadsTerm rules right

theorem sign_follow (hmode : a.mode = .normal) (sign : Mark) (halone : sign.isAlone = true)
    (hsign : (Token.Kind.mark sign).endsOperand = true) (y : Layout) (rest : Text) :
    Follow Token.Kind.endsOperand a
      ((blank ++ (mark sign ++ (blank ++ group (some .right) .expression y))).text ++ rest) :=
  follow_layout hmode (isGap_blank hmode) sign halone hsign

/-- A single operand on the right of `/`. -/
theorem factor_spells {o : Operand} (hread : ReadsOperand rules o) (hmode : a.mode = .normal)
    (hdepth : a.depth + o.size ≤ rules.limit) (hbudget : o.size + 1 < rules.budget)
    (hrest : Follow Token.Kind.endsOperand a rest) :
    Spells a a (factor rules) id [] o.layout rest := by
  obtain ⟨kind, word, hlead, -⟩ := operand_leads hmode o hrest.endsWord
  obtain ⟨kind', word', hsees, -⟩ := hrest.sees
  rw [← o.text_layout] at hlead
  exact chain_spells (continues_operand (operand_spells hread hmode hdepth hbudget hrest))
    (isGap_nil a) hlead (by omega) hsees rfl

theorem term_continues (hslash : right? (.mark .slash) = some (factor rules)) : {t : Term} →
    ReadsTerm rules t → {a : Spot} → {rest : Text} → a.mode = .normal →
    a.depth + t.size ≤ rules.limit → t.size + 1 < rules.budget →
    Follow Token.Kind.endsOperand a rest → Continues rules right? a t.signs t.layout rest
  | .operand only, hread, a, rest, hmode, hdepth, hbudget, hrest =>
    continues_operand (operand_spells hread hmode hdepth hbudget hrest)
  | .slash left right, ⟨hleft, hright⟩, a, rest, hmode, hdepth, hbudget, hrest => by
    simp only [Term.size] at hdepth hbudget
    have hsigns := left.signs_le_size
    obtain ⟨kind, word, hlead, -⟩ := operand_leads hmode right hrest.endsWord
    rw [← right.text_layout] at hlead
    have hcontinues := term_continues hslash hleft hmode (by omega) (by omega)
      (sign_follow hmode .slash rfl rfl right.layout rest)
    refine hcontinues.sign hmode rfl hslash (by omega) hlead ?_
    rintro b rfl
    refine factor_spells hright hmode ?_ (by omega) (hrest.atDepth _)
    dsimp only
    omega

/-- Operands joined by `/`, on the right of `+`. -/
theorem term_spells {t : Term} (hread : ReadsTerm rules t) (hmode : a.mode = .normal)
    (hdepth : a.depth + t.size ≤ rules.limit) (hbudget : t.size + 1 < rules.budget)
    (hrest : Follow Token.Kind.endsTerm a rest) : Spells a a (term rules) id [] t.layout rest := by
  have hsigns := t.signs_le_size
  obtain ⟨first, text, hlead, -⟩ := term_leads hmode t hrest.endsWord
  obtain ⟨kind, word, hsees, hkind⟩ := hrest.sees
  rw [← t.text_layout] at hlead
  unfold term
  refine chain_spells (term_continues rfl hread hmode hdepth hbudget
    (hrest.mono fun _ => Token.Kind.endsOperand_of_endsTerm)) (isGap_nil a) hlead (by omega) hsees ?_
  unfold termRight?
  split
  · cases hkind
  · rfl

theorem sum_continues (hplus : right? (.mark .plus) = some (term rules))
    (hslash : right? (.mark .slash) = some (factor rules)) : {s : Sum} →
    ReadsSum rules s → {a : Spot} → {rest : Text} → a.mode = .normal →
    a.depth + s.size ≤ rules.limit → s.size + 1 < rules.budget →
    Follow Token.Kind.endsTerm a rest → Continues rules right? a s.signs s.layout rest
  | .term only, hread, a, rest, hmode, hdepth, hbudget, hrest =>
    term_continues hslash hread hmode hdepth hbudget
      (hrest.mono fun _ => Token.Kind.endsOperand_of_endsTerm)
  | .plus left right, ⟨hleft, hright⟩, a, rest, hmode, hdepth, hbudget, hrest => by
    simp only [Sum.size] at hdepth hbudget
    have hsigns := left.signs_le_size
    obtain ⟨kind, word, hlead, -⟩ := term_leads hmode right hrest.endsWord
    rw [← right.text_layout] at hlead
    have hfollow : Follow Token.Kind.endsTerm a
        ((blank ++ (mark .plus ++ (blank ++ group (some .right) .expression right.layout))).text ++
          rest) := follow_layout hmode (isGap_blank hmode) .plus rfl rfl
    have hcontinues := sum_continues hplus hslash hleft hmode (by omega) (by omega) hfollow
    refine hcontinues.sign hmode rfl hplus (by omega) hlead ?_
    rintro b rfl
    refine term_spells hright hmode ?_ (by omega) (hrest.atDepth _)
    dsimp only
    omega

/-- A token that can stand after an expression goes on with no chain. -/
theorem sum_spells_of_continues {x : Layout} {gap word : Text} {kind : Token.Kind}
    (h : ∀ right?, right? (.mark .plus) = some (term rules) →
      right? (.mark .slash) = some (factor rules) → Continues rules right? a signs x rest)
    (hgap : IsGap a gap) (lead : Leads a (x.text ++ rest) kind word)
    (hbudget : signs < rules.budget) (hrest : Follow Token.Kind.endsSum a rest) :
    Spells a a (sum rules) id [] (.gap gap ++ x) rest := by
  obtain ⟨kind', word', hsees, hkind⟩ := hrest.sees
  unfold sum
  refine chain_spells (h _ rfl rfl) hgap lead hbudget hsees ?_
  unfold sumRight?
  split
  · cases hkind
  · cases hkind
  · rfl

/-- Operands joined by both signs, behind a blank or not. -/
theorem sum_spells {s : Sum} {gap : Text} (hread : ReadsSum rules s) (hmode : a.mode = .normal)
    (hgap : IsGap a gap) (hdepth : a.depth + s.size ≤ rules.limit)
    (hbudget : s.size + 1 < rules.budget) (hrest : Follow Token.Kind.endsSum a rest) :
    Spells a a (sum rules) id [] (.gap gap ++ s.layout) rest := by
  have hsigns := s.signs_le_size
  obtain ⟨first, text, hlead, -⟩ := sum_leads hmode s hrest.endsWord
  rw [← s.text_layout] at hlead
  have hroom : s.signs < rules.budget := by omega
  refine sum_spells_of_continues ?_ hgap hlead hroom hrest
  intro right? hplus hslash
  exact sum_continues hplus hslash hread hmode hdepth hbudget
    (hrest.mono fun _ => Token.Kind.endsTerm_of_endsSum)

end Chain

/-! ## Expressions -/

section Expression

variable {rules : Rules} {a : Spot} {rest : Text}

/-- An expression, where the limit leaves room for it: one level deeper stands its sum, with a `/` in
front of it or not. -/
theorem expression_spells_of_body {b : Spot} {y : Layout} {gap word : Text} {kind : Token.Kind}
    (field : Option Field) (hb : b = { a with depth := a.depth + 1 }) (hgap : IsGap a gap)
    (hlimit : a.depth < rules.limit) (lead : Leads b (y.text ++ rest) kind word)
    (hbody : Spells b b (do
      let root ← bumpIf (.mark .slash)
      let nodes ← sum rules
      return root ++ nodes) id [] y rest) :
    Spells a a (expression rules field) id [] (.gap gap ++ group field .expression y) rest := by
  subst hb
  intro s hs
  unfold expression
  refine Ensures.get ?_
  rw [hs.depth, if_neg (Nat.not_le.2 hlimit)]
  exact deeper_spells (branch_spells field .expression hgap lead hbody) s hs

/-- A sum without a `/` in front of it. -/
theorem body_spells_of_sum {y : Layout} {word : Text} {kind : Token.Kind}
    (lead : Leads a (y.text ++ rest) kind word) (hslash : kind ≠ .mark .slash)
    (hsum : Spells a a (sum rules) id [] y rest) :
    Spells a a (do
      let root ← bumpIf (.mark .slash)
      let nodes ← sum rules
      return root ++ nodes) id [] y rest :=
  .skip (bumpIf_idle (fun _ hs => lead.sees.front hs) hslash) (.last hsum fun _ => rfl)

/-- An expression is read if the limit leaves room for it. -/
theorem expression_spells {rooted : Bool} {sum : Sum} {gap : Text} (field : Option Field)
    (hread : ReadsSum rules sum) (hmode : a.mode = .normal) (hgap : IsGap a gap)
    (hdepth : a.depth + (Expr.mk rooted sum).size ≤ rules.limit)
    (hbudget : sum.size + 1 < rules.budget) (hrest : Follow Token.Kind.endsSum a rest) :
    Spells a a (expression rules field) id [] (.gap gap ++ (Expr.mk rooted sum).layout field)
      rest := by
  simp only [Expr.size] at hdepth
  let b : Spot := { a with depth := a.depth + 1 }
  have hb : b.mode = .normal := hmode
  have hfollow : Follow Token.Kind.endsSum b rest := hrest.atDepth _
  have hroom : b.depth + sum.size ≤ rules.limit := by
    change a.depth + 1 + sum.size ≤ _
    omega
  have hlimit : a.depth < rules.limit := by omega
  cases rooted with
  | true =>
    have hlead : Leads b ((mark .slash ++ (blank ++ sum.layout)).text ++ rest) (.mark .slash)
        Mark.slash.name.toList := .append (mark_leads hb .slash rfl _)
    refine expression_spells_of_body field rfl hgap hlimit hlead ?_
    refine Spells.bind (b := b) (x := mark .slash) ?_ fun root => ?_
    · refine .isAt (fun s hs => (mark_leads hb .slash rfl _).sees.front hs) ?_
      exact bump_mark hb (isGap_nil b) .slash rfl _
    · exact .last (sum_spells hread hb (isGap_blank hb) hroom hbudget hfollow) fun _ => rfl
  | false =>
    obtain ⟨kind, word, hlead, hstarts⟩ := sum_leads hb sum hfollow.endsWord
    rw [← sum.text_layout] at hlead
    have hslash : kind ≠ .mark .slash := by
      rintro rfl
      cases hstarts
    exact expression_spells_of_body field rfl hgap hlimit hlead
      (body_spells_of_sum hlead hslash
        (sum_spells hread hb (isGap_nil b) hroom hbudget hfollow))

/-- A string that stands alone is an expression. -/
theorem stringExpression_spells {d : Dialect} {count : Nat} {x : Layout} {gap : Text}
    (field : Option Field) (h : d.Inner rest count x) (hmode : a.mode = .normal)
    (hgap : IsGap a gap) (hlimit : a.depth < rules.limit) (hbudget : count < rules.budget)
    (hdialect : Dialect.detect? (d.opening ++ (x.text ++ (d.closing ++ rest))) = some d)
    (hrest : Follow Token.Kind.endsSum a rest) :
    Spells a a (expression rules field) id []
      (.gap gap ++ group field .expression (group none .value (d.layout x))) rest := by
  let b : Spot := { a with depth := a.depth + 1 }
  have hb : b.mode = .normal := hmode
  have hlead : Leads b ((group none .value (d.layout x)).text ++ rest) (.stringOpen d) d.opening :=
    string_leads hb hdialect
  refine expression_spells_of_body field rfl hgap hlimit hlead
    (body_spells_of_sum hlead nofun ?_)
  have hpos : 0 < rules.budget := Nat.zero_lt_of_lt hbudget
  refine sum_spells_of_continues (fun _ _ _ => continues_operand ?_) (isGap_nil b) hlead hpos
    (hrest.atDepth _)
  -- The delimiter is not the word that starts a conditional.
  unfold operand
  refine .look _ (fun s hs => isKeywordAt_eq (hlead.sees.nth_zero hs) .ifWord) ?_
  exact stringValue_spells h hb hbudget hdialect

end Expression

/-! ## All together -/

section Tie

variable (limit budget : Nat)

/-- The rules with so much fuel for nested expressions. -/
def rulesAt (fuel : Nat) : Rules := ⟨limit, budget, expressionAt limit budget fuel⟩

-- The recursion is on the syntax. Only an expression uses up fuel: what it consists of is read by
-- the rules with one unit less.
mutual
theorem readsExpr_at : (e : Expr) → (fuel : Nat) → e.size ≤ fuel → e.size + 1 < budget →
    ReadsExpr (rulesAt limit budget fuel) e
  | .mk rooted sum, fuel, hfuel, hbudget => by
    simp only [Expr.size] at hfuel hbudget
    obtain ⟨fuel, rfl⟩ : ∃ n, fuel = n + 1 := ⟨fuel - 1, by omega⟩
    have hsum := readsSum_at sum fuel (by omega) (by omega)
    intro a field gap rest hmode hgap hdepth hrest
    have hroom : sum.size + 1 < (rulesAt limit budget fuel).budget := by
      change sum.size + 1 < budget
      omega
    exact expression_spells field hsum hmode hgap hdepth hroom hrest
theorem readsSum_at : (s : Sum) → (fuel : Nat) → s.size ≤ fuel → s.size + 1 < budget →
    ReadsSum (rulesAt limit budget fuel) s
  | .term only, fuel, hfuel, hbudget => readsTerm_at only fuel hfuel hbudget
  | .plus left right, fuel, hfuel, hbudget => by
    simp only [Sum.size] at hfuel hbudget
    exact ⟨readsSum_at left fuel (by omega) (by omega),
      readsTerm_at right fuel (by omega) (by omega)⟩
theorem readsTerm_at : (t : Term) → (fuel : Nat) → t.size ≤ fuel → t.size + 1 < budget →
    ReadsTerm (rulesAt limit budget fuel) t
  | .operand only, fuel, hfuel, hbudget => readsOperand_at only fuel hfuel hbudget
  | .slash left right, fuel, hfuel, hbudget => by
    simp only [Term.size] at hfuel hbudget
    exact ⟨readsTerm_at left fuel (by omega) (by omega),
      readsOperand_at right fuel (by omega) (by omega)⟩
theorem readsOperand_at : (o : Operand) → (fuel : Nat) → o.size ≤ fuel → o.size + 1 < budget →
    ReadsOperand (rulesAt limit budget fuel) o
  | .value v, fuel, hfuel, hbudget => readsAtom_at v fuel hfuel hbudget
  | .conditional test consequence more, fuel, hfuel, hbudget => by
    simp only [Operand.size] at hfuel hbudget
    exact ⟨readsTest_at test fuel (by omega) (by omega),
      readsExpr_at consequence fuel (by omega) (by omega),
      readsElse_at more fuel (by omega) (by omega)⟩
theorem readsElse_at : (b : Else) → (fuel : Nat) → b.size ≤ fuel → b.size + 1 < budget →
    ReadsElse (rulesAt limit budget fuel) b
  | .none, _, _, _ => trivial
  | .otherwise body, fuel, hfuel, hbudget => readsExpr_at body fuel hfuel hbudget
  | .elseIf test body more, fuel, hfuel, hbudget => by
    simp only [Else.size] at hfuel hbudget
    exact ⟨readsTest_at test fuel (by omega) (by omega),
      readsExpr_at body fuel (by omega) (by omega), readsElse_at more fuel (by omega) (by omega)⟩
theorem readsTest_at : (c : Test) → (fuel : Nat) → c.size ≤ fuel → c.size + 1 < budget →
    ReadsTest (rulesAt limit budget fuel) c
  | .alone left, fuel, hfuel, hbudget => readsExpr_at left fuel hfuel hbudget
  | .compare left _ right, fuel, hfuel, hbudget => by
    simp only [Test.size] at hfuel hbudget
    exact ⟨readsExpr_at left fuel (by omega) (by omega),
      readsExpr_at right fuel (by omega) (by omega)⟩
  | .pattern left _, fuel, hfuel, hbudget => readsExpr_at left fuel hfuel hbudget
theorem readsAtom_at : (v : Atom) → (fuel : Nat) → v.size ≤ fuel → v.size + 1 < budget →
    ReadsAtom (rulesAt limit budget fuel) v
  | .name _, _, _, _ => trivial
  | .string _, _, _, _ => trivial
  | .call _ .nil, _, _, _ => trivial
  | .call _ (.cons first more), fuel, hfuel, hbudget => by
    simp only [Atom.size, Args.size] at hfuel hbudget
    exact ⟨readsExpr_at first fuel (by omega) (by omega),
      readsArgs_at more fuel (by omega) (by omega)⟩
  | .group inner, fuel, hfuel, hbudget => readsExpr_at inner fuel hfuel hbudget
theorem readsArgs_at : (more : Args) → (fuel : Nat) → more.size ≤ fuel → more.size + 1 < budget →
    ReadsArgs (rulesAt limit budget fuel) more
  | .nil, _, _, _ => readsArgs_nil
  | .cons first more, fuel, hfuel, hbudget => by
    simp only [Args.size] at hfuel hbudget
    exact readsArgs_cons (readsExpr_at first fuel (by omega) (by omega))
      (readsArgs_at more fuel (by omega) (by omega))
end

/-- An expression is read by the rules of a file that are tied with a large enough budget. -/
theorem readsExpr_tie (e : Expr) (hbudget : e.size + 1 < budget) :
    ReadsExpr (.tie limit budget) e :=
  readsExpr_at limit budget e budget (by omega) hbudget

end Tie

end Justfile.Grammar
