import Justfile.Proofs.Cursor.Path
import Justfile.Selector

/-!
# The order of what a selector picks

A selector without commas starts with the nodes of a kind, in document order, and goes on from them step by
step, to the nodes below them or to their children (`Selector.Clause.select_eq_matches`). A step leads from
each match in turn. So it keeps the order unless one match stands below another: what the step leads to
from the outer one may come behind what it leads to from the inner one, or be the same.

The matches are in document order behind every step if and only if this does not happen at any step
(`Selector.select_inOrder_iff`). Steps to children never lead to one node twice.
-/

set_option autoImplicit false

namespace Justfile.Selector

/-! ## Steps -/

/-- A step from matches to the nodes below them, or to their children, with a name. -/
inductive Step where
  | below (name : Text)
  | child (name : Text)
  deriving DecidableEq

/-- What the step leads to from one node. -/
def Step.reach : Step → Cursor → List Cursor
  | below name, c => (c.descendants.drop 1).filter (isNamed name)
  | child name, c => c.children.filter (isNamed name)

/-- What the clause starts with. -/
def Clause.first (clause : Clause) (c : Cursor) : List Cursor :=
  match clause with
  | .path first _ _ => first.choose c.descendants
  | clause => clause.select c

/-- The steps that follow. -/
def Clause.steps : Clause → List Step
  | .path _ inner direct => inner.map .below ++ direct.map .child
  | _ => []

/-- The matches after so many steps. -/
def Clause.matches (clause : Clause) (c : Cursor) (size : Nat) : List Cursor :=
  (clause.steps.take size).foldl (fun found step => found.flatMap step.reach) (clause.first c)

theorem Clause.select_eq_matches (clause : Clause) (c : Cursor) :
    clause.select c = clause.matches c clause.steps.length := by
  unfold Clause.matches
  rw [List.take_length]
  cases clause with
  | position index => rfl
  | children pick => rfl
  | path first inner direct =>
    rw [Clause.steps, List.foldl_append, List.foldl_map, List.foldl_map]
    rfl

theorem Clause.matches_succ {clause : Clause} {size : Nat} {step : Step}
    (h : clause.steps[size]? = some step) (c : Cursor) :
    clause.matches c (size + 1) = (clause.matches c size).flatMap step.reach := by
  unfold Clause.matches
  rw [List.take_add_one, h, List.foldl_append]
  rfl

/-! ## Order -/

/-- The nodes come one behind the other in document order, each of them once. -/
def InOrder (found : List Cursor) : Prop := found.Pairwise fun a b => a.rank < b.rank

instance : DecidablePred InOrder := fun found =>
  inferInstanceAs (Decidable (found.Pairwise fun a b => a.rank < b.rank))

/-- Where one match stands below another, all that the step leads to from the inner one comes behind all
that it leads to from the outer one. -/
def Step.Keeps (step : Step) (found : List Cursor) : Prop :=
  ∀ a ∈ found, ∀ b ∈ a.descendants, b ∈ found → a.rank < b.rank →
    ∀ x ∈ step.reach a, ∀ y ∈ step.reach b, x.rank < y.rank

section Order

variable {c a x : Cursor} {found candidates : List Cursor} {step : Step}

theorem InOrder.choose (h : InOrder candidates) (pick : Pick) : InOrder (pick.choose candidates) := by
  unfold Pick.choose
  have hfilter : InOrder (candidates.filter (isNamed pick.name)) := List.Pairwise.filter _ h
  cases pick.index with
  | none => exact hfilter
  | some index =>
    dsimp only
    cases (candidates.filter (isNamed pick.name))[index]? with
    | none => exact .nil
    | some found => exact List.pairwise_singleton _ _

theorem inOrder_first (clause : Clause) (c : Cursor) : InOrder (clause.first c) := by
  cases clause with
  | position index =>
    cases index with
    | none => exact .nil
    | some index =>
      change InOrder ((c.children.filter (!·.kind.isTrivia))[index]?.toList)
      cases (c.children.filter (!·.kind.isTrivia))[index]? with
      | none => exact .nil
      | some found => exact List.pairwise_singleton _ _
  | children pick => exact InOrder.choose c.pairwise_rank_children pick
  | path first inner direct => exact InOrder.choose c.pairwise_rank_descendants first

/-- A step leads down. -/
theorem Step.reach_below (h : x ∈ step.reach a) : x ∈ a.descendants ∧ a.rank < x.rank := by
  cases step with
  | below name =>
    have hdrop := (List.mem_filter.1 h).1
    refine ⟨List.mem_of_mem_drop hdrop, ?_⟩
    have horder := a.pairwise_rank_descendants
    rw [Cursor.descendants_eq] at horder hdrop
    exact List.rel_of_pairwise_cons horder hdrop
  | child name =>
    have hchild := (List.mem_filter.1 h).1
    obtain ⟨index, hindex⟩ := Cursor.mem_children_iff.1 hchild
    exact ⟨Cursor.mem_descendants_of_mem_children hchild, (Cursor.rank_of_child hindex).1⟩

theorem Step.inOrder_reach (step : Step) (a : Cursor) : InOrder (step.reach a) := by
  cases step with
  | below name => exact (a.pairwise_rank_descendants.sublist (List.drop_sublist 1 _)).filter _
  | child name => exact a.pairwise_rank_children.filter _

theorem mem_of_mem_choose {pick : Pick} (h : x ∈ pick.choose candidates) :
    x ∈ candidates := by
  unfold Pick.choose at h
  cases hindex : pick.index with
  | none =>
    rw [hindex] at h
    exact (List.mem_filter.1 h).1
  | some index =>
    rw [hindex] at h
    exact (List.mem_filter.1 (List.mem_of_getElem? (Option.mem_toList.1 h))).1

theorem mem_descendants_of_mem_first {clause : Clause} (h : x ∈ clause.first c) :
    x ∈ c.descendants := by
  cases clause with
  | position index =>
    cases index with
    | none => cases h
    | some index =>
      have hmem := (List.mem_filter.1 (List.mem_of_getElem? (Option.mem_toList.1 h))).1
      exact Cursor.mem_descendants_of_mem_children hmem
  | children pick =>
    exact Cursor.mem_descendants_of_mem_children (mem_of_mem_choose h)
  | path first inner direct => exact mem_of_mem_choose h

theorem mem_descendants_of_mem_matches {clause : Clause} {size : Nat}
    (hsize : size ≤ clause.steps.length) (h : x ∈ clause.matches c size) : x ∈ c.descendants := by
  induction size generalizing x with
  | zero => exact mem_descendants_of_mem_first h
  | succ size ih =>
    rw [Clause.matches_succ (List.getElem?_eq_getElem hsize), List.mem_flatMap] at h
    obtain ⟨a, ha, hx⟩ := h
    exact Cursor.mem_descendants_trans (ih (Nat.le_of_lt hsize) ha) (Step.reach_below hx).1

/-- What holds of all in turn holds where one comes before the other. -/
theorem InOrder.rel_of_lt {R : Cursor → Cursor → Prop} (hfound : InOrder found)
    (h : found.Pairwise R) {b : Cursor} (ha : a ∈ found) (hb : b ∈ found) (hlt : a.rank < b.rank) :
    R a b := by
  obtain ⟨i, hi, rfl⟩ := List.getElem_of_mem ha
  obtain ⟨j, hj, rfl⟩ := List.getElem_of_mem hb
  rcases Nat.lt_trichotomy i j with hij | rfl | hji
  · exact List.pairwise_iff_getElem.1 h i j hi hj hij
  · exact absurd hlt (Nat.lt_irrefl _)
  · exact absurd hlt (Nat.lt_asymm (List.pairwise_iff_getElem.1 hfound j i hj hi hji))

/-- A step keeps the order exactly where it does not mix up what it leads to from nested matches. -/
theorem InOrder.flatMap_iff (hfound : InOrder found) (hbelow : ∀ a ∈ found, a ∈ c.descendants)
    (step : Step) : InOrder (found.flatMap step.reach) ↔ step.Keeps found := by
  refine List.pairwise_flatMap.trans ((and_iff_right fun a _ => step.inOrder_reach a).trans ?_)
  constructor
  · intro h a ha b _ hb hlt
    exact hfound.rel_of_lt h ha hb hlt
  · intro keeps
    refine hfound.imp_of_mem fun {a b} ha hb hlt x hx y hy => ?_
    obtain ⟨path, ha'⟩ := Cursor.mem_descendants_iff.1 (hbelow a ha)
    obtain ⟨path', hb'⟩ := Cursor.mem_descendants_iff.1 (hbelow b hb)
    rcases Cursor.below_or_behind ha' hb' hlt with hnested | hbehind
    · exact keeps a ha b hnested hb hlt x hx y hy
    · -- All that is below the first one comes before the second.
      obtain ⟨hx', -⟩ := Step.reach_below hx
      obtain ⟨more, hmore⟩ := Cursor.mem_descendants_iff.1 hx'
      have hrank := Cursor.rank_follow hmore
      have hpos := Cursor.count_pos x.node
      have hy' := (Step.reach_below hy).2
      omega

/-- Steps to children lead to each node from its parent only. -/
theorem nodup_children {name : Text} (hfound : (found.map Cursor.rank).Nodup)
    (hbelow : ∀ a ∈ found, a ∈ c.descendants) :
    ((found.flatMap (Step.child name).reach).map Cursor.rank).Nodup := by
  rw [List.Nodup, List.pairwise_map] at hfound ⊢
  rw [List.pairwise_flatMap]
  refine ⟨fun a _ => ((Step.child name).inOrder_reach a).imp Nat.ne_of_lt, ?_⟩
  refine hfound.imp_of_mem fun {a b} ha hb hne x hx y hy hsame => hne ?_
  obtain ⟨path, ha⟩ := Cursor.mem_descendants_iff.1 (hbelow a ha)
  obtain ⟨path', hb⟩ := Cursor.mem_descendants_iff.1 (hbelow b hb)
  obtain ⟨first, hfirst⟩ := Cursor.mem_children_iff.1 (List.mem_filter.1 hx).1
  obtain ⟨second, hsecond⟩ := Cursor.mem_children_iff.1 (List.mem_filter.1 hy).1
  have hpaths := Cursor.path_eq_of_rank ((Cursor.follow?_concat ha first).trans hfirst)
    ((Cursor.follow?_concat hb second).trans hsecond) hsame
  obtain ⟨rfl, -⟩ := List.append_inj hpaths (by simpa using congrArg List.length hpaths)
  cases ha.symm.trans hb
  rfl

/-- A text without commas is a single clause. -/
theorem splitBy_of_not_mem {text : Text} (h : ',' ∉ text) : text.splitBy (· == ',') = [text] := by
  induction text with
  | nil => rfl
  | cons c text ih =>
    rw [List.mem_cons, not_or] at h
    have hne : (c == ',') = false := beq_eq_false_iff_ne.2 (Ne.symm h.1)
    simp [Text.splitBy, ih h.2, hne]

/-- The matches are in order behind each step exactly where every step keeps the order. -/
theorem inOrder_matches_iff (clause : Clause) (c : Cursor) :
    (∀ size, size ≤ clause.steps.length → InOrder (clause.matches c size)) ↔
      ∀ (size : Nat) (step : Step), clause.steps[size]? = some step → step.Keeps (clause.matches c size) := by
  constructor
  · intro h size step hstep
    obtain ⟨hlt, -⟩ := List.getElem?_eq_some_iff.1 hstep
    refine ((h size (Nat.le_of_lt hlt)).flatMap_iff
      (fun a ha => mem_descendants_of_mem_matches (Nat.le_of_lt hlt) ha) step).1 ?_
    rw [← Clause.matches_succ hstep]
    exact h (size + 1) hlt
  · intro keeps size hsize
    induction size with
    | zero => exact inOrder_first clause c
    | succ size ih =>
      have hstep := List.getElem?_eq_getElem hsize
      rw [Clause.matches_succ hstep]
      exact ((ih (Nat.le_of_lt hsize)).flatMap_iff
        (fun a ha => mem_descendants_of_mem_matches (Nat.le_of_lt hsize) ha) _).2 (keeps size _ hstep)

/-- Steps to children only lead to each node once. -/
theorem nodup_matches {clause : Clause} (h : ∀ name, .below name ∉ clause.steps) (c : Cursor) {size : Nat}
    (hsize : size ≤ clause.steps.length) : ((clause.matches c size).map Cursor.rank).Nodup := by
  induction size with
  | zero => exact List.pairwise_map.2 ((inOrder_first clause c).imp Nat.ne_of_lt)
  | succ size ih =>
    have hstep := List.getElem?_eq_getElem hsize
    rw [Clause.matches_succ hstep]
    cases hkind : clause.steps[size] with
    | below name =>
      rw [hkind] at hstep
      exact absurd (List.mem_of_getElem? hstep) (h name)
    | child name =>
      exact nodup_children (ih (Nat.le_of_lt hsize))
        fun a ha => mem_descendants_of_mem_matches (Nat.le_of_lt hsize) ha

end Order

/-- What a selector without commas picks below a node is the matches behind its last step. Behind each step
they are in document order, each node once, if and only if every step keeps the order; a selector
without steps picks in order. Steps to children never lead to a node twice. -/
theorem select_inOrder_iff (base : Cursor) {selector : Text} (hcomma : ',' ∉ selector) :
    base.select selector =
        (Clause.ofText selector).matches base (Clause.ofText selector).steps.length ∧
      ((∀ size, size ≤ (Clause.ofText selector).steps.length →
          InOrder ((Clause.ofText selector).matches base size)) ↔
        ∀ (size : Nat) (step : Step), (Clause.ofText selector).steps[size]? = some step →
          step.Keeps ((Clause.ofText selector).matches base size)) ∧
      ((∀ name, .below name ∉ (Clause.ofText selector).steps) →
        ((base.select selector).map Cursor.rank).Nodup) := by
  have hselect : base.select selector =
      (Clause.ofText selector).matches base (Clause.ofText selector).steps.length := by
    rw [← Clause.select_eq_matches]
    unfold Cursor.select clauses
    rw [splitBy_of_not_mem hcomma]
    simp
  refine ⟨hselect, inOrder_matches_iff _ base, fun hsteps => ?_⟩
  rw [hselect]
  exact nodup_matches hsteps base (Nat.le_refl _)

/-- The arguments of a call inside of the arguments of another one: the step to the arguments does not
keep the order, but leads to each argument once. -/
theorem select_inOrder_iff_nested :
    ',' ∉ "sequence > expression".toList ∧
    (¬∀ (size : Nat) (step : Step), (Clause.ofText "sequence > expression".toList).steps[size]? = some step →
      step.Keeps ((Clause.ofText "sequence > expression".toList).matches
        (parse defaultLimit "x := f(g(a), b)\n".toList).rootCursor size)) ∧
    (((parse defaultLimit "x := f(g(a), b)\n".toList).rootCursor.select
      "sequence > expression".toList).map Cursor.rank).Nodup := by
  have hcomma : ',' ∉ "sequence > expression".toList := by decide
  obtain ⟨-, hiff, hnodup⟩ := select_inOrder_iff
    (parse defaultLimit "x := f(g(a), b)\n".toList).rootCursor hcomma
  have hsteps : (Clause.ofText "sequence > expression".toList).steps = [.child "expression".toList] := by
    decide +kernel
  refine ⟨hcomma, fun keeps => ?_, hnodup fun name => ?_⟩
  · have hlast := hiff.2 keeps 1 (by rw [hsteps]; exact Nat.le_refl _)
    revert hlast
    decide +kernel
  · rw [hsteps]
    simp

/-- With one call among the arguments of another, the arguments of calls are not picked in document order,
and the values below expressions not once each. -/
theorem select_not_inOrder :
    ¬InOrder ((parse defaultLimit "x := f(g(a), b)\n".toList).rootCursor.select
      "sequence > expression".toList) ∧
    ¬(((parse defaultLimit "x := f(g(a), b)\n".toList).rootCursor.select
      "expression value".toList).map Cursor.rank).Nodup := by
  decide +kernel

end Justfile.Selector
