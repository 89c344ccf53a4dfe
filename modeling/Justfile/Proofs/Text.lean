import Justfile.Text

/-!
# Cuts at byte offsets

Cuts at the ends of a stretch of text give the stretch, and cuts in turn add up.
-/

set_option autoImplicit false

namespace Justfile.Text

/-- The offset lies between two characters of the source, or at one of its ends. -/
def IsBoundary (source : Text) (offset : Nat) : Prop :=
  ∃ front back, source = front ++ back ∧ offset = byteSize front

theorem dropBytes?_append (front back : Text) :
    dropBytes? (front ++ back) (byteSize front) = some back := by
  induction front with
  | nil => cases back <;> rfl
  | cons c front ih =>
    obtain ⟨n, hn⟩ : ∃ n, byteSize (c :: front) = n + 1 :=
      ⟨c.utf8Size + byteSize front - 1, by
        have := c.utf8Size_pos
        simp only [byteSize_cons]
        omega⟩
    rw [hn, List.cons_append, dropBytes?, ← hn, byteSize_cons]
    rw [if_pos (Nat.le_add_right ..), Nat.add_sub_cancel_left]
    exact ih

theorem takeBytes?_append (front back : Text) :
    takeBytes? (front ++ back) (byteSize front) = some front := by
  induction front with
  | nil => cases back <;> rfl
  | cons c front ih =>
    obtain ⟨n, hn⟩ : ∃ n, byteSize (c :: front) = n + 1 :=
      ⟨c.utf8Size + byteSize front - 1, by
        have := c.utf8Size_pos
        simp only [byteSize_cons]
        omega⟩
    rw [hn, List.cons_append, takeBytes?, ← hn, byteSize_cons]
    rw [if_pos (Nat.le_add_right ..), Nat.add_sub_cancel_left, ih]
    rfl

/-- Cutting at the ends of a stretch gives the stretch. -/
theorem slice?_append (front middle back : Text) :
    slice? (front ++ (middle ++ back)) (byteSize front) (byteSize front + byteSize middle) =
      some middle := by
  unfold slice?
  rw [if_pos (Nat.le_add_right ..), dropBytes?_append, Nat.add_sub_cancel_left]
  exact takeBytes?_append middle back

/-- Dropping bytes in two steps. -/
theorem dropBytes?_add {text middle : Text} {first : Nat} (h : dropBytes? text first = some middle)
    (second : Nat) : dropBytes? text (first + second) = dropBytes? middle second := by
  fun_induction dropBytes? text first with
  | case1 text => cases h; rw [Nat.zero_add]
  | case2 => cases h
  | case3 c rest n hle ih =>
    have hsize := c.utf8Size_pos
    obtain ⟨m, hm⟩ : ∃ m, n + 1 + second = m + 1 := ⟨n + second, by omega⟩
    rw [hm, dropBytes?, if_pos (by omega), ← hm, ← ih h]
    congr 1
    omega
  | case4 => cases h

/-- Dropping one more character. -/
theorem dropBytes?_utf8Size {text rest : Text} {c : Char} {offset : Nat}
    (h : dropBytes? text offset = some (c :: rest)) :
    dropBytes? text (offset + c.utf8Size) = some rest := by
  have hone := dropBytes?_append [c] rest
  rw [byteSize_cons, byteSize_nil, Nat.add_zero] at hone
  rw [dropBytes?_add h]
  exact hone

end Justfile.Text
