import Mathlib.Order.ConditionallyCompleteLattice.Basic
import Mathlib.Order.Interval.Set.Basic
import Mathlib.Order.Nat
import Mathlib.Tactic

/-!
# CLabs.Lib.Slice

Slices of a list by position, and the **frontier** of a set of positions: the
first one at or after a starting point that is missing from the set.

A receiver that is handed slices of a byte string in any order can be described
by the set of positions it was handed alone: what it can pass on is the slice up
to the frontier of that set.
-/

namespace CLabs.Lib

/-! ### Slices -/

section

variable {α : Type*}

/-- `l[i..j)`. -/
def slice (l : List α) (i j : Nat) : List α := (l.drop i).take (j - i)

theorem slice_length {l : List α} {i j : Nat} (h : j ≤ l.length) :
    (slice l i j).length = j - i := by
  rw [slice, List.length_take, List.length_drop]
  omega

@[simp] theorem slice_self (l : List α) (i : Nat) : slice l i i = [] := by
  rw [slice, Nat.sub_self, List.take_zero]

theorem slice_zero_length (l : List α) : slice l 0 l.length = l := by
  rw [slice, List.drop_zero, Nat.sub_zero, List.take_length]

theorem slice_zero (l : List α) (j : Nat) : slice l 0 j = l.take j := by
  rw [slice, List.drop_zero, Nat.sub_zero]

theorem drop_slice (l : List α) (i j n : Nat) : (slice l i j).drop n = slice l (i + n) j := by
  rw [slice, slice, List.drop_take, List.drop_drop, Nat.sub_sub]

theorem slice_append_slice (l : List α) {i j k : Nat} (hij : i ≤ j) (hjk : j ≤ k) :
    slice l i j ++ slice l j k = slice l i k := by
  have hk : k - i = (j - i) + (k - j) := by omega
  have hj : (l.drop i).drop (j - i) = l.drop j := by
    rw [List.drop_drop]
    congr 1
    omega
  rw [slice, slice, slice, hk, List.take_add, hj]

end

/-! ### Frontiers -/

/-- The first position from `a` on that is not in `R`. -/
noncomputable def frontier (a : Nat) (R : Set Nat) : Nat := sInf {p | a ≤ p ∧ p ∉ R}

theorem frontier_eq {a n : Nat} {R : Set Nat} (han : a ≤ n) (hbelow : Set.Ico a n ⊆ R)
    (hn : n ∉ R) : frontier a R = n := by
  have hmem : n ∈ {p | a ≤ p ∧ p ∉ R} := ⟨han, hn⟩
  apply le_antisymm (Nat.sInf_le hmem)
  apply le_csInf ⟨n, hmem⟩
  intro p hp
  by_contra hlt
  exact hp.2 (hbelow ⟨hp.1, not_le.mp hlt⟩)

end CLabs.Lib
