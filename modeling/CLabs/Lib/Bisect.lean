import CLabs.Lib.Grid
import Mathlib.Data.Nat.Bitwise

/-!
# CLabs.Lib.Bisect

**Bisection of an interval along a bit string.** Each bit halves the interval and keeps its
upper or its lower half. After a string of `n` bits the interval is the cell that the string,
read as a number with its first bit most significant, has in the grid of `2 ^ n` equal cells
(`foldl_bisect`).

When two intervals take turns, each of them sees every other bit. `every` selects these, and
`testBit_number_every` says where they are in the number that the whole string spells.
-/

namespace CLabs.Lib

/-! ### Bit strings as numbers -/

/-- The number a bit string spells, first bit most significant. -/
def number (l : List Bool) : ℕ := l.foldl (fun n bit => Nat.bit bit n) 0

@[simp] theorem number_nil : number [] = 0 := rfl

theorem number_concat (l : List Bool) (bit : Bool) :
    number (l ++ [bit]) = Nat.bit bit (number l) := by
  rw [number, List.foldl_append]
  rfl

theorem testBit_number (l : List Bool) (i : ℕ) :
    (number l).testBit i = l.reverse.getD i false := by
  induction l using List.reverseRecOn generalizing i with
  | nil => simp
  | append_singleton l bit ih =>
      rw [number_concat, List.reverse_append]
      cases i with
      | zero => exact Nat.testBit_bit_zero bit _
      | succ i =>
          rw [Nat.testBit_bit_succ, ih]
          rfl

theorem number_append (l l' : List Bool) :
    number (l ++ l') = number l * 2 ^ l'.length + number l' := by
  induction l' using List.reverseRecOn with
  | nil => simp
  | append_singleton l' bit ih =>
      rw [← List.append_assoc, number_concat, number_concat, ih, List.length_append,
        List.length_singleton, Nat.pow_succ, Nat.bit_val, Nat.bit_val]
      ring

theorem number_lt (l : List Bool) : number l < 2 ^ l.length := by
  induction l using List.reverseRecOn with
  | nil => exact Nat.one_pos
  | append_singleton l bit ih =>
      rw [number_concat, List.length_append, List.length_singleton, Nat.pow_succ, Nat.bit_val]
      have := bit.toNat_le
      omega

/-! ### Every other element -/

/-- Every other element, from the first one on or from the second. -/
def every {α : Type*} : Bool → List α → List α
  | _, [] => []
  | true, a :: l => a :: every false l
  | false, _ :: l => every true l

section

variable {α : Type*}

theorem getD_every (l : List α) (d : α) :
    ∀ i, (every true l).getD i d = l.getD (2 * i) d ∧
      (every false l).getD i d = l.getD (2 * i + 1) d := by
  induction l with
  | nil => intro i; exact ⟨rfl, rfl⟩
  | cons a l ih =>
      intro i
      constructor
      · cases i with
        | zero => rfl
        | succ i => exact (ih i).2
      · exact (ih i).1

theorem length_every (l : List α) :
    (every true l).length = (l.length + 1) / 2 ∧ (every false l).length = l.length / 2 := by
  induction l with
  | nil => simp [every]
  | cons a l ih =>
      obtain ⟨htrue, hfalse⟩ := ih
      constructor
      · rw [every, List.length_cons, List.length_cons, hfalse]
        omega
      · rw [every, List.length_cons, htrue]

theorem every_concat (flip : Bool) (l : List α) (a : α) :
    every flip (l ++ [a]) =
      if (flip ^^ decide (l.length % 2 = 1)) = true then every flip l ++ [a] else every flip l := by
  induction l generalizing flip with
  | nil => cases flip <;> rfl
  | cons b l ih =>
      have hparity : decide ((b :: l).length % 2 = 1) = !decide (l.length % 2 = 1) := by
        rw [List.length_cons, ← decide_not, decide_eq_decide]
        omega
      rw [hparity]
      cases flip with
      | true =>
          rw [List.cons_append, every, ih]
          cases decide (l.length % 2 = 1) <;> rfl
      | false =>
          rw [List.cons_append, every, ih]
          cases decide (l.length % 2 = 1) <;> rfl

/-- A list of odd length may be read from either end. -/
theorem reverse_every (flip : Bool) (l : List α) :
    (every flip l).reverse = every (flip ^^ decide (l.length % 2 = 0)) l.reverse := by
  induction l using List.reverseRecOn generalizing flip with
  | nil => cases flip <;> rfl
  | append_singleton l a ih =>
      have hparity : decide ((l ++ [a]).length % 2 = 0) = decide (l.length % 2 = 1) := by
        rw [List.length_append, List.length_singleton, decide_eq_decide]
        omega
      have hparity' : decide (l.length % 2 = 0) = !decide (l.length % 2 = 1) := by
        rw [← decide_not, decide_eq_decide]
        omega
      rw [every_concat, List.reverse_append, List.reverse_singleton, List.singleton_append, hparity]
      rw [hparity'] at ih
      cases hbit : flip ^^ decide (l.length % 2 = 1) with
      | true =>
          rw [if_pos rfl, List.reverse_append, ih, every]
          revert hbit
          cases flip <;> cases decide (l.length % 2 = 1) <;> simp
      | false =>
          rw [if_neg Bool.false_ne_true, ih, every]
          revert hbit
          cases flip <;> cases decide (l.length % 2 = 1) <;> simp

end

/-- In a string of odd length the two selections are the even and the odd bits. -/
theorem testBit_number_every {l : List Bool} (hodd : l.length % 2 = 1) (i : ℕ) :
    (number (every true l)).testBit i = (number l).testBit (2 * i) ∧
      (number (every false l)).testBit i = (number l).testBit (2 * i + 1) := by
  have hparity : decide (l.length % 2 = 0) = false := decide_eq_false (by omega)
  simp only [testBit_number, reverse_every, hparity, Bool.xor_false]
  exact getD_every l.reverse false i

/-! ### Halving -/

section

variable {K : Type*} [Field K]

/-- **The cell of a bit string.** -/
theorem foldl_bisect [CharZero K] (r : Span K) (l : List Bool) :
    l.foldl Span.bisect r =
      ⟨r.point l.length (number l), r.point l.length (number l + 1)⟩ := by
  unfold Span.point
  induction l using List.reverseRecOn with
  | nil => simp
  | append_singleton l bit ih =>
      rw [List.foldl_append, ih, number_concat, List.length_append, List.length_singleton,
        Nat.bit_val]
      have htwo : (2 : K) ^ l.length ≠ 0 := pow_ne_zero _ two_ne_zero
      cases bit with
      | true =>
          simp only [List.foldl_cons, List.foldl_nil, Span.bisect, if_true,
            Span.mk.injEq, Bool.toNat_true]
          push_cast
          constructor <;> field_simp <;> ring
      | false =>
          simp only [List.foldl_cons, List.foldl_nil, Span.bisect, Bool.false_eq_true, if_false,
            Span.mk.injEq, Bool.toNat_false]
          push_cast
          constructor <;> field_simp <;> ring

end

end CLabs.Lib
