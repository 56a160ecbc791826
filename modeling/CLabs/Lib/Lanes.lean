import Mathlib.Tactic

/-!
# CLabs.Lib.Lanes

Words of one width packed into one natural number, as the lanes of a vector register. What
is done to all words at once is one operation on the number, and what the operation does to a word is
read off bit by bit (`testBit_lanes`).
-/

namespace CLabs.Lib

/-- The first `k` words of `f`, of `w` bits each, the first one lowest. -/
def lanes (w : ℕ) : (ℕ → ℕ) → ℕ → ℕ
  | _, 0 => 0
  | f, k + 1 => 2 ^ w * lanes w (fun j => f (j + 1)) k + f 0

/-- The word in lane `j`. -/
def lane (w x j : ℕ) : ℕ := (x >>> (w * j)) % 2 ^ w

section

variable {w : ℕ} {f g : ℕ → ℕ} {k : ℕ}

theorem testBit_lanes (hw : 0 < w) (hf : ∀ j, f j < 2 ^ w) (i : ℕ) :
    (lanes w f k).testBit i = (decide (i / w < k) && (f (i / w)).testBit (i % w)) := by
  induction k generalizing f i with
  | zero => simp [lanes]
  | succ k ih =>
      rw [lanes, Nat.testBit_two_pow_mul_add _ (hf 0)]
      by_cases hi : i < w
      · rw [if_pos hi, Nat.div_eq_of_lt hi, Nat.mod_eq_of_lt hi]
        simp
      · obtain ⟨i, rfl⟩ : ∃ i', i = i' + w := ⟨i - w, by omega⟩
        rw [if_neg hi, Nat.add_sub_cancel, ih (fun j => hf (j + 1)), Nat.add_div_right _ hw,
          Nat.add_mod_right]
        simp

/-- The word of a lane is found there. -/
theorem lane_lanes (hw : 0 < w) (hf : ∀ j, f j < 2 ^ w) {j : ℕ} (hj : j < k) :
    lane w (lanes w f k) j = f j := by
  refine Nat.eq_of_testBit_eq fun p => ?_
  rw [lane, Nat.testBit_mod_two_pow, Nat.testBit_shiftRight, testBit_lanes hw hf]
  by_cases hp : p < w
  · rw [Nat.mul_add_div hw, Nat.mul_add_mod, Nat.div_eq_of_lt hp, Nat.mod_eq_of_lt hp]
    simp [hp, hj]
  · rw [Nat.testBit_lt_two_pow (lt_of_lt_of_le (hf j) (Nat.pow_le_pow_right two_pos (by omega)))]
    simp [hp]

/-- A multiple of each word, if it does not leave the lane, is a multiple of the number. -/
theorem lanes_mul (c : ℕ) : lanes w f k * c = lanes w (fun j => f j * c) k := by
  induction k generalizing f with
  | zero => simp [lanes]
  | succ k ih => rw [lanes, lanes, add_mul, mul_assoc, ih]

end

end CLabs.Lib
