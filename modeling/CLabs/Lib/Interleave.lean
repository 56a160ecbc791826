import Mathlib.Tactic

/-!
# CLabs.Lib.Interleave

**Spreading and gathering the bits of a word** by masks and shifts. A word is `Spread s` over a
bit string when its even blocks of `s` bits hold the string, in order, and its odd blocks
are empty. Halving the block size takes one shift to the left and a mask (`Spread.halve`),
doubling it one shift to the right and a mask (`Spread.double`); a string spread bit by bit
leaves room for a second one (`Spread.zip_even`, `Spread.zip_odd`).

Positions are written `2 s q + r` with `r < s`, not by quotient and remainder, so that every
step is an identity between such sums.
-/

namespace CLabs.Lib

variable {w s : ℕ} {x y : ℕ → Bool} {u v mask : BitVec w}

/-- The mask selects the even blocks of `s` bits. -/
def BlockMask (s : ℕ) (mask : BitVec w) : Prop :=
  ∀ p < w, mask.getLsbD p = decide (p % (2 * s) < s)

instance (s : ℕ) (mask : BitVec w) : Decidable (BlockMask s mask) :=
  inferInstanceAs (Decidable (∀ p < w, _))

theorem BlockMask.block (h : BlockMask s mask) {q r : ℕ} (hr : r < s) (hp : 2 * s * q + r < w) :
    mask.getLsbD (2 * s * q + r) = true := by
  rw [h _ hp, Nat.mul_add_mod, Nat.mod_eq_of_lt (by omega)]
  exact decide_eq_true hr

theorem BlockMask.gap (h : BlockMask s mask) {q r : ℕ} (hr : r < s)
    (hp : 2 * s * q + s + r < w) : mask.getLsbD (2 * s * q + s + r) = false := by
  rw [h _ hp, Nat.add_assoc, Nat.mul_add_mod, Nat.mod_eq_of_lt (by omega)]
  exact decide_eq_false (by omega)

/-- The even blocks of `s` bits hold the string `x`, the odd ones are empty. -/
structure Spread (s : ℕ) (x : ℕ → Bool) (v : BitVec w) : Prop where
  block : ∀ q r, r < s → 2 * s * q + r < w → v.getLsbD (2 * s * q + r) = x (s * q + r)
  gap : ∀ q r, r < s → 2 * s * q + s + r < w → v.getLsbD (2 * s * q + s + r) = false

/-- A mask empties the odd blocks. -/
theorem spread_and_mask (hmask : BlockMask s mask)
    (h : ∀ q r, r < s → 2 * s * q + r < w → v.getLsbD (2 * s * q + r) = x (s * q + r)) :
    Spread s x (v &&& mask) where
  block q r hr hp := by rw [BitVec.getLsbD_and, hmask.block hr hp, Bool.and_true, h q r hr hp]
  gap q r hr hp := by rw [BitVec.getLsbD_and, hmask.gap hr hp, Bool.and_false]

/-- Move every second half block up by its length. -/
theorem Spread.halve (h : Spread (2 * s) x v) (mask : BitVec w) (hmask : BlockMask s mask) :
    Spread s x ((v ||| (v <<< s)) &&& mask) := by
  refine spread_and_mask hmask fun q r hr hp => ?_
  rw [BitVec.getLsbD_or, BitVec.getLsbD_shiftLeft, decide_eq_true hp, Bool.true_and]
  obtain ⟨q, rfl | rfl⟩ := Nat.even_or_odd' q
  · -- the lower half of a block stays where it is
    have hpos : 2 * s * (2 * q) + r = 2 * (2 * s) * q + r := by ring
    have hbit := h.block q r (by omega) (hpos ▸ hp)
    have hbefore : (!decide (2 * s * (2 * q) + r < s) && v.getLsbD (2 * s * (2 * q) + r - s)) =
        false := by
      cases q with
      | zero => simp [hr]
      | succ q =>
          have hpos' : 2 * s * (2 * (q + 1)) + r - s = 2 * (2 * s) * q + 2 * s + (s + r) := by
            have : 2 * s * (2 * (q + 1)) = 2 * (2 * s) * q + 4 * s := by ring
            omega
          rw [hpos', h.gap q (s + r) (by omega) (by omega), Bool.and_false]
    rw [hbefore, Bool.or_false, hpos, hbit]
    congr 1
    ring
  · -- the upper half comes from one length below
    have hpos : 2 * s * (2 * q + 1) + r = 2 * (2 * s) * q + 2 * s + r := by ring
    have hsub : 2 * s * (2 * q + 1) + r - s = 2 * (2 * s) * q + (s + r) := by omega
    have hle : ¬ 2 * s * (2 * q + 1) + r < s := by omega
    rw [hpos, h.gap q r (by omega) (hpos ▸ hp), Bool.false_or, ← hpos, decide_eq_false hle,
      Bool.not_false, Bool.true_and, hsub, h.block q (s + r) (by omega) (by omega)]
    congr 1
    ring

/-- In a word made of whole pairs of blocks, an upper block has a lower one beside it. -/
theorem block_in_word (hw : 2 * (2 * s) ∣ w) {q r : ℕ} (hr : r < s)
    (hp : 2 * (2 * s) * q + (s + r) < w) : 2 * s * (2 * q + 1) + r < w := by
  obtain ⟨n, rfl⟩ := hw
  have hq : q < n := by
    by_contra hnot
    have := Nat.mul_le_mul_left (2 * (2 * s)) (not_lt.mp hnot)
    omega
  have hblock : 2 * (2 * s) * (q + 1) ≤ 2 * (2 * s) * n := Nat.mul_le_mul_left _ hq
  have hsum : 2 * (2 * s) * (q + 1) = 2 * s * (2 * q + 1) + 2 * s := by ring
  omega

/-- Move every second block down by its length. -/
theorem Spread.double (h : Spread s x v) (mask : BitVec w) (hmask : BlockMask (2 * s) mask)
    (hw : 2 * (2 * s) ∣ w) : Spread (2 * s) x ((v ||| (v >>> s)) &&& mask) := by
  refine spread_and_mask hmask fun q r hr hp => ?_
  rw [BitVec.getLsbD_or, BitVec.getLsbD_ushiftRight]
  by_cases hlow : r < s
  · -- the lower half of a block stays where it is
    have hpos : 2 * (2 * s) * q + r = 2 * s * (2 * q) + r := by ring
    have hup : s + (2 * (2 * s) * q + r) = 2 * s * (2 * q) + s + r := by
      rw [hpos]
      omega
    have hgap : v.getLsbD (s + (2 * (2 * s) * q + r)) = false := by
      rw [hup]
      by_cases hin : 2 * s * (2 * q) + s + r < w
      · exact h.gap (2 * q) r hlow hin
      · exact BitVec.getLsbD_of_ge v _ (not_lt.mp hin)
    rw [hgap, Bool.or_false, hpos, h.block (2 * q) r hlow (hpos ▸ hp)]
    congr 1
    ring
  · -- the upper half comes from one length above
    obtain ⟨r, rfl⟩ : ∃ r', r = s + r' := ⟨r - s, by omega⟩
    have hpos : 2 * (2 * s) * q + (s + r) = 2 * s * (2 * q) + s + r := by ring
    have hup : s + (2 * (2 * s) * q + (s + r)) = 2 * s * (2 * q + 1) + r := by ring
    have hin : 2 * s * (2 * q + 1) + r < w := block_in_word hw (by omega) hp
    rw [hup, h.block (2 * q + 1) r (by omega) hin, hpos,
      h.gap (2 * q) r (by omega) (hpos ▸ hp), Bool.false_or]
    congr 1
    ring

/-- A word whose upper half is empty is a single block. -/
theorem spread_setWidth {n : ℕ} (u : BitVec n) (hw : w = 2 * n) :
    Spread n u.getLsbD (u.setWidth w) := by
  subst hw
  constructor
  · intro q r hr hp
    rw [BitVec.getLsbD_setWidth, decide_eq_true hp, Bool.true_and]
    congr 1
    have hq : n * q = 0 := by
      rcases Nat.eq_zero_or_pos q with rfl | hq
      · rfl
      · have := Nat.mul_le_mul_left (2 * n) hq
        omega
    have : 2 * n * q = 2 * (n * q) := by ring
    omega
  · intro q r hr hp
    rw [BitVec.getLsbD_setWidth, BitVec.getLsbD_of_ge u _ (by omega), Bool.and_false]

/-- The even bits of a word, by themselves. -/
theorem spread_even (v : BitVec w) (hmask : BlockMask 1 mask) :
    Spread 1 (fun j => v.getLsbD (2 * j)) (v &&& mask) := by
  refine spread_and_mask hmask fun q r hr _ => ?_
  congr 1
  omega

theorem Spread.zip_even (hu : Spread 1 x u) (hv : Spread 1 y v) {j : ℕ} (hj : 2 * j < w) :
    (u ||| (v <<< 1)).getLsbD (2 * j) = x j := by
  have hblock := hu.block j 0 (by omega) (by omega)
  have hbefore : (v <<< 1).getLsbD (2 * j) = false := by
    rw [BitVec.getLsbD_shiftLeft]
    cases j with
    | zero => simp
    | succ j =>
        have hgap := hv.gap j 0 (by omega) (by omega)
        rw [show 2 * (j + 1) - 1 = 2 * 1 * j + 1 + 0 by omega, hgap, Bool.and_false]
  rw [BitVec.getLsbD_or, hbefore, Bool.or_false]
  simpa using hblock

theorem Spread.zip_odd (hu : Spread 1 x u) (hv : Spread 1 y v) {j : ℕ} (hj : 2 * j + 1 < w) :
    (u ||| (v <<< 1)).getLsbD (2 * j + 1) = y j := by
  have hblock := hv.block j 0 (by omega) (by omega)
  have hgap := hu.gap j 0 (by omega) (by omega)
  have hpos : 2 * j + 1 = 2 * 1 * j + 1 + 0 := by omega
  rw [BitVec.getLsbD_or, BitVec.getLsbD_shiftLeft, decide_eq_true hj, hpos, hgap]
  simpa using hblock

end CLabs.Lib
