import Mathlib.Data.BitVec
import Mathlib.Order.RelIso.Basic
import Mathlib.Tactic

/-!
# CLabs.Lib.Serial

**Serial numbers.** Numbers of `w + 1` bits, counted round a circle, are compared by the way
up from one to the other: shorter than half of the circle is before, anything else after.

The comparison only depends on the difference (`serialCompare_add_right`), so a question about
numbers near any start is one about numbers near zero. That makes it a linear order on every
half of the circle (`serialCompare_isLinearOrder`). On the whole circle it is no order.
-/

namespace CLabs.Lib

variable {w : Nat}

/-- Negative, zero or positive as `a` comes before, is or comes after `b`. -/
def serialCompare (a b : BitVec (w + 1)) : Int :=
  if a = b then 0 else if (b - a).toNat < 2 ^ w then -1 else 1

/-- The half of the circle from `start` on. -/
def halfCircle (start : BitVec (w + 1)) : Set (BitVec (w + 1)) :=
  {x | (x - start).toNat < 2 ^ w}

section

variable {a b : BitVec (w + 1)}

theorem toNat_sub_eq_zero_iff : (b - a).toNat = 0 ↔ a = b := by
  have hzero : (b - a).toNat = (0 : BitVec (w + 1)).toNat ↔ b - a = 0 := BitVec.toNat_inj
  exact hzero.trans (sub_eq_zero.trans eq_comm)

/-- The way up and the way back make the circle. -/
theorem toNat_sub_add_toNat_sub (h : a ≠ b) :
    (b - a).toNat + (a - b).toNat = 2 ^ (w + 1) := by
  have ha := a.isLt
  have hb := b.isLt
  have hne : a.toNat ≠ b.toNat := fun heq => h (BitVec.eq_of_toNat_eq heq)
  rw [BitVec.toNat_sub, BitVec.toNat_sub]
  rcases Nat.lt_or_gt_of_ne hne with hlt | hlt
  · rw [Nat.add_comm, Nat.mod_eq_of_lt (by omega), Nat.mod_eq_sub_mod (by omega),
      Nat.mod_eq_of_lt (by omega)]
    omega
  · rw [Nat.mod_eq_of_lt (by omega), Nat.mod_eq_sub_mod (by omega),
      Nat.mod_eq_of_lt (by omega)]
    omega

/-! ### What the comparison tells -/

theorem serialCompare_eq_zero_iff : serialCompare a b = 0 ↔ a = b := by
  unfold serialCompare
  split_ifs <;> simp_all

theorem serialCompare_lt_zero_iff :
    serialCompare a b < 0 ↔ 0 < (b - a).toNat ∧ (b - a).toNat < 2 ^ w := by
  rw [Nat.pos_iff_ne_zero, ne_eq, toNat_sub_eq_zero_iff]
  unfold serialCompare
  split_ifs <;> simp_all

theorem serialCompare_pos_iff : 0 < serialCompare a b ↔ 2 ^ w ≤ (b - a).toNat := by
  unfold serialCompare
  split_ifs with heq hlt
  · rw [toNat_sub_eq_zero_iff.mpr heq]
    exact iff_of_false (lt_irrefl _) (Nat.two_pow_pos w).not_ge
  · exact iff_of_false (by decide) hlt.not_ge
  · exact iff_of_true (by decide) (not_lt.mp hlt)

theorem serialCompare_le_zero_iff : serialCompare a b ≤ 0 ↔ (b - a).toNat < 2 ^ w := by
  rw [← not_lt, serialCompare_pos_iff, not_le]

/-- **The other way round.** Only numbers at opposite points of the circle compare alike. -/
theorem serialCompare_eq_neg_iff :
    serialCompare a b = -serialCompare b a ↔ (a - b).toNat ≠ 2 ^ w := by
  by_cases heq : a = b
  · have hhalf : 0 < 2 ^ w := Nat.two_pow_pos w
    have hzero := toNat_sub_eq_zero_iff.mpr heq.symm
    rw [serialCompare_eq_zero_iff.mpr heq, serialCompare_eq_zero_iff.mpr heq.symm, hzero]
    exact iff_of_true rfl hhalf.ne
  · have hcircle := toNat_sub_add_toNat_sub heq
    unfold serialCompare
    rw [if_neg heq, if_neg (Ne.symm heq)]
    generalize (b - a).toNat = up, (a - b).toNat = back at *
    by_cases hup : up < 2 ^ w
    · rw [if_pos hup, if_neg (by omega)]
      exact iff_of_true rfl (by omega)
    · rw [if_neg hup]
      by_cases hback : back < 2 ^ w
      · rw [if_pos hback]
        exact iff_of_true rfl hback.ne
      · -- both ways are half of the circle
        rw [if_neg hback]
        exact iff_of_false (by decide) (not_not.mpr (by omega))

end

/-! ### Shifts -/

/-- **Shifts.** The comparison looks at the difference only. -/
theorem serialCompare_add_right (a b c : BitVec (w + 1)) :
    serialCompare (a + c) (b + c) = serialCompare a b := by
  unfold serialCompare
  rw [add_sub_add_right_eq_sub]
  simp only [add_left_inj]

/-! ### Half of the circle -/

section

variable {start x y : BitVec (w + 1)}

/-- Below half of the circle the comparison is the one of natural numbers. -/
theorem serialCompare_le_zero_iff_toNat_le (hx : x.toNat < 2 ^ w) (hy : y.toNat < 2 ^ w) :
    serialCompare x y ≤ 0 ↔ x.toNat ≤ y.toNat := by
  rw [serialCompare_le_zero_iff, BitVec.toNat_sub]
  by_cases hle : x.toNat ≤ y.toNat
  · rw [Nat.mod_eq_sub_mod (by omega), Nat.mod_eq_of_lt (by omega)]
    omega
  · rw [Nat.mod_eq_of_lt (by omega)]
    omega

/-- **Within half of the circle** the comparison is the one of the offsets. -/
theorem serialCompare_le_zero_iff_of_mem (hx : x ∈ halfCircle start) (hy : y ∈ halfCircle start) :
    serialCompare x y ≤ 0 ↔ (x - start).toNat ≤ (y - start).toNat := by
  have hshift := serialCompare_add_right (x - start) (y - start) start
  rw [sub_add_cancel, sub_add_cancel] at hshift
  rw [hshift]
  exact serialCompare_le_zero_iff_toNat_le hx hy

/-- **Half of the circle is ordered.** -/
theorem serialCompare_isLinearOrder {S : Set (BitVec (w + 1))} (hS : S ⊆ halfCircle start) :
    IsLinearOrder S fun x y => serialCompare x.val y.val ≤ 0 := by
  let offset : (fun x y : S => serialCompare x.val y.val ≤ 0) ↪r (fun m n : Nat => m ≤ n) :=
    { toFun := fun x => (x.val - start).toNat
      inj' := fun x y h => Subtype.ext (sub_left_injective (BitVec.toNat_inj.mp h))
      map_rel_iff' := fun {x y} => (serialCompare_le_zero_iff_of_mem (hS x.2) (hS y.2)).symm }
  exact offset.isLinearOrder

end

end CLabs.Lib
