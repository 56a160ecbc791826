import Mathlib.Order.Defs.LinearOrder
import Mathlib.Tactic

/-!
# CLabs.Lib.MachineInt

The linear orders of the fixed-width unsigned integers, over the comparisons the
core library already defines on them (so that keys of these types can be used in
an ordered container), and signed integers whose overflow is undefined.
-/

namespace CLabs.Lib

instance instLinearOrderUInt8 : LinearOrder UInt8 where
  le_refl := UInt8.le_refl
  le_trans _ _ _ := UInt8.le_trans
  lt_iff_le_not_ge a b := by
    rw [UInt8.lt_iff_toNat_lt, UInt8.le_iff_toNat_le, UInt8.le_iff_toNat_le]
    omega
  le_antisymm _ _ := UInt8.le_antisymm
  le_total := UInt8.le_total
  toDecidableLE := inferInstance
  toDecidableEq := inferInstance
  toDecidableLT := inferInstance

instance instLinearOrderUInt16 : LinearOrder UInt16 where
  le_refl := UInt16.le_refl
  le_trans _ _ _ := UInt16.le_trans
  lt_iff_le_not_ge a b := by
    rw [UInt16.lt_iff_toNat_lt, UInt16.le_iff_toNat_le, UInt16.le_iff_toNat_le]
    omega
  le_antisymm _ _ := UInt16.le_antisymm
  le_total := UInt16.le_total
  toDecidableLE := inferInstance
  toDecidableEq := inferInstance
  toDecidableLT := inferInstance

instance instLinearOrderUInt32 : LinearOrder UInt32 where
  le_refl := UInt32.le_refl
  le_trans _ _ _ := UInt32.le_trans
  lt_iff_le_not_ge a b := by
    rw [UInt32.lt_iff_toNat_lt, UInt32.le_iff_toNat_le, UInt32.le_iff_toNat_le]
    omega
  le_antisymm _ _ := UInt32.le_antisymm
  le_total := UInt32.le_total
  toDecidableLE := inferInstance
  toDecidableEq := inferInstance
  toDecidableLT := inferInstance

/-! ### Signed integers -/

/-- An `int` of 32 bits. -/
abbrev I32 : Type := { z : ℤ // -2 ^ 31 ≤ z ∧ z < 2 ^ 31 }

def I32.zero : I32 := ⟨0, by decide⟩

/-- The value of an expression of that type; `none` if it is undefined. -/
def checked (z : ℤ) : Option I32 :=
  if h : -2 ^ 31 ≤ z ∧ z < 2 ^ 31 then some ⟨z, h⟩ else none

theorem checked_eq_some_iff {z : ℤ} {val : I32} : checked z = some val ↔ z = val.val := by
  unfold checked
  constructor
  · intro h
    split_ifs at h with hz
    obtain rfl := Option.some.inj h
    rfl
  · rintro rfl
    exact dif_pos val.property

theorem checked_val (val : I32) : checked val.val = some val := checked_eq_some_iff.mpr rfl

end CLabs.Lib
