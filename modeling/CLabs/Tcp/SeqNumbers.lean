import CLabs.Lib.Serial
import Mathlib.Tactic

/-!
# CLabs.Tcp.SeqNumbers

The 32-bit sequence-number arithmetic of `tcpcap_stream.cpp`: addition,
subtraction and the RFC 1982 comparison.

Two facts shape everything built on top of it.

* `subtractSequenceNumbers` is exactly the wrapping subtraction
  (`subtractSequenceNumbers_eq_sub`), and `compareSeqNumbers` only looks at that
  difference: it is the comparison of serial numbers
  (`compareSeqNumbers_eq_serialCompare`). So both are correct across the wrap of the
  sequence space.
* `addSequenceNumbers` reduces modulo `2 ^ 32 - 1` and not `2 ^ 32`: it is the
  wrapping addition as long as the sum stays below `2 ^ 32 - 1`
  (`addSequenceNumbers_of_lt`) and is one too large from there on
  (`addSequenceNumbers_of_le`).
-/

namespace CLabs.Tcp

open CLabs.Lib

/-- `seq_number_diff`: half of the sequence space. -/
def seqNumberDiff : UInt32 := 2147483648

/-- `addition_modulo`: `std::numeric_limits<uint32_t>::max()`. -/
def additionModulo : UInt32 := 4294967295

/-- `add_sequence_numbers`: the sum is taken in 64 bits and reduced. -/
def addSequenceNumbers (seq1 seq2 : UInt32) : UInt32 :=
  ((seq1.toUInt64 + seq2.toUInt64) % additionModulo.toUInt64).toUInt32

/-- `subtract_sequence_numbers`. -/
def subtractSequenceNumbers (seq1 seq2 : UInt32) : UInt32 :=
  if seq1 > seq2 then seq1 - seq2
  else (4294967295 - seq2) + seq1 + 1

/-- `compare_seq_numbers`: negative, zero or positive as `seq1` comes before, is
or comes after `seq2`. -/
def compareSeqNumbers (seq1 seq2 : UInt32) : Int :=
  if seq1 = seq2 then 0
  else if seq1 < seq2 then
    if seq2 - seq1 < seqNumberDiff then -1 else 1
  else
    if seq1 - seq2 > seqNumberDiff then -1 else 1

/-! ### Addition -/

theorem addSequenceNumbers_toNat (a b : UInt32) :
    (addSequenceNumbers a b).toNat = (a.toNat + b.toNat) % 4294967295 := by
  have ha := a.toNat_lt
  have hb := b.toNat_lt
  have hmod : (a.toNat + b.toNat) % 4294967295 < 4294967295 := Nat.mod_lt _ (by norm_num)
  simp only [addSequenceNumbers, additionModulo, UInt64.toNat_toUInt32, UInt64.toNat_mod,
    UInt64.toNat_add, UInt32.toNat_toUInt64, UInt32.reduceToNat]
  omega

theorem addSequenceNumbers_of_lt {a b : UInt32} (h : a.toNat + b.toNat < 4294967295) :
    (addSequenceNumbers a b).toNat = a.toNat + b.toNat := by
  rw [addSequenceNumbers_toNat, Nat.mod_eq_of_lt h]

/-- From `2 ^ 32 - 1` on the sum is the wrapping one **plus one**. -/
theorem addSequenceNumbers_of_le {a b : UInt32} (h : 4294967295 ≤ a.toNat + b.toNat)
    (hb : b.toNat < 4294967295) : addSequenceNumbers a b = a + b + 1 := by
  have ha := a.toNat_lt
  rw [← UInt32.toNat_inj, addSequenceNumbers_toNat, UInt32.toNat_add, UInt32.toNat_add]
  simp only [UInt32.reduceToNat]
  omega

/-- The sum wraps once, or twice when both numbers are `2 ^ 32 - 1`. -/
theorem addSequenceNumbers_cases (a b : UInt32) :
    (a.toNat + b.toNat < 4294967295 ∧ (addSequenceNumbers a b).toNat = a.toNat + b.toNat) ∨
      (4294967295 ≤ a.toNat + b.toNat ∧ a.toNat + b.toNat < 8589934590 ∧
        (addSequenceNumbers a b).toNat = a.toNat + b.toNat - 4294967295) ∨
      (a.toNat + b.toNat = 8589934590 ∧ (addSequenceNumbers a b).toNat = 0) := by
  have ha := a.toNat_lt
  have hb := b.toNat_lt
  rw [addSequenceNumbers_toNat]
  omega

/-! ### Subtraction and comparison -/

theorem toNat_sub_cases (a b : UInt32) :
    (b.toNat ≤ a.toNat ∧ (a - b).toNat = a.toNat - b.toNat) ∨
      (a.toNat < b.toNat ∧ (a - b).toNat = a.toNat + 4294967296 - b.toNat) := by
  have ha := a.toNat_lt
  have hb := b.toNat_lt
  rw [UInt32.toNat_sub]
  omega

theorem subtractSequenceNumbers_eq_sub (a b : UInt32) :
    subtractSequenceNumbers a b = a - b := by
  unfold subtractSequenceNumbers
  split
  · rfl
  · have ha := a.toNat_lt
    have hb := b.toNat_lt
    rw [← UInt32.toNat_inj]
    simp only [UInt32.toNat_add, UInt32.toNat_sub, UInt32.reduceToNat]
    omega

/-- **The comparison is the one of serial numbers.** -/
theorem compareSeqNumbers_eq_serialCompare (a b : UInt32) :
    compareSeqNumbers a b = serialCompare a.toBitVec b.toBitVec := by
  have hup : (b.toBitVec - a.toBitVec).toNat = (b - a).toNat := rfl
  have heq : a.toBitVec = b.toBitVec ↔ a = b := UInt32.toBitVec_inj
  have hcases := toNat_sub_cases a b
  have hcases' := toNat_sub_cases b a
  unfold compareSeqNumbers serialCompare
  simp only [heq, hup, UInt32.lt_iff_toNat_lt, gt_iff_lt, seqNumberDiff, UInt32.reduceToNat]
  by_cases hab : a = b
  · rw [if_pos hab, if_pos hab]
  · have hne : a.toNat ≠ b.toNat := fun h => hab (UInt32.toNat_inj.mp h)
    rw [if_neg hab, if_neg hab]
    -- the source looks at the difference that does not wrap
    by_cases hlt : a.toNat < b.toNat
    · rw [if_pos hlt]
      rfl
    · rw [if_neg hlt]
      refine if_congr ?_ rfl rfl
      omega

theorem compareSeqNumbers_eq_zero_iff {a b : UInt32} : compareSeqNumbers a b = 0 ↔ a = b := by
  rw [compareSeqNumbers_eq_serialCompare, serialCompare_eq_zero_iff, UInt32.toBitVec_inj]

theorem compareSeqNumbers_self (a : UInt32) : compareSeqNumbers a a = 0 :=
  compareSeqNumbers_eq_zero_iff.mpr rfl

/-- `a` comes before `b` when the way from `a` up to `b` is shorter than half of
the sequence space. -/
theorem compareSeqNumbers_lt_zero_iff {a b : UInt32} :
    compareSeqNumbers a b < 0 ↔ 0 < (b - a).toNat ∧ (b - a).toNat < 2147483648 := by
  rw [compareSeqNumbers_eq_serialCompare]
  exact serialCompare_lt_zero_iff

/-- Past half of the space the comparison turns positive. -/
theorem compareSeqNumbers_pos_iff {a b : UInt32} :
    0 < compareSeqNumbers a b ↔ 2147483648 ≤ (b - a).toNat := by
  rw [compareSeqNumbers_eq_serialCompare]
  exact serialCompare_pos_iff

theorem compareSeqNumbers_le_zero_iff {a b : UInt32} :
    compareSeqNumbers a b ≤ 0 ↔ (b - a).toNat < 2147483648 := by
  rw [← not_lt, compareSeqNumbers_pos_iff, not_le]

/-- On numbers closer than half of the sequence space, without a wrap between
them, the serial comparison is the numeric one. -/
theorem compareSeqNumbers_lt_zero_iff_lt {a b : UInt32}
    (hab : a.toNat < b.toNat + 2147483648) (hba : b.toNat < a.toNat + 2147483648) :
    compareSeqNumbers a b < 0 ↔ a.toNat < b.toNat := by
  have ha := a.toNat_lt
  have hb := b.toNat_lt
  rw [compareSeqNumbers_lt_zero_iff, UInt32.toNat_sub]
  omega

theorem compareSeqNumbers_le_zero_iff_le {a b : UInt32}
    (hab : a.toNat < b.toNat + 2147483648) (hba : b.toNat < a.toNat + 2147483648) :
    compareSeqNumbers a b ≤ 0 ↔ a.toNat ≤ b.toNat := by
  rw [le_iff_lt_or_eq, compareSeqNumbers_lt_zero_iff_lt hab hba, compareSeqNumbers_eq_zero_iff,
    ← UInt32.toNat_inj]
  omega

end CLabs.Tcp
