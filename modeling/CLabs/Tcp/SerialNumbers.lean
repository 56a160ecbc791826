import CLabs.Tcp.Stream

/-!
# CLabs.Tcp.SerialNumbers

**The helpers for sequence numbers as an arithmetic.** `add_sequence_numbers`,
`subtract_sequence_numbers`, `compare_seq_numbers` and the `+=` by which `generic_process`
advances `my_seq` should all be the arithmetic of 32-bit serial numbers.

* The comparison is: it is shift-invariant, and on every half of the sequence space a linear
  order, the one of the offsets.
* The addition is not. It adds modulo `2 ^ 32 - 1`, which is associative, but from there on
  gives one more than `my_seq += _` does (`addSequenceNumbers_eq_add_iff`).
-/

namespace CLabs.Tcp

open CLabs.Lib

/-! ### Addition -/

section

variable {a n m : UInt32}

theorem addSequenceNumbers_eq_add_iff (hn : n.toNat < 2147483648) :
    addSequenceNumbers a n = a + n ↔ a.toNat + n.toNat < 4294967295 := by
  have ha := a.toNat_lt
  by_cases hlt : a.toNat + n.toNat < 4294967295
  · refine iff_of_true (UInt32.toNat_inj.mp ?_) hlt
    rw [addSequenceNumbers_of_lt hlt, UInt32.toNat_add, Nat.mod_eq_of_lt (by omega)]
  · refine iff_of_false (fun heq => ?_) hlt
    rw [addSequenceNumbers_of_le (by omega) (by omega)] at heq
    simp at heq

/-- Sums modulo `2 ^ 32 - 1` may be taken in any order. -/
theorem addSequenceNumbers_assoc (h : n.toNat + m.toNat < 4294967296) :
    addSequenceNumbers (addSequenceNumbers a n) m = addSequenceNumbers a (n + m) := by
  have hsum : (n + m).toNat = n.toNat + m.toNat := by
    rw [UInt32.toNat_add, Nat.mod_eq_of_lt h]
  apply UInt32.toNat_inj.mp
  rw [addSequenceNumbers_toNat, addSequenceNumbers_toNat, addSequenceNumbers_toNat, hsum,
    Nat.mod_add_mod, Nat.add_assoc]

theorem subtract_addSequenceNumbers_iff (hn : n.toNat < 2147483648) :
    subtractSequenceNumbers (addSequenceNumbers a n) a = n ↔
      a.toNat + n.toNat < 4294967295 := by
  rw [subtractSequenceNumbers_eq_sub, UInt32.sub_eq_iff_eq_add, UInt32.add_comm n a,
    addSequenceNumbers_eq_add_iff hn]

/-- The sum compares right unless nothing is added to the last number. -/
theorem compare_addSequenceNumbers_iff (hn : n.toNat < 2147483648) :
    ((n = 0 → compareSeqNumbers (addSequenceNumbers a n) a = 0) ∧
        (n ≠ 0 → 0 < compareSeqNumbers (addSequenceNumbers a n) a)) ↔
      (n = 0 → a ≠ 4294967295) := by
  by_cases hzero : n = 0
  · subst hzero
    have hlast : addSequenceNumbers a 0 = a ↔ a ≠ 4294967295 := by
      have hadd := addSequenceNumbers_eq_add_iff (a := a) (n := 0) (by decide)
      have hmax : (4294967295 : UInt32).toNat = 4294967295 := rfl
      have ha := a.toNat_lt
      rw [UInt32.add_zero, UInt32.toNat_zero, Nat.add_zero] at hadd
      rw [hadd, ne_eq, ← UInt32.toNat_inj, hmax]
      omega
    simp [compareSeqNumbers_eq_zero_iff, hlast]
  · -- the sum is one too large at most, and still in the half after `a`
    have hsum := addSequenceNumbers_cases a n
    have hback := toNat_sub_cases a (addSequenceNumbers a n)
    have hpos : n.toNat ≠ 0 := fun h => hzero (UInt32.toNat_inj.mp h)
    have ha := a.toNat_lt
    have hafter : 0 < compareSeqNumbers (addSequenceNumbers a n) a := by
      rw [compareSeqNumbers_pos_iff]
      omega
    exact iff_of_true ⟨fun h => absurd h hzero, fun _ => hafter⟩ fun h => absurd h hzero

end

/-! ### The advance of `my_seq` -/

@[simp] theorem takeFragment_mySeq (d : Drain) (key : UInt32) (raw : RawPDU) :
    (takeFragment d key raw).mySeq = d.mySeq + raw.payloadSize := rfl

/-- Where `my_seq` is `a`, `generic_process` advances it over fragments of the sizes `n` and `m`
to the numbers that `add_sequence_numbers` gives. -/
def AdvancesAlike (a n m : UInt32) : Prop :=
  ∀ (d : Drain) (raw raw' : RawPDU), d.mySeq = a → raw.payloadSize = n → raw'.payloadSize = m →
    (takeFragment d d.mySeq raw).mySeq = addSequenceNumbers a n ∧
      (takeFragment (takeFragment d d.mySeq raw) (takeFragment d d.mySeq raw).mySeq raw').mySeq =
        addSequenceNumbers (addSequenceNumbers a n) m

theorem advancesAlike_iff {a n m : UInt32} :
    AdvancesAlike a n m ↔
      a + n = addSequenceNumbers a n ∧
        a + n + m = addSequenceNumbers (addSequenceNumbers a n) m := by
  constructor
  · intro h
    -- there are fragments of these sizes
    have hsize : ∀ k : UInt32, (RawPDU.mk 0 (List.replicate k.toNat 0)).payloadSize = k := by
      intro k
      rw [RawPDU.payloadSize, List.length_replicate, UInt32.ofNat_toNat]
    have hboth := h ⟨a, [], ∅, none, false, []⟩ _ _ rfl (hsize n) (hsize m)
    simpa only [takeFragment_mySeq, hsize] using hboth
  · intro h d raw raw' hd hraw hraw'
    simpa only [takeFragment_mySeq, hd, hraw, hraw'] using h

/-! ### Coherence -/

/-- The arithmetic is coherent at `a` for lengths `n` and `m`: a sum is undone by the
subtraction, does not come before `a`, can be made in two steps, and is the number to which
`generic_process` advances `my_seq`. -/
structure Coherent (a n m : UInt32) : Prop where
  subtract : subtractSequenceNumbers (addSequenceNumbers a n) a = n
  compare : (n = 0 → compareSeqNumbers (addSequenceNumbers a n) a = 0) ∧
    (n ≠ 0 → 0 < compareSeqNumbers (addSequenceNumbers a n) a)
  assoc : addSequenceNumbers (addSequenceNumbers a n) m = addSequenceNumbers a (n + m)
  advance : AdvancesAlike a n m

theorem coherent_iff {a n m : UInt32} (h : n.toNat + m.toNat < 2147483648) :
    Coherent a n m ↔ a.toNat + n.toNat + m.toNat < 4294967295 := by
  have hn : n.toNat < 2147483648 := by omega
  have hsum : (n + m).toNat = n.toNat + m.toNat := by
    rw [UInt32.toNat_add, Nat.mod_eq_of_lt (by omega)]
  have hassoc : addSequenceNumbers (addSequenceNumbers a n) m = addSequenceNumbers a (n + m) :=
    addSequenceNumbers_assoc (by omega)
  have hwhole : addSequenceNumbers a (n + m) = a + (n + m) ↔
      a.toNat + n.toNat + m.toNat < 4294967295 := by
    rw [addSequenceNumbers_eq_add_iff (by omega), hsum, Nat.add_assoc]
  constructor
  · intro hcoherent
    have hadvance := (advancesAlike_iff.mp hcoherent.advance).2
    rw [← hwhole, ← hassoc, ← hadvance, UInt32.add_assoc]
  · intro hlt
    have hfirst : a.toNat + n.toNat < 4294967295 := by omega
    have hlast : n = 0 → a ≠ 4294967295 := by
      rintro - rfl
      have hmax : (4294967295 : UInt32).toNat = 4294967295 := rfl
      omega
    exact
      { subtract := (subtract_addSequenceNumbers_iff hn).mpr hfirst
        compare := (compare_addSequenceNumbers_iff hn).mpr hlast
        assoc := hassoc
        advance := by
          refine advancesAlike_iff.mpr ⟨((addSequenceNumbers_eq_add_iff hn).mpr hfirst).symm, ?_⟩
          rw [hassoc, hwhole.mpr hlt, UInt32.add_assoc] }

/-- **When the arithmetic is coherent.** Exactly as long as the sum does not reach
`2 ^ 32 - 1`. Of its parts the subtraction fails from there on, the comparison only for a
length of zero at the last number, and sums can always be made in two steps. -/
theorem sequence_arithmetic_coherent_iff (a n m : UInt32)
    (h : n.toNat + m.toNat < 2147483648) :
    (Coherent a n m ↔ a.toNat + n.toNat + m.toNat < 4294967295) ∧
    (subtractSequenceNumbers (addSequenceNumbers a n) a = n ↔
      a.toNat + n.toNat < 4294967295) ∧
    (((n = 0 → compareSeqNumbers (addSequenceNumbers a n) a = 0) ∧
        (n ≠ 0 → 0 < compareSeqNumbers (addSequenceNumbers a n) a)) ↔
      (n = 0 → a ≠ 4294967295)) ∧
    addSequenceNumbers (addSequenceNumbers a n) m = addSequenceNumbers a (n + m) :=
  ⟨coherent_iff h, subtract_addSequenceNumbers_iff (by omega),
    compare_addSequenceNumbers_iff (by omega), addSequenceNumbers_assoc (by omega)⟩

/-- Far from the end of the sequence space it is. -/
theorem sequence_arithmetic_coherent_iff_low :
    ((5 : UInt32).toNat + (7 : UInt32).toNat < 2147483648) ∧ Coherent 100 5 7 :=
  ⟨by decide, (sequence_arithmetic_coherent_iff 100 5 7 (by decide)).1.mpr (by decide)⟩

/-- Ten bytes from 4294967290 on end at 4 for `my_seq` and at 5 for `add_sequence_numbers`, from
which the subtraction makes eleven; and the last number does not compare equal to itself plus
zero. -/
theorem sequence_arithmetic_wraps_wrong :
    (4294967290 + 10 : UInt32) = 4 ∧ addSequenceNumbers 4294967290 10 = 5 ∧
      subtractSequenceNumbers (addSequenceNumbers 4294967290 10) 4294967290 = 11 ∧
      compareSeqNumbers (addSequenceNumbers 4294967295 0) 4294967295 = 1 ∧
      ¬ Coherent 4294967290 10 0 := by
  refine ⟨by decide, by decide, by decide, by decide, fun h => ?_⟩
  exact absurd h.subtract (by decide)

/-! ### Comparison -/

theorem compareSeqNumbers_add_right (a b c : UInt32) :
    compareSeqNumbers (a + c) (b + c) = compareSeqNumbers a b := by
  rw [compareSeqNumbers_eq_serialCompare, compareSeqNumbers_eq_serialCompare]
  exact serialCompare_add_right a.toBitVec b.toBitVec c.toBitVec

theorem compareSeqNumbers_eq_neg {a b : UInt32} (h : a - b ≠ 2147483648) :
    compareSeqNumbers a b = -compareSeqNumbers b a := by
  rw [compareSeqNumbers_eq_serialCompare, compareSeqNumbers_eq_serialCompare]
  exact serialCompare_eq_neg_iff.mpr fun hhalf => h (UInt32.toNat_inj.mp hhalf)

/-- The numbers `a0`, `a0 + 1`, ..., `a0 + (2 ^ 31 - 1)`, wrapping. -/
def serialWindow (a0 : UInt32) : Set UInt32 :=
  {x | ∃ k : ℕ, k ≤ 2147483647 ∧ x = a0 + UInt32.ofNat k}

theorem toBitVec_mem_halfCircle {a0 x : UInt32} (h : x ∈ serialWindow a0) :
    x.toBitVec ∈ halfCircle a0.toBitVec := by
  obtain ⟨k, hk, rfl⟩ := h
  have hoffset : a0 + UInt32.ofNat k - a0 = UInt32.ofNat k := by
    rw [UInt32.add_comm, UInt32.add_sub_cancel]
  show (a0 + UInt32.ofNat k - a0).toNat < 2147483648
  rw [hoffset, UInt32.toNat_ofNat_of_lt' (by unfold UInt32.size; omega)]
  omega

section

variable {a0 : UInt32} {S : Set UInt32}

theorem compareSeqNumbers_le_zero_iff_offset_le (hS : S ⊆ serialWindow a0) {x y : UInt32}
    (hx : x ∈ S) (hy : y ∈ S) : compareSeqNumbers x y ≤ 0 ↔ x - a0 ≤ y - a0 := by
  rw [compareSeqNumbers_eq_serialCompare, UInt32.le_iff_toNat_le]
  exact serialCompare_le_zero_iff_of_mem (toBitVec_mem_halfCircle (hS hx))
    (toBitVec_mem_halfCircle (hS hy))

theorem compareSeqNumbers_isLinearOrder (hS : S ⊆ serialWindow a0) :
    IsLinearOrder S fun x y => compareSeqNumbers x.val y.val ≤ 0 := by
  let toSerial : (fun x y : S => compareSeqNumbers x.val y.val ≤ 0) ↪r
      (fun x y : halfCircle a0.toBitVec => serialCompare x.val y.val ≤ 0) :=
    { toFun := fun x => ⟨x.val.toBitVec, toBitVec_mem_halfCircle (hS x.2)⟩
      inj' := fun x y h => Subtype.ext (UInt32.toBitVec_inj.mp (congrArg Subtype.val h))
      map_rel_iff' := fun {x y} => by
        rw [compareSeqNumbers_eq_serialCompare]
        exact Iff.rfl }
  have horder : IsLinearOrder (halfCircle a0.toBitVec) fun x y => serialCompare x.val y.val ≤ 0 :=
    serialCompare_isLinearOrder subset_rfl
  exact toSerial.isLinearOrder

end

/-- **The comparison is a shift-invariant serial order.** It changes its sign when the numbers
change places, unless they are half of the sequence space apart; it does not change when both
are moved; and on the numbers of a window it is a linear order, the one of the offsets. -/
theorem compareSeqNumbers_serialOrder :
    (∀ a b c : UInt32, a - b ≠ 2147483648 →
      compareSeqNumbers a b = -compareSeqNumbers b a ∧
        compareSeqNumbers (a + c) (b + c) = compareSeqNumbers a b) ∧
    ∀ (a0 : UInt32) (S : Set UInt32), S ⊆ serialWindow a0 →
      IsLinearOrder S (fun x y => compareSeqNumbers x.val y.val ≤ 0) ∧
        ∀ x ∈ S, ∀ y ∈ S, (compareSeqNumbers x y ≤ 0 ↔ x - a0 ≤ y - a0) := by
  refine ⟨fun a b c h => ?_, fun a0 S hS => ?_⟩
  · exact ⟨compareSeqNumbers_eq_neg h, compareSeqNumbers_add_right a b c⟩
  · refine ⟨compareSeqNumbers_isLinearOrder hS, fun x hx y hy => ?_⟩
    exact compareSeqNumbers_le_zero_iff_offset_le hS hx hy

/-- A window over the end of the sequence space. -/
theorem compareSeqNumbers_serialOrder_wrapping :
    (4294967294 - 3 : UInt32) ≠ 2147483648 ∧
      compareSeqNumbers 4294967294 3 = -compareSeqNumbers 3 4294967294 ∧
      (serialWindow 4294967294 ⊆ serialWindow 4294967294) ∧
      IsLinearOrder (serialWindow 4294967294) (fun x y => compareSeqNumbers x.val y.val ≤ 0) :=
  ⟨by decide, (compareSeqNumbers_serialOrder.1 4294967294 3 0 (by decide)).1, subset_rfl,
    (compareSeqNumbers_serialOrder.2 4294967294 _ subset_rfl).1⟩

-- round the whole circle the comparison is not transitive
example : compareSeqNumbers 0 2000000000 < 0 ∧ compareSeqNumbers 2000000000 4000000000 < 0 ∧
    0 < compareSeqNumbers 0 4000000000 := by
  decide

end CLabs.Tcp
