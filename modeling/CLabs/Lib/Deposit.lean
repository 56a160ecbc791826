import Mathlib.Tactic
import Mathlib.Data.BitVec
import Mathlib.Data.Nat.Bitwise

/-!
# CLabs.Lib.Deposit

**Numbers laid out under a mask.** A mask is a list of positions, lowest first, that are selected
or not; `deposit` puts the bits of a number into the selected positions, in order, and leaves the
others empty. A number so laid out can be counted up and down without taking it out: fill the gaps
with ones, add one, and mask (`deposit_succ`); or subtract one and mask (`deposit_pred`). What is
above the mask does not matter, and the result wraps around.
-/

namespace CLabs.Lib

/-- The bits of a number in the selected positions. -/
def deposit : List Bool → ℕ → ℕ
  | [], _ => 0
  | true :: m, a => 2 * deposit m (a / 2) + (a.testBit 0).toNat
  | false :: m, a => 2 * deposit m a

/-- Ones in the selected positions. -/
def ones : List Bool → ℕ
  | [] => 0
  | b :: m => 2 * ones m + b.toNat

/-- Ones in the others. -/
def gaps (m : List Bool) : ℕ := ones (m.map not)

/-- How many positions are selected. -/
def selected (m : List Bool) : ℕ := m.count true

@[simp] theorem selected_nil : selected [] = 0 := rfl

@[simp] theorem selected_true (m : List Bool) : selected (true :: m) = selected m + 1 := by
  simp [selected]

@[simp] theorem selected_false (m : List Bool) : selected (false :: m) = selected m := by
  simp [selected]

@[simp] theorem gaps_true (m : List Bool) : gaps (true :: m) = 2 * gaps m := rfl

@[simp] theorem gaps_false (m : List Bool) : gaps (false :: m) = 2 * gaps m + 1 := rfl

theorem land_two_mul_add (x y : ℕ) (b c : Bool) :
    (2 * x + b.toNat) &&& (2 * y + c.toNat) = 2 * (x &&& y) + (b && c).toNat := by
  simp only [← Nat.bit_val, Nat.land_bit]

section

variable (m : List Bool) (a h : ℕ)

/-- Only so many bits are used. -/
theorem deposit_add_two_pow : deposit m (a + 2 ^ selected m) = deposit m a := by
  induction m generalizing a with
  | nil => rfl
  | cons b m ih =>
      cases b with
      | true =>
          have hhalf : (a + 2 ^ selected (true :: m)) / 2 = a / 2 + 2 ^ selected m := by
            rw [selected_true, Nat.pow_succ]
            omega
          have hlow : (a + 2 ^ selected (true :: m)).testBit 0 = a.testBit 0 := by
            rw [selected_true, Nat.pow_succ, Nat.testBit_zero, Nat.testBit_zero,
              Nat.add_mul_mod_self_right]
          rw [deposit, deposit, hhalf, hlow, ih]
      | false => rw [deposit, deposit, selected_false, ih]

/-- The mask selects the number again, whether the gaps are filled or not. -/
theorem deposit_land_ones (fill : Bool) :
    (deposit m a + 2 ^ m.length * h + fill.toNat * gaps m) &&& ones m = deposit m a := by
  induction m generalizing a with
  | nil => simp [deposit, ones]
  | cons b m ih =>
      rw [List.length_cons, Nat.pow_succ, ones]
      cases b with
      | true =>
          have hsum : deposit (true :: m) a + 2 ^ m.length * 2 * h + fill.toNat * gaps (true :: m) =
              2 * (deposit m (a / 2) + 2 ^ m.length * h + fill.toNat * gaps m) +
                (a.testBit 0).toNat := by
            rw [deposit, gaps_true]
            ring
          rw [hsum, land_two_mul_add, ih, Bool.and_true, deposit]
      | false =>
          have hsum : deposit (false :: m) a + 2 ^ m.length * 2 * h +
              fill.toNat * gaps (false :: m) =
                2 * (deposit m a + 2 ^ m.length * h + fill.toNat * gaps m) + fill.toNat := by
            rw [deposit, gaps_false]
            ring
          rw [hsum, land_two_mul_add, ih, Bool.and_false, deposit, Bool.toNat_false, Nat.add_zero]

theorem deposit_true_even : deposit (true :: m) (2 * a) = 2 * deposit m a := by
  simp [deposit]

theorem deposit_true_odd : deposit (true :: m) (2 * a + 1) = 2 * deposit m a + true.toNat := by
  rw [deposit, Nat.testBit_zero, show (2 * a + 1) / 2 = a by omega,
    show (2 * a + 1) % 2 = 1 by omega]
  rfl

/-- **Counting up.** The carry runs through the gaps. -/
theorem deposit_succ :
    (deposit m a + 2 ^ m.length * h + gaps m + 1) &&& ones m = deposit m (a + 1) := by
  induction m generalizing a with
  | nil => simp [deposit, ones]
  | cons b m ih =>
      rw [List.length_cons, Nat.pow_succ, ones]
      cases b with
      | false =>
          have hsum : deposit (false :: m) a + 2 ^ m.length * 2 * h + gaps (false :: m) + 1 =
              2 * (deposit m a + 2 ^ m.length * h + gaps m + 1) + false.toNat := by
            rw [deposit, gaps_false, Bool.toNat_false]
            ring
          rw [hsum, land_two_mul_add, ih, deposit]
          rfl
      | true =>
          obtain ⟨a, rfl | rfl⟩ := Nat.even_or_odd' a
          · -- no carry: the rest stays as it is
            have hsum : deposit (true :: m) (2 * a) + 2 ^ m.length * 2 * h + gaps (true :: m) + 1 =
                2 * (deposit m a + 2 ^ m.length * h + gaps m) + true.toNat := by
              rw [deposit_true_even, gaps_true, Bool.toNat_true]
              ring
            have hrest := deposit_land_ones m a h true
            rw [Bool.toNat_true, Nat.one_mul] at hrest
            rw [hsum, land_two_mul_add, hrest, deposit_true_odd, Bool.and_self]
          · have hsum : deposit (true :: m) (2 * a + 1) + 2 ^ m.length * 2 * h + gaps (true :: m) +
                1 = 2 * (deposit m a + 2 ^ m.length * h + gaps m + 1) + false.toNat := by
              rw [deposit_true_odd, gaps_true, Bool.toNat_true, Bool.toNat_false]
              ring
            rw [hsum, land_two_mul_add, ih, show 2 * a + 1 + 1 = 2 * (a + 1) by ring,
              deposit_true_even]
            rfl

/-- **Counting down.** -/
theorem deposit_pred (hpos : 0 < h) :
    (deposit m a + 2 ^ m.length * h - 1) &&& ones m = deposit m (a + 2 ^ selected m - 1) := by
  have hlen : 0 < 2 ^ m.length * h := Nat.mul_pos (Nat.two_pow_pos _) hpos
  induction m generalizing a with
  | nil => simp [deposit, ones]
  | cons b m ih =>
      have hlen' : 0 < 2 ^ m.length * h := Nat.mul_pos (Nat.two_pow_pos _) hpos
      have hsel : 0 < 2 ^ selected m := Nat.two_pow_pos _
      rw [List.length_cons, Nat.pow_succ, Nat.mul_right_comm, ones]
      cases b with
      | false =>
          have hsum : deposit (false :: m) a + 2 ^ m.length * h * 2 - 1 =
              2 * (deposit m a + 2 ^ m.length * h - 1) + true.toNat := by
            rw [deposit, Bool.toNat_true]
            omega
          rw [hsum, land_two_mul_add, ih _ hlen', selected_false, deposit]
          rfl
      | true =>
          rw [selected_true, Nat.pow_succ]
          obtain ⟨a, rfl | rfl⟩ := Nat.even_or_odd' a
          · have hsum : deposit (true :: m) (2 * a) + 2 ^ m.length * h * 2 - 1 =
                2 * (deposit m a + 2 ^ m.length * h - 1) + true.toNat := by
              rw [deposit_true_even, Bool.toNat_true]
              omega
            have harg : 2 * a + 2 ^ selected m * 2 - 1 = 2 * (a + 2 ^ selected m - 1) + 1 := by
              omega
            rw [hsum, land_two_mul_add, ih _ hlen', harg, deposit_true_odd, Bool.and_self]
          · -- no borrow
            have hsum : deposit (true :: m) (2 * a + 1) + 2 ^ m.length * h * 2 - 1 =
                2 * (deposit m a + 2 ^ m.length * h) + false.toNat := by
              rw [deposit_true_odd, Bool.toNat_true, Bool.toNat_false]
              omega
            have harg : 2 * a + 1 + 2 ^ selected m * 2 - 1 = 2 * (a + 2 ^ selected m) := by
              omega
            have hrest := deposit_land_ones m a h false
            rw [Bool.toNat_false, Nat.zero_mul, Nat.add_zero] at hrest
            rw [hsum, land_two_mul_add, hrest, harg, deposit_true_even, deposit_add_two_pow]
            rfl

theorem deposit_append (m' : List Bool) :
    deposit (m ++ m') a = deposit m a + 2 ^ m.length * deposit m' (a / 2 ^ selected m) := by
  induction m generalizing a with
  | nil => simp [deposit]
  | cons b m ih =>
      rw [List.cons_append, List.length_cons, Nat.pow_succ]
      cases b with
      | true =>
          rw [deposit, deposit, ih, selected_true, Nat.pow_succ', Nat.div_div_eq_div_mul]
          ring
      | false =>
          rw [deposit, deposit, ih, selected_false]
          ring

end

/-- Filling the gaps. -/
theorem deposit_lor_gaps (m : List Bool) (a h : ℕ) :
    (deposit m a + 2 ^ m.length * h) ||| gaps m = deposit m a + 2 ^ m.length * h + gaps m := by
  induction m generalizing a with
  | nil => simp [deposit, gaps, ones]
  | cons b m ih =>
      rw [List.length_cons, Nat.pow_succ]
      cases b with
      | true =>
          have hsum : deposit (true :: m) a + 2 ^ m.length * 2 * h =
              Nat.bit (a.testBit 0) (deposit m (a / 2) + 2 ^ m.length * h) := by
            rw [deposit, Nat.bit_val]
            ring
          have hgaps : gaps (true :: m) = Nat.bit false (gaps m) := by
            simp [Nat.bit_val]
          rw [hsum, hgaps, Nat.lor_bit, ih, Bool.or_false, Nat.bit_val, Nat.bit_val, Nat.bit_val]
          simp only [Bool.toNat_false]
          ring
      | false =>
          have hsum : deposit (false :: m) a + 2 ^ m.length * 2 * h =
              Nat.bit false (deposit m a + 2 ^ m.length * h) := by
            rw [deposit, Nat.bit_val, Bool.toNat_false]
            ring
          have hgaps : gaps (false :: m) = Nat.bit true (gaps m) := by
            simp [Nat.bit_val]
          rw [hsum, hgaps, Nat.lor_bit, ih, Bool.false_or, Nat.bit_val, Nat.bit_val, Nat.bit_val]
          simp only [Bool.toNat_false]
          ring

/-! ### In a machine word -/

theorem mod_land {w a b : ℕ} (hb : b < 2 ^ w) : a % 2 ^ w &&& b = a &&& b := by
  rw [← Nat.and_two_pow_sub_one_eq_mod, Nat.land_assoc, Nat.land_comm _ b,
    Nat.and_two_pow_sub_one_eq_mod, Nat.mod_eq_of_lt hb]

section

variable {w a : ℕ} {m m' : List Bool} {x zz mask : BitVec w}
  (hx : x.toNat = deposit (m ++ m') a) (hzz : zz.toNat = gaps m) (hmask : mask.toNat = ones m)

include hx hzz hmask

/-- Counting up in a word. -/
theorem toNat_countUp (hw : 0 < w) : ((x + (zz + 1)) &&& mask).toNat = deposit m (a + 1) := by
  have hone : (1 : BitVec w).toNat = 1 := BitVec.toNat_one hw
  rw [BitVec.toNat_and, BitVec.toNat_add, BitVec.toNat_add, Nat.add_mod_mod, mod_land mask.isLt,
    hx, hzz, hmask, hone, deposit_append, ← Nat.add_assoc]
  exact deposit_succ m a _

/-- Counting down in a word, with the gaps filled before. -/
theorem toNat_countDown (hw : 0 < w) (hm : m.length ≤ w) :
    (((x ||| zz) - (zz + 1)) &&& mask).toNat = deposit m (a + 2 ^ selected m - 1) := by
  have hfill : x ||| zz = x + zz := by
    have hlor : (x ||| zz).toNat = x.toNat + zz.toNat := by
      rw [BitVec.toNat_or, hx, hzz, deposit_append, deposit_lor_gaps]
    refine BitVec.eq_of_toNat_eq ?_
    rw [BitVec.toNat_add, ← hlor, Nat.mod_eq_of_lt (x ||| zz).isLt]
  have hsub : x + zz - (zz + 1) = x - 1 := by ring
  have hone : (1 : BitVec w).toNat = 1 := BitVec.toNat_one hw
  -- what is above the mask lends the borrow
  have hborrow : 2 ^ w - 1 + x.toNat =
      deposit m a + 2 ^ m.length * (deposit m' (a / 2 ^ selected m) + 2 ^ (w - m.length)) - 1 := by
    have hpow : 2 ^ w = 2 ^ m.length * 2 ^ (w - m.length) := by
      rw [← Nat.pow_add, Nat.add_sub_cancel' hm]
    have hpos : 0 < 2 ^ w := Nat.two_pow_pos w
    rw [hx, deposit_append, Nat.mul_add, ← hpow]
    omega
  rw [hfill, hsub, BitVec.toNat_and, BitVec.toNat_sub, mod_land mask.isLt, hmask, hone, hborrow]
  exact deposit_pred m a _ (Nat.add_pos_right _ (Nat.two_pow_pos _))

end

/-! ### Every second position -/

/-- The even positions of `n` pairs. -/
def evens (n : ℕ) : List Bool := (List.replicate n [true, false]).flatten

/-- The odd positions of `n` pairs. -/
def odds (n : ℕ) : List Bool := (List.replicate n [false, true]).flatten

theorem evens_succ (n : ℕ) : evens (n + 1) = true :: false :: evens n := by
  simp [evens, List.replicate_succ]

theorem odds_succ (n : ℕ) : odds (n + 1) = false :: true :: odds n := by
  simp [odds, List.replicate_succ]

theorem evens_add (n k : ℕ) : evens (n + k) = evens n ++ evens k := by
  rw [evens, List.replicate_add, List.flatten_append, evens, evens]

theorem odds_add (n k : ℕ) : odds (n + k) = odds n ++ odds k := by
  rw [odds, List.replicate_add, List.flatten_append, odds, odds]

@[simp] theorem length_evens (n : ℕ) : (evens n).length = 2 * n := by
  simp [evens, Nat.mul_comm]

@[simp] theorem length_odds (n : ℕ) : (odds n).length = 2 * n := by
  simp [odds, Nat.mul_comm]

@[simp] theorem selected_evens (n : ℕ) : selected (evens n) = n := by
  induction n with
  | zero => rfl
  | succ n ih => rw [evens_succ, selected_true, selected_false, ih]

@[simp] theorem selected_odds (n : ℕ) : selected (odds n) = n := by
  induction n with
  | zero => rfl
  | succ n ih => rw [odds_succ, selected_false, selected_true, ih]

theorem deposit_evens_succ (n a : ℕ) :
    deposit (evens (n + 1)) a =
      Nat.bit (a.testBit 0) (Nat.bit false (deposit (evens n) (a / 2))) := by
  simp [evens_succ, deposit, Nat.bit_val]

theorem deposit_odds_succ (n a : ℕ) :
    deposit (odds (n + 1)) a =
      Nat.bit false (Nat.bit (a.testBit 0) (deposit (odds n) (a / 2))) := by
  simp [odds_succ, deposit, Nat.bit_val]

/-- Where the bits are. -/
theorem testBit_deposit_evens (n a j : ℕ) :
    (deposit (evens n) a).testBit (2 * j) = (decide (j < n) && a.testBit j) ∧
      (deposit (evens n) a).testBit (2 * j + 1) = false := by
  induction n generalizing a j with
  | zero => simp [evens, deposit]
  | succ n ih =>
      rw [deposit_evens_succ]
      cases j with
      | zero => simp [Nat.testBit_bit_succ]
      | succ j =>
          obtain ⟨heven, hodd⟩ := ih (a / 2) j
          rw [show 2 * (j + 1) = 2 * j + 1 + 1 by ring, Nat.testBit_bit_succ, Nat.testBit_bit_succ,
            Nat.testBit_bit_succ, Nat.testBit_bit_succ, heven, hodd, ← Nat.testBit_succ]
          simp

theorem testBit_deposit_odds (n a j : ℕ) :
    (deposit (odds n) a).testBit (2 * j) = false ∧
      (deposit (odds n) a).testBit (2 * j + 1) = (decide (j < n) && a.testBit j) := by
  induction n generalizing a j with
  | zero => simp [odds, deposit]
  | succ n ih =>
      rw [deposit_odds_succ]
      cases j with
      | zero =>
          rw [Nat.mul_zero, Nat.testBit_bit_succ, Nat.testBit_bit_zero, Nat.testBit_bit_zero]
          simp
      | succ j =>
          obtain ⟨heven, hodd⟩ := ih (a / 2) j
          rw [show 2 * (j + 1) = 2 * j + 1 + 1 by ring, Nat.testBit_bit_succ, Nat.testBit_bit_succ,
            Nat.testBit_bit_succ, Nat.testBit_bit_succ, heven, hodd, ← Nat.testBit_succ]
          simp

end CLabs.Lib
