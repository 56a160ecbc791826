import Mathlib.Tactic

/-!
# CLabs.Lib.Greedy

**Greedy change.** An amount is paid out in a list of denominations, each as often as it
goes into what is left by the ones before it.

Where the denominations are all the multiples of a unit up to some number of it, one coin at
most is paid out, for all the units there are (`greedy_multiples`): the digit of the amount.
-/

namespace CLabs.Lib

/-- The coins paid out. -/
def greedy : List Nat → Nat → List Nat
  | [], _ => []
  | d :: ds, v => List.replicate (v / d) d ++ greedy ds (v % d)

/-- `k * b`, ..., `2 * b`, `b`. -/
def multiples (b : Nat) : Nat → List Nat
  | 0 => []
  | k + 1 => (k + 1) * b :: multiples b k

/-- The coins for `k` units of `b`. -/
def coin (b k : Nat) : List Nat := if k = 0 then [] else [k * b]

@[simp] theorem coin_zero (b : Nat) : coin b 0 = [] := rfl

@[simp] theorem coin_succ (b k : Nat) : coin b (k + 1) = [(k + 1) * b] := rfl

theorem greedy_multiples {b k v : Nat} (hb : 0 < b) (hv : v < (k + 1) * b) (ds : List Nat) :
    greedy (multiples b k ++ ds) v = coin b (v / b) ++ greedy ds (v % b) := by
  induction k generalizing v with
  | zero =>
      have hlt : v < b := by omega
      rw [Nat.div_eq_of_lt hlt, Nat.mod_eq_of_lt hlt]
      rfl
  | succ k ih =>
      have hsplit : (k + 1 + 1) * b = (k + 1) * b + b := Nat.succ_mul (k + 1) b
      have hone : b ≤ (k + 1) * b := Nat.le_mul_of_pos_left b (Nat.succ_pos k)
      rw [multiples, List.cons_append, greedy]
      by_cases hge : (k + 1) * b ≤ v
      · -- the coin fits once, and less than a unit is left
        have hrest : v = (v - (k + 1) * b) + b * (k + 1) := by
          rw [Nat.mul_comm b]
          omega
        have hlt : v - (k + 1) * b < b := by omega
        have hunits : v / b = k + 1 := by
          rw [hrest, Nat.add_mul_div_left _ _ hb, Nat.div_eq_of_lt hlt, Nat.zero_add]
        have hmod : v % b = v - (k + 1) * b := by
          nth_rewrite 1 [hrest]
          rw [Nat.add_mul_mod_self_left, Nat.mod_eq_of_lt hlt]
        have htimes : v / ((k + 1) * b) = 1 := Nat.div_eq_of_lt_le (by omega) (by omega)
        have hleft : v % ((k + 1) * b) = v - (k + 1) * b := by
          rw [Nat.mod_eq_sub_mod hge, Nat.mod_eq_of_lt (by omega)]
        rw [htimes, hleft, ih (by omega), Nat.div_eq_of_lt hlt, Nat.mod_eq_of_lt hlt, hunits, hmod]
        simp
      · rw [Nat.div_eq_of_lt (by omega), Nat.mod_eq_of_lt (by omega), ih (by omega)]
        rfl

end CLabs.Lib
