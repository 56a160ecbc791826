import Mathlib.Tactic

/-!
# CLabs.Lib.XorShift

**Words mixed with a shifted copy of themselves.** `x ^ (x >> k)` and `x ^ ((x << k) & m)` lose
nothing, for every distance `k > 0` and every mask `m`: the bits at the end away from which the
copy is shifted are plain, and each further bit is known once the bits `k` places before it are.
-/

namespace CLabs.Lib

variable {w k : ℕ}

theorem xor_ushiftRight_injective (hk : 0 < k) :
    Function.Injective fun x : BitVec w => x ^^^ (x >>> k) := by
  intro x y hxy
  have hbit : ∀ p, (x.getLsbD p ^^ x.getLsbD (k + p)) = (y.getLsbD p ^^ y.getLsbD (k + p)) := by
    intro p
    have hp := congrArg (BitVec.getLsbD · p) hxy
    simpa only [BitVec.getLsbD_xor, BitVec.getLsbD_ushiftRight] using hp
  -- from the top bit downwards: the measure is the distance to the end of the word
  have hall : ∀ d p, w - p ≤ d → x.getLsbD p = y.getLsbD p := by
    intro d
    induction d with
    | zero =>
        intro p hp
        rw [BitVec.getLsbD_of_ge x p (by omega), BitVec.getLsbD_of_ge y p (by omega)]
    | succ d ih =>
        intro p hp
        have hmixed := hbit p
        by_cases hin : p < w
        · rw [ih (k + p) (by omega)] at hmixed
          exact Bool.xor_left_inj.mp hmixed
        · exact ih p (by omega)
  exact BitVec.eq_of_getLsbD_eq fun p _ => hall (w - p) p le_rfl

theorem xor_shiftLeft_and_injective (hk : 0 < k) (m : BitVec w) :
    Function.Injective fun x : BitVec w => x ^^^ ((x <<< k) &&& m) := by
  intro x y hxy
  have hbit : ∀ p, (x.getLsbD p ^^ ((x <<< k).getLsbD p && m.getLsbD p)) =
      (y.getLsbD p ^^ ((y <<< k).getLsbD p && m.getLsbD p)) := by
    intro p
    have hp := congrArg (BitVec.getLsbD · p) hxy
    simpa only [BitVec.getLsbD_xor, BitVec.getLsbD_and] using hp
  have hall : ∀ p, x.getLsbD p = y.getLsbD p := by
    intro p
    induction p using Nat.strong_induction_on with
    | _ p ih =>
        have hcopy : (x <<< k).getLsbD p = (y <<< k).getLsbD p := by
          rw [BitVec.getLsbD_shiftLeft, BitVec.getLsbD_shiftLeft]
          by_cases hp : p < k
          · simp [hp]
          · rw [ih (p - k) (by omega)]
        have hmixed := hbit p
        rw [hcopy] at hmixed
        exact Bool.xor_left_inj.mp hmixed
  exact BitVec.eq_of_getLsbD_eq fun p _ => hall p

end CLabs.Lib
