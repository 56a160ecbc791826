import Mathlib.Tactic

/-!
# CLabs.Lib.Ring

**A ring buffer as a window on a sequence.** A vector of `N` places with an index holds, from
the index on and around the end, `N` successive elements of an infinite sequence. Overwriting the
oldest element by the one after the newest and moving the index on moves the window by one.
-/

namespace CLabs.Lib

variable {α : Type*} {N : ℕ} {v : Vector α N} {i : Fin N} {w : ℕ → α} {n : ℕ}

theorem get_set (v : Vector α N) (i j : Fin N) (x : α) :
    (v.set i x).get j = if i = j then x else v.get j := by
  rw [show (v.set i x).get j = (v.set i x)[j.val] from rfl, Vector.getElem_set]
  simp only [Fin.ext_iff]
  rfl

/-- The place `k` places after the place `i`, around the end. -/
def ringIndex (i : Fin N) (k : ℕ) : Fin N := ⟨(i + k) % N, Nat.mod_lt _ i.pos⟩

@[simp] theorem ringIndex_zero (i : Fin N) : ringIndex i 0 = i :=
  Fin.ext (Nat.mod_eq_of_lt i.isLt)

theorem ringIndex_ringIndex (i : Fin N) (k l : ℕ) :
    ringIndex (ringIndex i k) l = ringIndex i (k + l) :=
  Fin.ext (by simp only [ringIndex, Nat.mod_add_mod, Nat.add_assoc])

/-- Once around. -/
@[simp] theorem ringIndex_self (i : Fin N) : ringIndex i N = i :=
  Fin.ext (by simp only [ringIndex, Nat.add_mod_right, Nat.mod_eq_of_lt i.isLt])

theorem ringIndex_ne {k : ℕ} (hpos : 0 < k) (hk : k < N) : ringIndex i k ≠ i := by
  intro h
  have hval : (i + k) % N = i := congrArg Fin.val h
  have hi := i.isLt
  by_cases hwrap : i + k < N
  · rw [Nat.mod_eq_of_lt hwrap] at hval
    omega
  · rw [Nat.mod_eq_sub_mod (by omega), Nat.mod_eq_of_lt (by omega)] at hval
    omega

/-- From the index `i` on, the places hold `w n`, `w (n + 1)`, … -/
def Window (v : Vector α N) (i : Fin N) (w : ℕ → α) (n : ℕ) : Prop :=
  ∀ k < N, v.get (ringIndex i k) = w (n + k)

theorem Window.get_index (h : Window v i w n) : v.get i = w n := by
  simpa using h 0 i.pos

/-- The window moves on. -/
theorem Window.push (h : Window v i w n) :
    Window (v.set i (w (n + N))) (ringIndex i 1) w (n + 1) := by
  intro k hk
  have hsucc : n + 1 + k = n + (k + 1) := by omega
  rw [ringIndex_ringIndex, Nat.add_comm 1 k, hsucc, get_set]
  by_cases hlast : k + 1 = N
  · -- the new element is the last of the window
    rw [hlast, ringIndex_self, if_pos rfl]
  · have hne := ringIndex_ne (i := i) (Nat.succ_pos k) (by omega)
    rw [if_neg hne.symm, h (k + 1) (by omega)]

/-- What the buffer holds, as the beginning of a sequence. -/
def window (v : Vector α N) (i : Fin N) (k : ℕ) : α := v.get (ringIndex i k)

end CLabs.Lib
