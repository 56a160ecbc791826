import Mathlib.Tactic
import Mathlib.Algebra.Order.Floor.Semiring

/-!
# CLabs.Lib.Grid

**Grids of `2 ^ n` equal cells over an interval.** `point` goes from a number of cells, not
necessarily a whole one, to the point that many cells above the lower end; `offset` goes back.
The cell of a point is the whole part of its offset, and the middle of that cell is at most
half a cell away from the point (`abs_point_floor_sub_le`).
-/

namespace CLabs.Lib

/-- An interval, given by its ends. -/
structure Span (K : Type*) where
  min : K
  max : K
  deriving Repr, DecidableEq

namespace Span

variable {K : Type*} [Field K]

/-- The point `t` cells above the lower end, in the grid of `2 ^ n` cells. -/
def point (r : Span K) (n : ℕ) (t : K) : K := r.min + t / 2 ^ n * (r.max - r.min)

/-- How many cells of the grid of `2 ^ n` cells there are below a point. -/
def offset (r : Span K) (x : K) (n : ℕ) : K := (x - r.min) / (r.max - r.min) * 2 ^ n

/-- The upper half of the interval, or the lower. -/
def bisect (r : Span K) (upper : Bool) : Span K :=
  if upper then { r with min := (r.min + r.max) / 2 } else { r with max := (r.min + r.max) / 2 }

variable [LinearOrder K] [IsStrictOrderedRing K] {r : Span K} (hr : r.min < r.max)

include hr

theorem offset_point (m n : ℕ) (t : K) : r.offset (r.point m t) n = t / 2 ^ m * 2 ^ n := by
  have hscale : r.max - r.min ≠ 0 := (sub_pos.mpr hr).ne'
  rw [offset, point, add_sub_cancel_left, mul_div_cancel_right₀ _ hscale]

theorem point_offset (x : K) (n : ℕ) : r.point n (r.offset x n) = x := by
  have hscale : r.max - r.min ≠ 0 := (sub_pos.mpr hr).ne'
  have htwo : (2 : K) ^ n ≠ 0 := pow_ne_zero _ two_ne_zero
  rw [point, offset, mul_div_cancel_right₀ _ htwo, div_mul_cancel₀ _ hscale, add_sub_cancel]

theorem offset_nonneg {x : K} (h : r.min ≤ x) (n : ℕ) : 0 ≤ r.offset x n :=
  mul_nonneg (div_nonneg (sub_nonneg.mpr h) (sub_pos.mpr hr).le) (by positivity)

theorem offset_lt {x : K} (h : x < r.max) (n : ℕ) : r.offset x n < 2 ^ n := by
  have hscale : 0 < r.max - r.min := sub_pos.mpr hr
  have hlt : (x - r.min) / (r.max - r.min) < 1 :=
    (div_lt_one hscale).mpr (sub_lt_sub_right h r.min)
  calc r.offset x n < 1 * 2 ^ n := mul_lt_mul_of_pos_right hlt (by positivity)
    _ = 2 ^ n := one_mul _

theorem offset_max (n : ℕ) : r.offset r.max n = 2 ^ n := by
  rw [offset, div_self (sub_pos.mpr hr).ne', one_mul]

theorem point_mono {n : ℕ} {t t' : K} (h : t ≤ t') : r.point n t ≤ r.point n t' := by
  have hscale : 0 ≤ r.max - r.min := (sub_pos.mpr hr).le
  unfold point
  gcongr

theorem point_le_iff {n : ℕ} {t x : K} : r.point n t ≤ x ↔ t ≤ r.offset x n := by
  have hscale : 0 < r.max - r.min := sub_pos.mpr hr
  constructor
  · intro h
    have hoffset : r.offset (r.point n t) n ≤ r.offset x n := by
      unfold offset
      gcongr
    rwa [offset_point hr, div_mul_cancel₀ _ (pow_ne_zero _ two_ne_zero)] at hoffset
  · intro h
    calc r.point n t ≤ r.point n (r.offset x n) := point_mono hr h
      _ = x := point_offset hr x n

theorem min_le_point {n : ℕ} {t : K} (h : 0 ≤ t) : r.min ≤ r.point n t := by
  have hmin : r.point n 0 = r.min := by simp [point]
  rw [← hmin]
  exact point_mono hr h

theorem point_le_max {n : ℕ} {t : K} (h : t ≤ 2 ^ n) : r.point n t ≤ r.max := by
  have hmax : r.point n (2 ^ n) = r.max := by
    rw [point, div_self (pow_ne_zero _ two_ne_zero), one_mul, add_sub_cancel]
  rw [← hmax]
  exact point_mono hr h

theorem abs_point_sub (n : ℕ) (t t' : K) :
    |r.point n t - r.point n t'| = |t - t'| * ((r.max - r.min) / 2 ^ n) := by
  have hcell : 0 ≤ (r.max - r.min) / 2 ^ n := div_nonneg (sub_pos.mpr hr).le (by positivity)
  have hsub : r.point n t - r.point n t' = (t - t') * ((r.max - r.min) / 2 ^ n) := by
    unfold point
    ring
  rw [hsub, abs_mul, abs_of_nonneg hcell]

variable [FloorSemiring K]

/-- Which cell a point is in, by the lower ends of the cells. -/
theorem le_floor_offset_iff {x : K} (h : r.min ≤ x) {n k : ℕ} :
    k ≤ ⌊r.offset x n⌋₊ ↔ r.point n k ≤ x := by
  rw [point_le_iff hr, Nat.le_floor_iff (offset_nonneg hr h n)]

/-- A point is at most half a cell from the middle of its cell. -/
theorem abs_point_floor_sub_le {x : K} (h : r.min ≤ x) (n : ℕ) :
    |r.point n (⌊r.offset x n⌋₊ + 1 / 2) - x| ≤ (r.max - r.min) / 2 / 2 ^ n := by
  have hle := Nat.floor_le (offset_nonneg hr h n)
  have hlt := Nat.lt_floor_add_one (r.offset x n)
  have hhalf : |(⌊r.offset x n⌋₊ : K) + 1 / 2 - r.offset x n| ≤ 1 / 2 := by
    rw [abs_le]
    constructor <;> linarith
  have hcell : 0 ≤ (r.max - r.min) / 2 ^ n := div_nonneg (sub_pos.mpr hr).le (by positivity)
  calc |r.point n (⌊r.offset x n⌋₊ + 1 / 2) - x|
      = |r.point n (⌊r.offset x n⌋₊ + 1 / 2) - r.point n (r.offset x n)| := by
        rw [point_offset hr]
    _ = |(⌊r.offset x n⌋₊ : K) + 1 / 2 - r.offset x n| * ((r.max - r.min) / 2 ^ n) :=
        abs_point_sub hr n _ _
    _ ≤ 1 / 2 * ((r.max - r.min) / 2 ^ n) := mul_le_mul_of_nonneg_right hhalf hcell
    _ = (r.max - r.min) / 2 / 2 ^ n := by ring

end Span

end CLabs.Lib
