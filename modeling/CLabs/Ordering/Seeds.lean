import CLabs.Lib.Lanes
import CLabs.Ordering.MersenneTwister

/-!
# CLabs.Ordering.Seeds

The delays of `ordering.cpp` come to an end: the generators are seeded with 1 and with 2, and after
the calls of their constructors each of them gives a multiple of 8 sooner or later (`delay_of_seeds`).

Going through more than 60000 words one by one is too much for a proof. But a word is made of words
at least `BATCH` places before it, so that many can be made at once: with a window of the sequence as
the lanes of one number, `advance` is a dozen operations.
-/

namespace CLabs.Ordering

open CLabs.Lib

/-! ### A window as one number -/

/-- `MT_LEN` words of the sequence, from word `n` on. -/
def packed (start : ℕ → BitVec 32) (n : ℕ) : ℕ :=
  lanes 32 (fun j => (word start (n + j)).toNat) MT_LEN

/-- How many words are made of those of a window alone: `MT_LEN - MT_IA`. -/
def BATCH : ℕ := 227

/-- The same word for each of a batch. -/
def mask (c : BitVec 32) : ℕ := lanes 32 (fun _ => c.toNat) BATCH

/-- `joined`, for a batch. -/
def joinedAll (x : ℕ) : ℕ := (x &&& mask 0x80000000) ||| ((x >>> 32) &&& mask 0x7fffffff)

/-- `scrambled`, for a batch. The multiplication stays in the lanes. -/
def scrambledAll (s : ℕ) : ℕ := ((s >>> 1) &&& mask 0x7fffffff) ^^^ ((s &&& mask 1) * 0x9908B0DF)

/-- The window moved on by a batch: `BATCH` words leave it at the bottom, and as many enter it at the
top. -/
def advance (x : ℕ) : ℕ :=
  (x >>> 7264) ||| (((x >>> 12704) ^^^ scrambledAll (joinedAll x)) <<< 12704)

/-! ### What it does to the words -/

section

variable {start : ℕ → BitVec 32} {n : ℕ}

theorem testBit_words (f : ℕ → BitVec 32) (k i : ℕ) :
    (lanes 32 (fun j => (f j).toNat) k).testBit i =
      (decide (i / 32 < k) && (f (i / 32)).getLsbD (i % 32)) := by
  rw [testBit_lanes (by decide) fun j => (f j).isLt]
  rfl

theorem testBit_mask (c : BitVec 32) (i : ℕ) :
    (mask c).testBit i = (decide (i / 32 < BATCH) && c.getLsbD (i % 32)) :=
  testBit_words (fun _ => c) BATCH i

theorem testBit_packed (i : ℕ) :
    (packed start n).testBit i =
      (decide (i / 32 < MT_LEN) && (word start (n + i / 32)).getLsbD (i % 32)) :=
  testBit_words (fun j => word start (n + j)) MT_LEN i

theorem joinedAll_packed : joinedAll (packed start n) =
    lanes 32 (fun j => (joined (word start (n + j)) (word start (n + j + 1))).toNat) BATCH := by
  refine Nat.eq_of_testBit_eq fun i => ?_
  rw [joinedAll, Nat.testBit_or, Nat.testBit_and, Nat.testBit_and, Nat.testBit_shiftRight,
    testBit_packed, testBit_packed, testBit_mask, testBit_mask,
    testBit_words fun j => joined (word start (n + j)) (word start (n + j + 1))]
  rw [show (32 + i) / 32 = i / 32 + 1 by omega, show (32 + i) % 32 = i % 32 by omega, joined,
    BitVec.getLsbD_or, BitVec.getLsbD_and, BitVec.getLsbD_and, Nat.add_assoc]
  by_cases hi : i / 32 < BATCH
  · have hlens : BATCH = 227 ∧ MT_LEN = 624 := ⟨rfl, rfl⟩
    have hone : i / 32 < MT_LEN := by omega
    have htwo : i / 32 + 1 < MT_LEN := by omega
    simp [hi, hone, htwo]
  · simp [hi]

theorem lanes_and_one (f : ℕ → BitVec 32) :
    lanes 32 (fun j => (f j).toNat) BATCH &&& mask 1 =
      lanes 32 (fun j => (f j &&& 1).toNat) BATCH := by
  refine Nat.eq_of_testBit_eq fun i => ?_
  rw [Nat.testBit_and, testBit_mask, testBit_words, testBit_words fun j => f j &&& 1,
    BitVec.getLsbD_and]
  by_cases hi : i / 32 < BATCH
  · simp [hi]
  · simp [hi]

theorem scrambledAll_lanes (f : ℕ → BitVec 32) :
    scrambledAll (lanes 32 (fun j => (f j).toNat) BATCH) =
      lanes 32 (fun j => (scrambled (f j)).toNat) BATCH := by
  have hproduct : ∀ s : BitVec 32,
      (s &&& 1).toNat * 0x9908B0DF = ((s &&& 1) * 0x9908B0DF#32).toNat := by
    intro s
    have hbit : (s &&& 1).toNat ≤ 1 := by
      rw [BitVec.toNat_and]
      exact Nat.and_le_right
    rw [BitVec.toNat_mul, BitVec.toNat_ofNat]
    omega
  refine Nat.eq_of_testBit_eq fun i => ?_
  have hp : i % 32 < 32 := Nat.mod_lt _ (by decide)
  rw [scrambledAll, lanes_and_one, lanes_mul]
  simp only [hproduct]
  rw [Nat.testBit_xor, Nat.testBit_and, Nat.testBit_shiftRight, testBit_mask, testBit_words,
    testBit_words fun j => (f j &&& 1) * 0x9908B0DF#32, testBit_words fun j => scrambled (f j),
    scrambled, BitVec.getLsbD_xor, BitVec.getLsbD_ushiftRight]
  have hlow : ∀ p < 32, (0x7fffffff : BitVec 32).getLsbD p = !decide (p = 31) := by decide
  by_cases hi : i / 32 < BATCH
  · by_cases htop : i % 32 = 31
    · -- what would be shifted in from the next lane is masked
      simp [hi, htop]
    · rw [hlow _ hp, show (1 + i) / 32 = i / 32 by omega,
        show (1 + i) % 32 = 1 + i % 32 by omega]
      simp [hi, htop]
  · simp [hi]

/-- **A batch of words.** -/
theorem advance_packed : advance (packed start n) = packed start (n + BATCH) := by
  have hlens : BATCH = 227 ∧ MT_LEN = 624 ∧ MT_IA = 397 := ⟨rfl, rfl, rfl⟩
  refine Nat.eq_of_testBit_eq fun i => ?_
  rw [advance, joinedAll_packed,
    scrambledAll_lanes fun j => joined (word start (n + j)) (word start (n + j + 1)),
    Nat.testBit_or, Nat.testBit_shiftRight, Nat.testBit_shiftLeft, Nat.testBit_xor,
    Nat.testBit_shiftRight, testBit_packed, testBit_packed, testBit_packed,
    testBit_words fun j => scrambled (joined (word start (n + j)) (word start (n + j + 1)))]
  by_cases hi : 12704 ≤ i
  · -- a word that enters
    have hleft : ¬ (7264 + i) / 32 < MT_LEN := by omega
    have hsame : 12704 + (i - 12704) = i := by omega
    have hlane : (i - 12704) % 32 = i % 32 := by omega
    rw [hsame, hlane]
    by_cases hq : i / 32 < MT_LEN
    · have hbatch : (i - 12704) / 32 < BATCH := by omega
      have hword := word_add start (n + (i - 12704) / 32)
      rw [show n + (i - 12704) / 32 + MT_LEN = n + BATCH + i / 32 by omega,
        show n + (i - 12704) / 32 + MT_IA = n + i / 32 by omega] at hword
      rw [hword, twist, BitVec.getLsbD_xor]
      simp [hi, hleft, hq, hbatch]
    · have hbatch : ¬ (i - 12704) / 32 < BATCH := by omega
      simp [hleft, hq, hbatch]
  · -- one that stays
    have hleft : (7264 + i) / 32 = BATCH + i / 32 := by omega
    have hlane : (7264 + i) % 32 = i % 32 := by omega
    have hq : BATCH + i / 32 < MT_LEN := by omega
    have hq' : i / 32 < MT_LEN := by omega
    rw [hleft, hlane, ← Nat.add_assoc n]
    simp [hi, hq, hq']

theorem advance_iterate (k : ℕ) :
    advance^[k] (packed start n) = packed start (n + k * BATCH) := by
  induction k generalizing n with
  | zero => simp
  | succ k ih =>
      rw [Function.iterate_succ_apply, advance_packed, ih]
      congr 1
      ring

/-- A word after any number of batches. -/
theorem word_of_batches (k : ℕ) {j : ℕ} (hj : j < MT_LEN) :
    word start (k * BATCH + j) =
      BitVec.ofNat 32 (lane 32 (advance^[k] (packed start 0)) j) := by
  rw [advance_iterate, Nat.zero_add, packed,
    lane_lanes (by decide) (fun i => (word start (k * BATCH + i)).isLt) hj, BitVec.ofNat_toNat,
    BitVec.setWidth_eq]

end

/-! ### The seeds -/

theorem packed_zero (seed : BitVec 32) :
    packed (fun _ => seed) 0 = lanes 32 (fun _ => seed.toNat) MT_LEN := by
  refine Nat.eq_of_testBit_eq fun i => ?_
  rw [testBit_packed, testBit_words fun _ => seed]
  by_cases hi : i / 32 < MT_LEN
  · rw [Nat.zero_add, word_of_lt _ hi]
  · simp [hi]

/-- A result of a seeded generator. -/
theorem mem_integers_of_seed (seed : BitVec 32) {m k j : ℕ} (hj : j < MT_LEN)
    (hindex : 101 * MT_LEN + m = k * BATCH + j) :
    swizzle (BitVec.ofNat 32 (lane 32 (advance^[k] (lanes 32 (fun _ => seed.toNat) MT_LEN)) j)) ∈
      ((MersenneTwister.new seed).integers (m + 1)).2 := by
  have hcount : 100 * MT_LEN + MT_LEN + m = k * BATCH + j := by omega
  rw [(integers_of_window (window_new seed) (m + 1)).1, List.mem_map]
  refine ⟨m, List.mem_range.mpr m.lt_succ_self, ?_⟩
  rw [hcount, word_of_batches k hj, packed_zero]

/-- **Both generators give a multiple of 8**: the first with its 129th result, the second with its
sixth. -/
theorem delay_of_seeds :
    (∃ r ∈ ((MersenneTwister.new 1).integers 129).2, r % 8 = 0) ∧
      ∃ r ∈ ((MersenneTwister.new 2).integers 6).2, r % 8 = 0 := by
  have hone := mem_integers_of_seed 1 (m := 128) (k := 276) (j := 500)
    (by decide) (by decide)
  have htwo := mem_integers_of_seed 2 (m := 5) (k := 276) (j := 377)
    (by decide) (by decide)
  exact ⟨⟨_, hone, by decide +kernel⟩, ⟨_, htwo, by decide +kernel⟩⟩

end CLabs.Ordering
