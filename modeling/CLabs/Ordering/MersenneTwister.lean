import CLabs.Lib.Ring
import CLabs.Lib.Run
import CLabs.Lib.XorShift

/-!
# CLabs.Ordering.MersenneTwister

The generator of `ordering.cpp` that times the random delays: a ring of `MT_LEN` words, of which
each call of `integer` overwrites the oldest one and returns it, mixed once more.

* `unsigned int` is `BitVec 32`. The masks of the source that are `unsigned long` change nothing:
  what they select is cut to 32 bits again.
* The indices are `Fin MT_LEN`: that the wrap-around of the source keeps them in the buffer is part
  of the definitions.

The ring is a window on an infinite sequence of words (`word`) in which each word is made of three
of those before it; the main results are that a generator goes through that sequence and nothing
else (`integers_of_seed`), and how much of its state its results give away
(`integers_determine_state`).
-/

namespace CLabs.Ordering

open CLabs.Lib

/-- `MT_IA`. -/
def MT_IA : ℕ := 397

/-- `MT_LEN`. -/
def MT_LEN : ℕ := 624

/-- The state of a generator. -/
structure MersenneTwister where
  mBuffer : Vector (BitVec 32) MT_LEN
  mIndex : Fin MT_LEN

/-- `i2`: the next index. -/
def nextIndex (i : Fin MT_LEN) : Fin MT_LEN :=
  if h : i + 1 ≥ MT_LEN then ⟨0, by decide⟩ else ⟨i + 1, by omega⟩

/-- `j`: the index `MT_IA` places on. -/
def aheadIndex (i : Fin MT_LEN) : Fin MT_LEN :=
  if h : i + MT_IA ≥ MT_LEN then ⟨i + MT_IA - MT_LEN, by simp only [MT_IA, MT_LEN] at *; omega⟩
  else ⟨i + MT_IA, by omega⟩

/-- The top bit of one word and the other bits of the next: `s`. -/
def joined (w w2 : BitVec 32) : BitVec 32 := (w &&& 0x80000000) ||| (w2 &&& 0x7fffffff)

/-- `(s >> 1) ^ ((s & 1) * 0x9908B0DF)`. -/
def scrambled (s : BitVec 32) : BitVec 32 := (s >>> 1) ^^^ ((s &&& 1) * 0x9908B0DF)

/-- The lines of `integer` under `Twist`: the new word, made of `m_buffer[i]`, `m_buffer[i2]` and
`m_buffer[j]`. -/
def twist (wi wi2 wj : BitVec 32) : BitVec 32 := wj ^^^ scrambled (joined wi wi2)

/-- The lines of `integer` under `Swizzle`. -/
def swizzle (r : BitVec 32) : BitVec 32 :=
  let r := r ^^^ (r >>> 11)
  let r := r ^^^ ((r <<< 7) &&& 0x9d2c5680)
  let r := r ^^^ ((r <<< 15) &&& 0xefc60000)
  r ^^^ (r >>> 18)

/-- `integer()`. -/
def MersenneTwister.integer (g : MersenneTwister) : BitVec 32 × MersenneTwister :=
  let i := g.mIndex
  let i2 := nextIndex i
  let j := aheadIndex i
  let r := twist (g.mBuffer.get i) (g.mBuffer.get i2) (g.mBuffer.get j)
  (swizzle r, ⟨g.mBuffer.set i r, i2⟩)

/-- `k` calls of `integer`: the state after them, and their results. -/
def MersenneTwister.integers (g : MersenneTwister) (k : ℕ) : MersenneTwister × List (BitVec 32) :=
  run (fun g (_ : Unit) => (g.integer.2, [g.integer.1])) g (List.replicate k ())

/-- The first loop of the constructor: the buffer is filled with the seed. -/
def MersenneTwister.filled (seed : BitVec 32) : MersenneTwister :=
  ⟨Vector.replicate MT_LEN seed, ⟨0, by decide⟩⟩

/-- The constructor. Its second loop shuffles what the first has filled. -/
def MersenneTwister.new (seed : BitVec 32) : MersenneTwister :=
  ((MersenneTwister.filled seed).integers (MT_LEN * 100)).1

/-! ### The sequence of words -/

/-- The words that follow `MT_LEN` given ones. -/
def word (start : ℕ → BitVec 32) (n : ℕ) : BitVec 32 :=
  if n < MT_LEN then start n
  else
    twist (word start (n - MT_LEN)) (word start (n - MT_LEN + 1))
      (word start (n - MT_LEN + MT_IA))
termination_by n
decreasing_by all_goals simp only [MT_LEN, MT_IA] at *; omega

theorem word_of_lt (start : ℕ → BitVec 32) {n : ℕ} (h : n < MT_LEN) : word start n = start n := by
  rw [word, if_pos h]

theorem word_add (start : ℕ → BitVec 32) (n : ℕ) :
    word start (n + MT_LEN) =
      twist (word start n) (word start (n + 1)) (word start (n + MT_IA)) := by
  rw [word, if_neg (by omega), Nat.add_sub_cancel]

/-! ### The ring goes through the sequence -/

theorem nextIndex_eq (i : Fin MT_LEN) : nextIndex i = ringIndex i 1 := by
  have hi := i.isLt
  unfold nextIndex ringIndex
  split
  next h =>
    rw [Fin.mk.injEq, show i.val + 1 = MT_LEN by omega, Nat.mod_self]
  next h => rw [Fin.mk.injEq, Nat.mod_eq_of_lt (by omega)]

theorem aheadIndex_eq (i : Fin MT_LEN) : aheadIndex i = ringIndex i MT_IA := by
  have hi := i.isLt
  have hlt : MT_IA < MT_LEN := by decide
  unfold aheadIndex ringIndex
  split
  next h => rw [Fin.mk.injEq, Nat.mod_eq_sub_mod h, Nat.mod_eq_of_lt (by omega)]
  next h => rw [Fin.mk.injEq, Nat.mod_eq_of_lt (by omega)]

section

variable {g : MersenneTwister} {start : ℕ → BitVec 32} {n : ℕ}

/-- One call: the next word of the sequence, swizzled. -/
theorem integer_of_window (h : Window g.mBuffer g.mIndex (word start) n) :
    g.integer.1 = swizzle (word start (n + MT_LEN)) ∧
      Window g.integer.2.mBuffer g.integer.2.mIndex (word start) (n + 1) := by
  have hr : twist (g.mBuffer.get g.mIndex) (g.mBuffer.get (nextIndex g.mIndex))
      (g.mBuffer.get (aheadIndex g.mIndex)) = word start (n + MT_LEN) := by
    rw [h.get_index, nextIndex_eq, aheadIndex_eq, h 1 (by decide), h MT_IA (by decide), word_add]
  simp only [MersenneTwister.integer]
  rw [hr, nextIndex_eq]
  exact ⟨rfl, h.push⟩

theorem integers_zero (g : MersenneTwister) : g.integers 0 = (g, []) := rfl

theorem integers_succ (g : MersenneTwister) (k : ℕ) :
    g.integers (k + 1) = ((g.integer.2.integers k).1, g.integer.1 :: (g.integer.2.integers k).2) :=
  rfl

theorem integers_of_window (h : Window g.mBuffer g.mIndex (word start) n) (k : ℕ) :
    (g.integers k).2 = (List.range k).map (fun j => swizzle (word start (n + MT_LEN + j))) ∧
      Window (g.integers k).1.mBuffer (g.integers k).1.mIndex (word start) (n + k) := by
  induction k generalizing g n with
  | zero => exact ⟨rfl, h⟩
  | succ k ih =>
      obtain ⟨hfirst, hwindow⟩ := integer_of_window h
      obtain ⟨hrest, hend⟩ := ih hwindow
      rw [integers_succ]
      refine ⟨?_, ?_⟩
      · dsimp only
        rw [hfirst, hrest, List.range_succ_eq_map, List.map_cons, List.map_map, Nat.add_zero]
        congr 1
        refine List.map_congr_left fun j _ => ?_
        simp only [Function.comp_apply]
        congr 2
        omega
      · rwa [show n + (k + 1) = n + 1 + k by omega]

end

/-- The words of a generator's buffer, from the oldest on. -/
def MersenneTwister.oldest (g : MersenneTwister) : ℕ → BitVec 32 := window g.mBuffer g.mIndex

theorem window_word (g : MersenneTwister) : Window g.mBuffer g.mIndex (word g.oldest) 0 := by
  intro k hk
  rw [Nat.zero_add, word_of_lt _ hk]
  rfl

/-- The results of a generator are the words after those of its buffer. -/
theorem integers_eq (g : MersenneTwister) (k : ℕ) :
    (g.integers k).2 = (List.range k).map fun j => swizzle (word g.oldest (MT_LEN + j)) := by
  simpa only [Nat.zero_add] using (integers_of_window (window_word g) k).1

theorem window_filled (seed : BitVec 32) :
    Window (MersenneTwister.filled seed).mBuffer (MersenneTwister.filled seed).mIndex
      (word fun _ => seed) 0 := by
  intro k hk
  rw [Nat.zero_add, word_of_lt _ hk]
  simp [MersenneTwister.filled, Vector.get]

/-- After the warm-up of the constructor. -/
theorem window_new (seed : BitVec 32) :
    Window (MersenneTwister.new seed).mBuffer (MersenneTwister.new seed).mIndex
      (word fun _ => seed) (100 * MT_LEN) := by
  have hwindow := (integers_of_window (window_filled seed) (MT_LEN * 100)).2
  rw [Nat.zero_add, Nat.mul_comm MT_LEN 100] at hwindow
  rw [MersenneTwister.new, Nat.mul_comm MT_LEN 100]
  exact hwindow

/-- **A seeded generator.** Its results are the words of the sequence that starts with the seed
`MT_LEN` times, from the word number `101 * MT_LEN` on, swizzled. -/
theorem integers_of_seed (seed : BitVec 32) (k : ℕ) :
    ((MersenneTwister.new seed).integers k).2 =
      (List.range k).map fun j => swizzle (word (fun _ => seed) (101 * MT_LEN + j)) := by
  have hcount : 100 * MT_LEN + MT_LEN = 101 * MT_LEN := by omega
  rw [(integers_of_window (window_new seed) k).1, hcount]

/-! ### What the results give away -/

theorem swizzle_injective : Function.Injective swizzle := by
  have h11 := xor_ushiftRight_injective (w := 32) (k := 11) (by decide)
  have h7 := xor_shiftLeft_and_injective (w := 32) (k := 7) (by decide) 0x9d2c5680
  have h15 := xor_shiftLeft_and_injective (w := 32) (k := 15) (by decide) 0xefc60000
  have h18 := xor_ushiftRight_injective (w := 32) (k := 18) (by decide)
  exact h18.comp (h15.comp (h7.comp h11))

theorem getLsbD_joined (a b : BitVec 32) {p : ℕ} (hp : p < 32) :
    (joined a b).getLsbD p = if p = 31 then a.getLsbD 31 else b.getLsbD p := by
  have htop : ∀ p < 32, (0x80000000 : BitVec 32).getLsbD p = decide (p = 31) := by decide
  have hlow : ∀ p < 32, (0x7fffffff : BitVec 32).getLsbD p = !decide (p = 31) := by decide
  rw [joined, BitVec.getLsbD_or, BitVec.getLsbD_and, BitVec.getLsbD_and, htop p hp, hlow p hp]
  by_cases h31 : p = 31
  · simp [h31]
  · simp [h31]

/-- What the joined word says about the two words it is made of. -/
theorem joined_eq_iff {a b a' b' : BitVec 32} :
    joined a b = joined a' b' ↔
      a.getLsbD 31 = a'.getLsbD 31 ∧ ∀ p < 31, b.getLsbD p = b'.getLsbD p := by
  constructor
  · intro h
    have hbit : ∀ p < 32, (if p = 31 then a.getLsbD 31 else b.getLsbD p) =
        if p = 31 then a'.getLsbD 31 else b'.getLsbD p := by
      intro p hp
      rw [← getLsbD_joined a b hp, ← getLsbD_joined a' b' hp, h]
    refine ⟨by simpa using hbit 31 (by decide), fun p hp => ?_⟩
    simpa [Nat.ne_of_lt hp] using hbit p (by omega)
  · intro ⟨htop, hlow⟩
    refine BitVec.eq_of_getLsbD_eq fun p hp => ?_
    rw [getLsbD_joined a b hp, getLsbD_joined a' b' hp]
    split
    · exact htop
    · exact hlow p (by omega)

theorem getLsbD_scrambled (s : BitVec 32) (p : ℕ) :
    (scrambled s).getLsbD p =
      (s.getLsbD (1 + p) ^^ (s.getLsbD 0 && (0x9908B0DF : BitVec 32).getLsbD p)) := by
  have hlow : s &&& 1 = if s.getLsbD 0 then 1 else 0 := by
    refine BitVec.eq_of_getLsbD_eq fun q hq => ?_
    have hone : (1 : BitVec 32).getLsbD q = decide (q = 0) := by
      revert q
      decide
    rw [BitVec.getLsbD_and, hone]
    by_cases hzero : q = 0
    · subst hzero
      cases s.getLsbD 0 <;> rfl
    · cases s.getLsbD 0 <;> simp [hzero]
  rw [scrambled, hlow, BitVec.getLsbD_xor, BitVec.getLsbD_ushiftRight]
  cases s.getLsbD 0 <;> simp

/-- The constant has its top bit set, so that the lowest bit of the joined word can be read off
the scrambled one; the others follow. -/
theorem scrambled_injective : Function.Injective scrambled := by
  intro s t hst
  have hbit : ∀ p, (s.getLsbD (1 + p) ^^ (s.getLsbD 0 && (0x9908B0DF : BitVec 32).getLsbD p)) =
      (t.getLsbD (1 + p) ^^ (t.getLsbD 0 && (0x9908B0DF : BitVec 32).getLsbD p)) := by
    intro p
    rw [← getLsbD_scrambled, ← getLsbD_scrambled, hst]
  have hzero : s.getLsbD 0 = t.getLsbD 0 := by
    have htop := hbit 31
    rw [BitVec.getLsbD_of_ge s _ (by decide), BitVec.getLsbD_of_ge t _ (by decide),
      show (0x9908B0DF : BitVec 32).getLsbD 31 = true from rfl] at htop
    simpa using htop
  refine BitVec.eq_of_getLsbD_eq fun p hp => ?_
  cases p with
  | zero => exact hzero
  | succ p =>
      have hp' := hbit p
      rw [hzero, Nat.add_comm 1 p] at hp'
      exact Bool.xor_left_inj.mp hp'

/-- Two generators that differ at most in the lower bits of the oldest word. -/
structure SameState (g g' : MersenneTwister) : Prop where
  top : (g.oldest 0).getLsbD 31 = (g'.oldest 0).getLsbD 31
  rest : ∀ k, 0 < k → k < MT_LEN → g.oldest k = g'.oldest k

section

variable {start start' : ℕ → BitVec 32}

/-- A word of the sequence, and the one `MT_IA` after the oldest of those it was made of, give
the joined word away. -/
theorem joined_of_words {n : ℕ}
    (hnew : word start (n + MT_LEN) = word start' (n + MT_LEN))
    (hahead : word start (n + MT_IA) = word start' (n + MT_IA)) :
    joined (word start n) (word start (n + 1)) = joined (word start' n) (word start' (n + 1)) := by
  rw [word_add, word_add, twist, twist, hahead] at hnew
  exact scrambled_injective ((BitVec.xor_right_inj _).mp hnew)

/-- The sequence can be run backwards: `MT_LEN` words in a row determine those before them, except
for the lower bits of the very first. -/
theorem words_before
    (h : ∀ k < MT_LEN, word start (MT_LEN + k) = word start' (MT_LEN + k)) :
    (word start 0).getLsbD 31 = (word start' 0).getLsbD 31 ∧
      ∀ n, 0 < n → n < MT_LEN → word start n = word start' n := by
  have hlens : MT_LEN = 624 ∧ MT_IA = 397 := ⟨rfl, rfl⟩
  -- downwards from `MT_LEN`: the two words that hold the bits of word `n` need only later ones
  have hback : ∀ d n, MT_LEN ≤ n + d → 0 < n → n < 2 * MT_LEN → word start n = word start' n := by
    intro d
    induction d with
    | zero =>
        intro n hn _ hlt
        have hk := h (n - MT_LEN) (by omega)
        rwa [Nat.add_sub_cancel' (by omega)] at hk
    | succ d ih =>
        intro n hn hpos hlt
        by_cases hlate : MT_LEN ≤ n
        · exact ih n (by omega) hpos hlt
        · obtain ⟨m, rfl⟩ : ∃ m, n = m + 1 := ⟨n - 1, by omega⟩
          have htop := (joined_eq_iff.mp (joined_of_words (n := m + 1)
            (ih _ (by omega) (by omega) (by omega)) (ih _ (by omega) (by omega) (by omega)))).1
          have hlow := (joined_eq_iff.mp (joined_of_words (n := m)
            (ih _ (by omega) (by omega) (by omega)) (ih _ (by omega) (by omega) (by omega)))).2
          refine BitVec.eq_of_getLsbD_eq fun p hp => ?_
          by_cases h31 : p = 31
          · rw [h31, htop]
          · exact hlow p (by omega)
  refine ⟨?_, fun n hpos hlt => hback MT_LEN n (by omega) hpos (by omega)⟩
  exact (joined_eq_iff.mp (joined_of_words (n := 0)
    (hback MT_LEN _ (by omega) (by omega) (by omega))
    (hback MT_LEN _ (by omega) (by omega) (by omega)))).1

/-- The lower bits of the oldest word are never used. -/
theorem word_congr {g g' : MersenneTwister} (h : SameState g g') {n : ℕ} (hpos : 0 < n) :
    word g.oldest n = word g'.oldest n := by
  induction n using Nat.strong_induction_on with
  | _ n ih =>
      by_cases hlt : n < MT_LEN
      · rw [word_of_lt _ hlt, word_of_lt _ hlt, h.rest n hpos hlt]
      · have hlens : MT_LEN = 624 ∧ MT_IA = 397 := ⟨rfl, rfl⟩
        obtain ⟨m, rfl⟩ : ∃ m, n = m + MT_LEN := ⟨n - MT_LEN, by omega⟩
        have hnext := ih (m + 1) (by omega) (by omega)
        have hjoined : joined (word g.oldest m) (word g.oldest (m + 1)) =
            joined (word g'.oldest m) (word g'.oldest (m + 1)) := by
          refine joined_eq_iff.mpr ⟨?_, fun p _ => by rw [hnext]⟩
          rcases Nat.eq_zero_or_pos m with rfl | hm
          · rw [word_of_lt _ (by decide), word_of_lt _ (by decide), h.top]
          · rw [ih m (by omega) hm]
        rw [word_add, word_add, twist, twist, hjoined, ih (m + MT_IA) (by omega) (by omega)]

end

/-- **What the results give away.** Two generators give the same `MT_LEN` results exactly if their
buffers are the same but for the 31 lower bits of the oldest word, and then they give the same
results for ever. -/
theorem integers_determine_state (g g' : MersenneTwister) :
    ((g.integers MT_LEN).2 = (g'.integers MT_LEN).2 ↔ SameState g g') ∧
      (SameState g g' → ∀ k, (g.integers k).2 = (g'.integers k).2) := by
  have hsame : SameState g g' → ∀ k, (g.integers k).2 = (g'.integers k).2 := by
    intro h k
    rw [integers_eq, integers_eq]
    refine List.map_congr_left fun j _ => ?_
    rw [word_congr h (by simp only [MT_LEN]; omega)]
  refine ⟨⟨fun heq => ?_, fun h => hsame h MT_LEN⟩, hsame⟩
  rw [integers_eq, integers_eq] at heq
  have hwords : ∀ k < MT_LEN, word g.oldest (MT_LEN + k) = word g'.oldest (MT_LEN + k) := by
    intro k hk
    exact swizzle_injective (List.map_inj_left.mp heq k (List.mem_range.mpr hk))
  obtain ⟨htop, hrest⟩ := words_before hwords
  constructor
  · rwa [word_of_lt _ (by decide), word_of_lt _ (by decide)] at htop
  · intro k hpos hk
    have hword := hrest k hpos hk
    rwa [word_of_lt _ hk, word_of_lt _ hk] at hword

/-- A buffer of zeros but for the lowest bit of the oldest word. -/
def lowBit : MersenneTwister :=
  let g := MersenneTwister.filled 0
  ⟨g.mBuffer.set g.mIndex 1, g.mIndex⟩

theorem sameState_lowBit : SameState (.filled 0) lowBit where
  top := by
    simp only [MersenneTwister.oldest, window, lowBit]
    rw [ringIndex_zero, get_set, if_pos rfl]
    simp [MersenneTwister.filled, Vector.get]
  rest k hpos hk := by
    have hne := ringIndex_ne (i := (MersenneTwister.filled 0).mIndex) hpos hk
    simp only [MersenneTwister.oldest, window, lowBit]
    rw [get_set, if_neg hne.symm]

theorem integers_determine_state_lowBit :
    SameState (.filled 0) lowBit ∧
      ∀ k, ((MersenneTwister.filled 0).integers k).2 = (lowBit.integers k).2 :=
  ⟨sameState_lowBit, (integers_determine_state _ _).2 sameState_lowBit⟩

end CLabs.Ordering
