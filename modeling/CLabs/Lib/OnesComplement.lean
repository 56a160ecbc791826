import Mathlib.Tactic

/-!
# CLabs.Lib.OnesComplement

**Internet checksums.** The ones' complement sum of 16-bit words adds them with the carry
brought back in at the low end; the checksum of a text is the complement of the sum of its
words, and a text that carries its checksum has the sum `0xFFFF`.

The sum of a list of words depends on their sum as numbers only (`onesSum_eq`), so the words
may be taken in any order and in any grouping.
-/

namespace CLabs.Lib

/-! ### Sums -/

/-- Addition of 16-bit words with end-around carry. -/
def onesAdd (a b : Nat) : Nat := if a + b < 65536 then a + b else a + b - 65535

/-- The ones' complement sum. -/
def onesSum (words : List Nat) : Nat := words.foldl onesAdd 0

/-- The checksum: the complement of the sum. -/
def checksum (words : List Nat) : Nat := 65535 - onesSum words

/-- The 16-bit word that a number of carries leaves: 0 for 0 only, otherwise a residue
modulo `0xFFFF` between 1 and `0xFFFF`. -/
def carried (n : Nat) : Nat := if n = 0 then 0 else (n - 1) % 65535 + 1

theorem carried_le (n : Nat) : carried n ≤ 65535 := by
  unfold carried
  split_ifs
  · omega
  · have hlt := Nat.mod_lt (n - 1) (show 0 < 65535 by omega)
    omega

theorem carried_of_le {n : Nat} (h : n ≤ 65535) : carried n = n := by
  unfold carried
  split_ifs with hn
  · exact hn.symm
  · rw [Nat.mod_eq_of_lt (by omega)]
    omega

/-- A carry more or less makes no difference. -/
theorem carried_add_carried (a b : Nat) : carried (carried a + b) = carried (a + b) := by
  unfold carried
  by_cases ha : a = 0
  · simp [ha]
  · rw [if_neg ha, if_neg (by omega), if_neg (by omega)]
    congr 1
    have hshift : (a - 1) % 65535 + 1 + b - 1 = (a - 1) % 65535 + b := by omega
    have hshift' : a + b - 1 = a - 1 + b := by omega
    rw [hshift, hshift', Nat.mod_add_mod]

theorem onesAdd_eq_carried {a b : Nat} (ha : a ≤ 65535) (hb : b ≤ 65535) :
    onesAdd a b = carried (a + b) := by
  unfold onesAdd
  split_ifs with h
  · rw [carried_of_le (by omega)]
  · unfold carried
    rw [if_neg (by omega), Nat.mod_eq_sub_mod (by omega), Nat.mod_eq_of_lt (by omega)]
    omega

theorem foldl_onesAdd {words : List Nat} (h : ∀ w ∈ words, w ≤ 65535) (a : Nat) :
    words.foldl onesAdd (carried a) = carried (a + words.sum) := by
  induction words generalizing a with
  | nil => simp
  | cons w words ih =>
      rw [List.foldl_cons, onesAdd_eq_carried (carried_le a) (h w List.mem_cons_self),
        carried_add_carried, ih (fun v hv => h v (List.mem_cons_of_mem w hv)), List.sum_cons,
        Nat.add_assoc]

/-- **The sum depends on the words' sum only.** -/
theorem onesSum_eq {words : List Nat} (h : ∀ w ∈ words, w ≤ 65535) :
    onesSum words = carried words.sum := by
  have hfold := foldl_onesAdd h 0
  rwa [Nat.zero_add] at hfold

theorem onesSum_le {words : List Nat} (h : ∀ w ∈ words, w ≤ 65535) : onesSum words ≤ 65535 := by
  rw [onesSum_eq h]
  exact carried_le _

/-- A part may be summed first. -/
theorem onesSum_append_onesSum {first rest : List Nat} (hfirst : ∀ w ∈ first, w ≤ 65535)
    (hrest : ∀ w ∈ rest, w ≤ 65535) :
    onesSum (first ++ [onesSum rest]) = onesSum (first ++ rest) := by
  have hone : ∀ w ∈ first ++ [onesSum rest], w ≤ 65535 := by
    intro w hw
    rcases List.mem_append.mp hw with hw | hw
    · exact hfirst w hw
    · exact List.mem_singleton.mp hw ▸ onesSum_le hrest
  have hall : ∀ w ∈ first ++ rest, w ≤ 65535 := by
    intro w hw
    rcases List.mem_append.mp hw with hw | hw
    · exact hfirst w hw
    · exact hrest w hw
  rw [onesSum_eq hone, onesSum_eq hall, onesSum_eq hrest, List.sum_append, List.sum_append,
    List.sum_singleton, Nat.add_comm, carried_add_carried, Nat.add_comm]

theorem checksum_le (words : List Nat) : checksum words ≤ 65535 := Nat.sub_le _ _

/-- Together with its complement a sum is `0xFFFF`. -/
theorem carried_add_complement (n : Nat) : carried (n + (65535 - carried n)) = 65535 := by
  by_cases hn : n = 0
  · rw [hn]
    rfl
  · have hcarried : carried n = (n - 1) % 65535 + 1 := by rw [carried, if_neg hn]
    have hdiv := Nat.div_add_mod (n - 1) 65535
    have htotal : n + (65535 - carried n) = 65535 * ((n - 1) / 65535 + 1) := by
      have hlt := Nat.mod_lt (n - 1) (show 0 < 65535 by omega)
      omega
    rw [htotal, carried, if_neg (by omega)]
    omega

/-! ### Bytes -/

/-- The 16-bit words of a byte string, high byte first; an odd byte at the end is the high
byte of a last word. -/
def words : List UInt8 → List Nat
  | [] => []
  | [a] => [a.toNat * 256]
  | a :: b :: s => (a.toNat * 256 + b.toNat) :: words s

/-- A word as two bytes. -/
def be16 (w : Nat) : List UInt8 := [UInt8.ofNat (w / 256), UInt8.ofNat (w % 256)]

@[simp] theorem length_be16 (w : Nat) : (be16 w).length = 2 := rfl

theorem le_of_mem_words {s : List UInt8} {w : Nat} (h : w ∈ words s) : w ≤ 65535 := by
  have hbyte : ∀ a : UInt8, a.toNat < 256 := UInt8.toNat_lt
  fun_induction words s with
  | case1 => exact absurd h List.not_mem_nil
  | case2 a =>
      have ha := hbyte a
      rw [List.mem_singleton] at h
      omega
  | case3 a b s ih =>
      rcases List.mem_cons.mp h with rfl | h
      · have ha := hbyte a
        have hb := hbyte b
        omega
      · exact ih h

/-- Texts of even length can be taken one after the other. -/
theorem words_append {s : List UInt8} (h : s.length % 2 = 0) (t : List UInt8) :
    words (s ++ t) = words s ++ words t := by
  fun_induction words s with
  | case1 => rfl
  | case2 a => exact absurd h (by simp)
  | case3 a b s ih =>
      rw [List.length_cons, List.length_cons] at h
      rw [List.cons_append, List.cons_append, words, ih (by omega), List.cons_append]

theorem words_be16 {w : Nat} (h : w ≤ 65535) (s : List UInt8) :
    words (be16 w ++ s) = w :: words s := by
  have hhigh : (UInt8.ofNat (w / 256)).toNat = w / 256 := UInt8.toNat_ofNat_of_lt' (by
    unfold UInt8.size
    omega)
  have hlow : (UInt8.ofNat (w % 256)).toNat = w % 256 := UInt8.toNat_ofNat_of_lt' (by
    unfold UInt8.size
    omega)
  show ((UInt8.ofNat (w / 256)).toNat * 256 + (UInt8.ofNat (w % 256)).toNat) :: words s = _
  rw [hhigh, hlow, Nat.div_add_mod']

theorem onesSum_words (s : List UInt8) : onesSum (words s) = carried (words s).sum :=
  onesSum_eq fun _ => le_of_mem_words

/-- **A text that carries its checksum.** The field is at an even place of the text, and the
checksum is taken over the text with zeros in the field. -/
theorem onesSum_with_checksum {s : List UInt8} (h : s.length % 2 = 0) (t : List UInt8) :
    onesSum (words (s ++ (be16 (checksum (words (s ++ (be16 0 ++ t)))) ++ t))) = 65535 := by
  have hsum : ∀ w, w ≤ 65535 → (words (s ++ (be16 w ++ t))).sum =
      (words s).sum + (words t).sum + w := by
    intro w hw
    rw [words_append h, words_be16 hw, List.sum_append, List.sum_cons]
    omega
  have hzero := hsum 0 (by omega)
  rw [Nat.add_zero] at hzero
  rw [onesSum_words, hsum _ (checksum_le _), checksum, onesSum_words, hzero]
  exact carried_add_complement _

end CLabs.Lib
