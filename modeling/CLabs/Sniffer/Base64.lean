import CLabs.Sniffer.Text
import Mathlib.Data.List.DropRight

/-!
# CLabs.Sniffer.Base64

`decode64` of `sniffer.cpp`, and what it makes of the result of `encode64`.

The padding of `encode64` fills the last group of four symbols with zero bits, so the
decoder's iterators give back the text and a zero byte for each padding character
(`octets_sextets`). `decode64` knows no count of them: it removes every zero byte at the
end, also those that were in the text.
-/

namespace CLabs.Sniffer

/-! ### Decoding -/

/-- `binary_from_base64`: the value of a symbol. The padding character counts as zero, and
other characters make the iterator throw. -/
def binaryFromBase64 (c : UInt8) : Option Nat :=
  if 65 ≤ c ∧ c ≤ 90 then some (c.toNat - 65)
  else if 97 ≤ c ∧ c ≤ 122 then some (c.toNat - 71)
  else if 48 ≤ c ∧ c ≤ 57 then some (c.toNat + 4)
  else if c = 43 then some 62
  else if c = 47 then some 63
  else if c = 61 then some 0
  else none

/-- `transform_width<_, 8, 6>`: the bits in groups of eight, most significant first. Bits
left over are discarded; a last symbol that starts a group is filled with zeros. -/
def octets : List Nat → StdString
  | [] => []
  | [a] => [UInt8.ofNat (a * 4)]
  | [a, b] => [UInt8.ofNat (a * 4 + b / 16)]
  | [a, b, c] => [UInt8.ofNat (a * 4 + b / 16), UInt8.ofNat (b % 16 * 16 + c / 4)]
  | a :: b :: c :: d :: s =>
      UInt8.ofNat (a * 4 + b / 16) :: UInt8.ofNat (b % 16 * 16 + c / 4) ::
        UInt8.ofNat (c % 4 * 64 + d) :: octets s

/-- `trim_right_copy_if` with the test for the zero byte. -/
def trimRightNul (s : StdString) : StdString := s.rdropWhile (· == 0)

/-- `decode64`; `none` is the exception of the iterators. -/
def decode64 (val : StdString) : Option StdString :=
  (val.mapM binaryFromBase64).map fun symbols => trimRightNul (octets symbols)

/-! ### Symbols -/

theorem binaryFromBase64_base64Char {n : Nat} (h : n < 64) :
    binaryFromBase64 (base64Char n) = some n := by
  interval_cases n <;> rfl

theorem lt_of_mem_sextets {s : StdString} {n : Nat} (h : n ∈ sextets s) : n < 64 := by
  have hbyte : ∀ a : UInt8, a.toNat < 256 := UInt8.toNat_lt
  fun_induction sextets s with
  | case1 => exact absurd h List.not_mem_nil
  | case2 a =>
      have ha := hbyte a
      simp only [List.mem_cons, List.not_mem_nil, or_false] at h
      omega
  | case3 a b =>
      have ha := hbyte a
      have hb := hbyte b
      simp only [List.mem_cons, List.not_mem_nil, or_false] at h
      omega
  | case4 a b c s ih =>
      have ha := hbyte a
      have hb := hbyte b
      simp only [List.mem_cons] at h
      rcases h with rfl | rfl | rfl | rfl | h
      · omega
      · omega
      · have hc := hbyte c
        omega
      · omega
      · exact ih h

theorem mapM_map_base64Char {symbols : List Nat} (h : ∀ n ∈ symbols, n < 64) :
    (symbols.map base64Char).mapM binaryFromBase64 = some symbols := by
  induction symbols with
  | nil => rfl
  | cons n symbols ih =>
      rw [List.map_cons, List.mapM_cons, binaryFromBase64_base64Char (h n List.mem_cons_self),
        ih fun m hm => h m (List.mem_cons_of_mem n hm)]
      rfl

theorem mapM_padding (k : Nat) :
    (List.replicate k 61).mapM binaryFromBase64 = some (List.replicate k 0) := by
  induction k with
  | zero => rfl
  | succ k ih =>
      rw [List.replicate_succ, List.mapM_cons, ih]
      rfl

/-- The decoder's iterators read the symbols of the text and a zero for each padding
character. -/
theorem mapM_encode64 (s : StdString) :
    (encode64 s).mapM binaryFromBase64 =
      some (sextets s ++ List.replicate ((3 - s.length % 3) % 3) 0) := by
  rw [encode64, List.mapM_append, mapM_map_base64Char fun n => lt_of_mem_sextets, mapM_padding]
  rfl

/-! ### Bytes -/

theorem ofNat_eq_of_toNat {n : Nat} {a : UInt8} (h : n = a.toNat) : UInt8.ofNat n = a := by
  rw [h, UInt8.ofNat_toNat]

/-- Regrouping the symbols, filled up to whole groups of four, gives the text and a zero byte
for each symbol filled in. -/
theorem octets_sextets (s : StdString) :
    octets (sextets s ++ List.replicate ((3 - s.length % 3) % 3) 0) =
      s ++ List.replicate ((3 - s.length % 3) % 3) 0 := by
  have hbyte : ∀ a : UInt8, a.toNat < 256 := UInt8.toNat_lt
  -- one case for each number of bytes in the last group
  fun_induction sextets s with
  | case1 => rfl
  | case2 a =>
      have ha := hbyte a
      have h0 : UInt8.ofNat (a.toNat / 4 * 4 + a.toNat % 4 * 16 / 16) = a :=
        ofNat_eq_of_toNat (by omega)
      have h1 : UInt8.ofNat (a.toNat % 4 * 16 % 16 * 16 + 0 / 4) = 0 :=
        ofNat_eq_of_toNat (by rw [UInt8.toNat_zero]; omega)
      show [_, _, UInt8.ofNat (0 % 4 * 64 + 0)] = [a, 0, 0]
      rw [h0, h1]
      rfl
  | case3 a b =>
      have ha := hbyte a
      have hb := hbyte b
      have h0 : UInt8.ofNat (a.toNat / 4 * 4 + (a.toNat % 4 * 16 + b.toNat / 16) / 16) = a :=
        ofNat_eq_of_toNat (by omega)
      have h1 : UInt8.ofNat
          ((a.toNat % 4 * 16 + b.toNat / 16) % 16 * 16 + b.toNat % 16 * 4 / 4) = b :=
        ofNat_eq_of_toNat (by omega)
      have h2 : UInt8.ofNat (b.toNat % 16 * 4 % 4 * 64 + 0) = 0 :=
        ofNat_eq_of_toNat (by rw [UInt8.toNat_zero]; omega)
      show [_, _, _] = [a, b, 0]
      rw [h0, h1, h2]
  | case4 a b c s ih =>
      have ha := hbyte a
      have hb := hbyte b
      have hc := hbyte c
      have h0 : UInt8.ofNat (a.toNat / 4 * 4 + (a.toNat % 4 * 16 + b.toNat / 16) / 16) = a :=
        ofNat_eq_of_toNat (by omega)
      have h1 : UInt8.ofNat ((a.toNat % 4 * 16 + b.toNat / 16) % 16 * 16 +
          (b.toNat % 16 * 4 + c.toNat / 64) / 4) = b :=
        ofNat_eq_of_toNat (by omega)
      have h2 : UInt8.ofNat ((b.toNat % 16 * 4 + c.toNat / 64) % 4 * 64 + c.toNat % 64) = c :=
        ofNat_eq_of_toNat (by omega)
      have hlen : (a :: b :: c :: s).length % 3 = s.length % 3 := by
        simp only [List.length_cons]
        omega
      rw [hlen, List.cons_append, List.cons_append, List.cons_append, List.cons_append, octets,
        h0, h1, h2, ih]
      rfl

theorem trimRightNul_append_replicate (s : StdString) (k : Nat) :
    trimRightNul (s ++ List.replicate k 0) = trimRightNul s := by
  induction k with
  | zero => rw [List.replicate_zero, List.append_nil]
  | succ k ih =>
      rw [List.replicate_succ', ← List.append_assoc, trimRightNul,
        List.rdropWhile_concat_pos _ _ _ rfl]
      exact ih

theorem trimRightNul_eq_self_iff {s : StdString} : trimRightNul s = s ↔ s.getLast? ≠ some 0 := by
  rw [trimRightNul, List.rdropWhile_eq_self_iff]
  cases s using List.reverseRecOn with
  | nil => simp
  | append_singleton s c => simp

/-! ### Round trip -/

/-- What comes back is the text without the zero bytes at its end. -/
theorem decode64_encode64 (s : StdString) : decode64 (encode64 s) = some (trimRightNul s) := by
  rw [decode64, mapM_encode64, Option.map_some, octets_sextets, trimRightNul_append_replicate]

/-- **The round trip.** A text comes back exactly if it does not end in a zero byte. -/
theorem decode64_encode64_iff (s : StdString) :
    decode64 (encode64 s) = some s ↔ s.getLast? ≠ some 0 := by
  rw [decode64_encode64, Option.some_inj, trimRightNul_eq_self_iff]

/-- A single zero byte is lost. -/
theorem decode64_loses_nul :
    encode64 [0] = lit "AA==" ∧ decode64 (encode64 [0]) = some [] ∧
      decode64 (encode64 [0]) ≠ some [0] := by
  decide

end CLabs.Sniffer
