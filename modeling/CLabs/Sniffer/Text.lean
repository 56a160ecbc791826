import CLabs.Lib.MachineInt
import CLabs.Tcp.Stream
import Mathlib.Data.List.Lex

/-!
# CLabs.Sniffer.Text

The string operations of `sniffer.cpp`. A `std::string` holds bytes, and the bytes
here come from the network, so it is modelled as a list of bytes; `std::map` orders
such keys lexicographically, as the order on lists does.

The library functions the sniffer uses on strings (`find`, `substr`, `boost::trim`,
the formatting of numbers and addresses, the base64 iterators) are written out.
-/

namespace CLabs.Sniffer

open CLabs.Tcp

/-- `std::string`. -/
abbrev StdString := List UInt8

/-- A string literal of the source. -/
def lit (s : String) : StdString := s.toList.map fun c => UInt8.ofNat c.toNat

/-! ### Searching -/

/-- First position at which `sub` starts in `s`, counting from `pos`. -/
def findFrom (sub : StdString) : StdString → Nat → Option Nat
  | [], pos => if sub.isEmpty then some pos else none
  | c :: s, pos => if sub.isPrefixOf (c :: s) then some pos else findFrom sub s (pos + 1)

/-- `s.find(sub, pos)`; `none` is `std::string::npos`. -/
def find (s sub : StdString) (pos : Nat) : Option Nat :=
  if pos ≤ s.length then findFrom sub (s.drop pos) pos else none

/-- `s.substr(pos, count)`, for a `pos` within the string. -/
def substr (s : StdString) (pos count : Nat) : StdString := (s.drop pos).take count

theorem findFrom_eq_some_iff {sub s : StdString} {pos p : Nat} :
    findFrom sub s pos = some p ↔
      ∃ k, p = pos + k ∧ k ≤ s.length ∧ sub <+: s.drop k ∧ ∀ j < k, ¬ sub <+: s.drop j := by
  induction s generalizing pos with
  | nil =>
      rw [findFrom]
      cases sub with
      | nil => simp [eq_comm]
      | cons c sub => simp
  | cons c s ih =>
      rw [findFrom]
      by_cases hhead : sub.isPrefixOf (c :: s)
      · have hzero : sub <+: (c :: s).drop 0 := List.isPrefixOf_iff_prefix.mp hhead
        rw [if_pos hhead]
        constructor
        · intro h
          exact ⟨0, (Option.some.inj h).symm, Nat.zero_le _, hzero, fun j hj => absurd hj (by simp)⟩
        · rintro ⟨k, rfl, -, -, hbefore⟩
          cases k with
          | zero => rfl
          | succ k => exact absurd hzero (hbefore 0 k.succ_pos)
      · have hzero : ¬ sub <+: (c :: s).drop 0 := mt List.isPrefixOf_iff_prefix.mpr hhead
        rw [if_neg hhead, ih]
        constructor
        · rintro ⟨k, rfl, hk, hsub, hbefore⟩
          refine ⟨k + 1, by omega, Nat.succ_le_succ hk, hsub, fun j hj => ?_⟩
          cases j with
          | zero => exact hzero
          | succ j => exact hbefore j (Nat.lt_of_succ_lt_succ hj)
        · rintro ⟨k, rfl, hk, hsub, hbefore⟩
          cases k with
          | zero => exact absurd hsub hzero
          | succ k =>
              exact ⟨k, by omega, Nat.le_of_succ_le_succ hk, hsub,
                fun j hj => hbefore (j + 1) (Nat.succ_lt_succ hj)⟩

/-- `find` gives the first occurrence. -/
theorem find_eq_some_iff {s sub : StdString} {pos p : Nat} :
    find s sub pos = some p ↔
      (pos ≤ p ∧ p ≤ s.length) ∧ sub <+: s.drop p ∧
        ∀ q, pos ≤ q → q < p → ¬ sub <+: s.drop q := by
  unfold find
  by_cases hpos : pos ≤ s.length
  · rw [if_pos hpos, findFrom_eq_some_iff]
    simp only [List.drop_drop, List.length_drop]
    constructor
    · rintro ⟨k, rfl, hk, hsub, hbefore⟩
      refine ⟨by omega, hsub, fun q hq hlt => ?_⟩
      have hj := hbefore (q - pos) (by omega)
      rwa [show pos + (q - pos) = q by omega] at hj
    · rintro ⟨hp, hsub, hbefore⟩
      refine ⟨p - pos, by omega, by omega, ?_, fun j hj => hbefore (pos + j) (by omega) (by omega)⟩
      rwa [show pos + (p - pos) = p by omega]
  · rw [if_neg hpos]
    refine iff_of_false (by simp) fun h => ?_
    omega

/-- `find` gives nothing only if there is no occurrence. -/
theorem find_eq_none_iff {s sub : StdString} (hsub : sub ≠ []) {pos : Nat} :
    find s sub pos = none ↔ ∀ p, pos ≤ p → ¬ sub <+: s.drop p := by
  constructor
  · intro hnone p hp hoccurs
    -- there is a first occurrence if there is one
    have hexists : ∃ p, pos ≤ p ∧ sub <+: s.drop p := ⟨p, hp, hoccurs⟩
    obtain ⟨hle, hfirst⟩ := Nat.find_spec hexists
    have hlen : Nat.find hexists ≤ s.length := by
      by_contra hbeyond
      rw [List.drop_of_length_le (by omega), List.prefix_nil] at hfirst
      exact hsub hfirst
    have hsome := find_eq_some_iff.mpr ⟨⟨hle, hlen⟩, hfirst, fun q hq hlt hoccurs =>
      Nat.find_min hexists hlt ⟨hq, hoccurs⟩⟩
    rw [hnone] at hsome
    exact absurd hsome (by simp)
  · intro hall
    rw [Option.eq_none_iff_forall_ne_some]
    intro p hp
    obtain ⟨⟨hle, -⟩, hoccurs, -⟩ := find_eq_some_iff.mp hp
    exact hall p hle hoccurs

/-- `isspace` in the classic locale. -/
def isSpace (c : UInt8) : Bool := c == 32 || (9 ≤ c && c ≤ 13)

/-- `boost::trim`. -/
def trim (s : StdString) : StdString :=
  ((s.dropWhile isSpace).reverse.dropWhile isSpace).reverse

/-! ### Formatting -/

/-- A number in decimal. -/
def decimal (n : Nat) : StdString := (Nat.toDigits 10 n).map fun c => UInt8.ofNat c.toNat

/-- `IPv4Address::to_string`: the four bytes, most significant first. -/
def addrToString (addr : UInt32) : StdString :=
  let byte (mask : Nat) := decimal (addr.toNat / 2 ^ mask % 256)
  byte 24 ++ lit "." ++ byte 16 ++ lit "." ++ byte 8 ++ lit "." ++ byte 0

/-- `get_id`. -/
def getId (info : StreamInfo) : StdString :=
  addrToString info.clientAddr ++ lit ":" ++ decimal info.clientPort.toNat ++ lit "|" ++
    addrToString info.serverAddr ++ lit ":" ++ decimal info.serverPort.toNat

/-! ### Base64 -/

/-- `transform_width<_, 6, 8>`: the bits in groups of six, most significant first, the
last group filled with zeros. -/
def sextets : StdString → List Nat
  | [] => []
  | [a] => [a.toNat / 4, a.toNat % 4 * 16]
  | [a, b] => [a.toNat / 4, a.toNat % 4 * 16 + b.toNat / 16, b.toNat % 16 * 4]
  | a :: b :: c :: s =>
      a.toNat / 4 :: (a.toNat % 4 * 16 + b.toNat / 16) :: (b.toNat % 16 * 4 + c.toNat / 64) ::
        c.toNat % 64 :: sextets s

/-- The alphabet of `base64_from_binary`. -/
def base64Char (n : Nat) : UInt8 :=
  if n < 26 then UInt8.ofNat (65 + n)
  else if n < 52 then UInt8.ofNat (97 + (n - 26))
  else if n < 62 then UInt8.ofNat (48 + (n - 52))
  else if n = 62 then 43
  else 47

/-- `encode64`. -/
def encode64 (val : StdString) : StdString :=
  (sextets val).map base64Char ++ List.replicate ((3 - val.length % 3) % 3) 61

example : encode64 (lit "/index") = lit "L2luZGV4" := by decide

example : encode64 (lit "/a") = lit "L2E=" := by decide

end CLabs.Sniffer
