import CLabs.Geo.Rgeohash
import CLabs.Lib.Bisect
import CLabs.Lib.Run
import Mathlib.Algebra.Order.Floor.Semifield

/-!
# CLabs.Geo.Strings

The string codec. Eleven characters spell 55 bits; `geohash_decode64` halves the two ranges by
turns along them, longitude first, and encodes the corner that it arrives at. By
`CLabs.Lib.foldl_bisect` the corner is given by two numbers, those that every other bit of the
string spells (`longNumber` and `latNumber`).

Going the other way, `geohash` has only 52 bits to write. Ten characters take 50 of them, and
the eleventh is taken by a shift with a negative amount: it is always the digit 0, and the last
two bits are lost (`number_spelled_chars`). One of the two belongs to the longitude.

`strchr` takes the terminator for a character of the alphabet. A string that ends before its
eleventh character is not refused: the loop goes on behind its end
(`geohashDecode64_rejects_iff`).
-/

namespace CLabs.Geo.Rgeohash

open CLabs.Lib

/-! ### The bits of a string -/

/-- The bits of a digit, as the inner loop of `geohash_decode64` tests them. -/
def digitBits (pos : ℕ) : List Bool := [16, 8, 4, 2, 1].map fun weight => decide (pos &&& weight > 0)

/-- The digit that a character stands for. -/
def digit (c : Char) : ℕ := geoalphabet.idxOf c

/-- The bits that the first eleven characters spell. -/
def spelled (buf : ℕ → Char) : List Bool :=
  (List.range 11).flatMap fun i => digitBits (digit (buf i))

/-- The number of the first eleven characters, five bits each, first character most
significant. -/
def word (buf : ℕ → Char) : ℕ := (List.range 11).foldl (fun n i => n * 32 + digit (buf i)) 0

/-- Every other bit, from the first one on: positions 54, 52, …, 0. -/
def longNumber (buf : ℕ → Char) : ℕ := number (every true (spelled buf))

/-- Every other bit, from the second one on: positions 53, 51, …, 1. -/
def latNumber (buf : ℕ → Char) : ℕ := number (every false (spelled buf))

/-- A buffer that begins with eleven characters of the alphabet. -/
def OverAlphabet (buf : ℕ → Char) : Prop := ∀ i < 11, buf i ∈ geoalphabet

instance (buf : ℕ → Char) : Decidable (OverAlphabet buf) :=
  inferInstanceAs (Decidable (∀ i < 11, buf i ∈ geoalphabet))

theorem strchr_of_mem {s : List Char} {c : Char} (h : c ∈ s) : strchr s c = some (s.idxOf c) := by
  unfold strchr
  induction s with
  | nil => simp at h
  | cons a s ih =>
      rw [List.cons_append, List.idxOf?_cons, List.idxOf_cons]
      by_cases hac : a = c
      · simp [hac]
      · rw [ih ((List.mem_cons.mp h).resolve_left fun heq => hac heq.symm), beq_eq_false_iff_ne.mpr hac]
        simp

theorem number_digitBits : ∀ pos < 32, number (digitBits pos) = pos := by
  decide

theorem length_spelled (buf : ℕ → Char) : (spelled buf).length = 55 := by
  simp [spelled, digitBits, List.length_flatMap]

theorem digit_lt {c : Char} (h : c ∈ geoalphabet) : digit c < 32 := List.idxOf_lt_length_of_mem h

/-- The bits of the characters one after the other are those of the number. -/
theorem number_spelled {buf : ℕ → Char} (h : OverAlphabet buf) :
    number (spelled buf) = word buf := by
  have hprefix : ∀ k ≤ 11, number ((List.range k).flatMap fun i => digitBits (digit (buf i))) =
      (List.range k).foldl (fun n i => n * 32 + digit (buf i)) 0 := by
    intro k hk
    induction k with
    | zero => rfl
    | succ k ih =>
        rw [List.range_succ, List.flatMap_append, List.flatMap_singleton, number_append,
          ih (by omega), number_digitBits _ (digit_lt (h k hk)), List.foldl_append]
        rfl
  exact hprefix 11 (le_refl 11)

theorem longNumber_lt (buf : ℕ → Char) : longNumber buf < 2 ^ 28 := by
  have h := number_lt (every true (spelled buf))
  rwa [(length_every _).1, length_spelled] at h

theorem latNumber_lt (buf : ℕ → Char) : latNumber buf < 2 ^ 27 := by
  have h := number_lt (every false (spelled buf))
  rwa [(length_every _).2, length_spelled] at h

theorem testBit_longNumber (buf : ℕ → Char) (i : ℕ) :
    (longNumber buf).testBit i = (number (spelled buf)).testBit (2 * i) :=
  (testBit_number_every (by rw [length_spelled]) i).1

theorem testBit_latNumber (buf : ℕ → Char) (i : ℕ) :
    (latNumber buf).testBit i = (number (spelled buf)).testBit (2 * i + 1) :=
  (testBit_number_every (by rw [length_spelled]) i).2

/-- A number below `2 ^ n`, by its bits. -/
theorem eq_ofBits {x n : ℕ} (hlt : x < 2 ^ n) {f : ℕ → Bool} (h : ∀ i, x.testBit i = f i) :
    x = Nat.ofBits fun i : Fin n => f i := by
  refine Nat.eq_of_testBit_eq fun i => ?_
  by_cases hi : i < n
  · rw [Nat.testBit_ofBits_lt _ _ hi, h]
  · rw [Nat.testBit_ofBits_ge _ _ (not_lt.mp hi)]
    exact Nat.testBit_lt_two_pow (hlt.trans_le (Nat.pow_le_pow_right (by decide) (not_lt.mp hi)))

theorem longNumber_eq {buf : ℕ → Char} (h : OverAlphabet buf) :
    longNumber buf = Nat.ofBits fun i : Fin 28 => (word buf).testBit (2 * i) := by
  refine eq_ofBits (longNumber_lt buf) (f := fun i => (word buf).testBit (2 * i)) fun i => ?_
  rw [testBit_longNumber, number_spelled h]

theorem latNumber_eq {buf : ℕ → Char} (h : OverAlphabet buf) :
    latNumber buf = Nat.ofBits fun i : Fin 27 => (word buf).testBit (2 * i + 1) := by
  refine eq_ofBits (latNumber_lt buf) (f := fun i => (word buf).testBit (2 * i + 1)) fun i => ?_
  rw [testBit_latNumber, number_spelled h]

/-! ### Halving along a string -/

theorem Coords.decodeChar_eq (c : Coords) (pos : ℕ) :
    c.decodeChar pos = (digitBits pos).foldl Coords.narrow c :=
  List.foldl_map.symm

/-- Each interval is halved along the bits of its turns. -/
theorem Coords.foldl_narrow (l : List Bool) (c : Coords) :
    (l.foldl Coords.narrow c).long = (every c.flip l).foldl Span.bisect c.long ∧
      (l.foldl Coords.narrow c).lat = (every (!c.flip) l).foldl Span.bisect c.lat := by
  induction l generalizing c with
  | nil => exact ⟨rfl, rfl⟩
  | cons bit l ih =>
      obtain ⟨lat, long, flip⟩ := c
      rw [List.foldl_cons]
      cases flip with
      | true => exact ih _
      | false => exact ih _

/-- The loops of `geohash_decode64` on a string over the alphabet. -/
theorem bisection_eq {buf : ℕ → Char} (h : OverAlphabet buf) :
    bisection buf = some ((spelled buf).foldl Coords.narrow .world) := by
  have hchar : ∀ c : Coords, ∀ i ∈ List.range 11, (strchr geoalphabet (buf i)).map c.decodeChar =
      some ((digitBits (digit (buf i))).foldl Coords.narrow c) := by
    intro c i hi
    rw [strchr_of_mem (h i (List.mem_range.mp hi)), Option.map_some, c.decodeChar_eq, digit]
  rw [bisection, foldlM_eq_foldl hchar, spelled, List.foldl_flatMap]

/-- The latitudes of the string codec. -/
def stringLatRange : GeoHashRange := ⟨-90, 90⟩

theorem stringLatRange_lt : stringLatRange.min < stringLatRange.max := by
  norm_num [stringLatRange]

/-- The loops end with the cell of the string in each range. -/
theorem bisection_cells {buf : ℕ → Char} (h : OverAlphabet buf) :
    ∃ c, bisection buf = some c ∧
      c.long = ⟨longRange.point 28 (longNumber buf), longRange.point 28 (longNumber buf + 1)⟩ ∧
      c.lat = ⟨stringLatRange.point 27 (latNumber buf),
        stringLatRange.point 27 (latNumber buf + 1)⟩ := by
  obtain ⟨hlong, hlat⟩ := Coords.foldl_narrow (spelled buf) .world
  rw [foldl_bisect, show Coords.world.flip = true from rfl, (length_every _).1,
    length_spelled] at hlong
  rw [foldl_bisect, show (!Coords.world.flip) = false from rfl, (length_every _).2,
    length_spelled] at hlat
  exact ⟨_, bisection_eq h, hlong, hlat⟩

/-- What `geohash_decode64` encodes: the lower corner of the cell of the string. -/
theorem geohashDecode64Call_eq {buf : ℕ → Char} (h : OverAlphabet buf) (h₀ : GeoHashBits) :
    geohashDecode64Call h₀ buf =
      some (geohashEncodeWGS84 (longRange.point 28 (longNumber buf))
        (stringLatRange.point 27 (latNumber buf)) GEO_STEP_MAX h₀) := by
  obtain ⟨c, hc, hlong, hlat⟩ := bisection_cells h
  rw [geohashDecode64Call, hc, Option.map_some, hlong, hlat]

theorem longRange_point (n : ℕ) (t : ℚ) : longRange.point n t = -180 + 360 * t / 2 ^ n := by
  unfold Span.point longRange GEO_LONG_MIN GEO_LONG_MAX
  ring

theorem stringLatRange_point (n : ℕ) (t : ℚ) :
    stringLatRange.point n t = -90 + 180 * t / 2 ^ n := by
  unfold Span.point stringLatRange
  ring

theorem longNumber_point (buf : ℕ → Char) : |longRange.point 28 (longNumber buf : ℚ)| ≤ 180 := by
  have hlt : (longNumber buf : ℚ) ≤ 2 ^ 28 := by exact_mod_cast (longNumber_lt buf).le
  exact abs_le.mpr ⟨Span.min_le_point longRange_lt (Nat.cast_nonneg _),
    Span.point_le_max longRange_lt hlt⟩

/-! ### Ignored statuses -/

/-- The last call to `geohashEncode` returns 1, and what is read is what it wrote, whatever the
structure held before. -/
def Written (call : GeoHashBits → Option (Bool × GeoHashBits)) : Prop :=
  ∃ hash, ∀ h, call h = some (true, hash)

/-- A wrapper that drops the status of a call which fails outside of the limits. -/
theorem written_iff {call : GeoHashBits → Option (Bool × GeoHashBits)} {longitude latitude : ℚ}
    (hlon : |longitude| ≤ 180) (hyes : Supported longitude latitude → Written call)
    (hno : ¬ Supported longitude latitude → ∀ h, call h = some (false, h)) :
    Written call ↔ |latitude| ≤ 85.05112878 := by
  constructor
  · intro ⟨hash, hcall⟩
    by_contra hlat
    have hfalse := hno (fun h => hlat h.2) hash
    rw [hcall hash] at hfalse
    simp at hfalse
  · intro hlat
    exact hyes ⟨hlon, hlat⟩

theorem written_of_wgs84 {call : GeoHashBits → Option (Bool × GeoHashBits)}
    {longitude latitude : ℚ} (hlon : |longitude| ≤ 180)
    (hcall : ∀ h, call h = some (geohashEncodeWGS84 longitude latitude GEO_STEP_MAX h)) :
    Written call ↔ |latitude| ≤ 85.05112878 := by
  refine written_iff hlon (fun hyes => ?_) fun hno h => ?_
  · exact ⟨_, fun h => (hcall h).trans (congrArg some (geohashEncodeWGS84_supported hyes h))⟩
  · rw [hcall, geohashEncodeWGS84_unsupported hno]

/-- The structure that `geohash` reads for a supported point. -/
theorem geohashCall_supported {longitude latitude : ℚ} (h : Supported longitude latitude)
    (h₀ : GeoHashBits) :
    geohashCall h₀ longitude latitude =
      some (true, ⟨interleave64 (toUInt32 (stringLatRange.offset latitude 26))
        (toUInt32 (longRange.offset longitude 26)), 26⟩) := by
  have hlat : |latitude| ≤ 90 := h.2.trans (by norm_num)
  unfold geohashCall
  rw [rejects_eq_false h.1 hlat, if_neg Bool.false_ne_true]
  show some (geohashEncode longRange stringLatRange longitude latitude 26 _) = _
  rw [geohashEncode_supported h (by decide) (by decide) longRange_lt stringLatRange_lt
    (abs_le.mp h.1) (abs_le.mp hlat)]

/-- For other points that it admits, `geohash` reads what the structure held before. -/
theorem geohashCall_unsupported {longitude latitude : ℚ} (hlon : |longitude| ≤ 180)
    (hlat : |latitude| ≤ 90) (h : ¬ Supported longitude latitude) (h₀ : GeoHashBits) :
    geohashCall h₀ longitude latitude = some (false, h₀) := by
  unfold geohashCall
  rw [rejects_eq_false hlon hlat, if_neg Bool.false_ne_true]
  simp only [geohashEncodeWGS84_unsupported h, geohashEncode_unsupported h]

/-- The statuses that the wrappers drop are 1 exactly inside the limits of `geohashEncode`: for
the two encoders a limit on the latitude, for `geohash_decode64` a limit on the number that the
latitude bits of the string spell. -/
theorem wrappers_encode_iff {longitude latitude : ℚ} (hlon : |longitude| ≤ 180)
    (hlat : |latitude| ≤ 90) {buf : ℕ → Char} (hbuf : OverAlphabet buf) :
    (Written (fun h => geohashCall h longitude latitude) ↔ |latitude| ≤ 85.05112878) ∧
    (Written (fun h => geohash64Call h longitude latitude) ↔ |latitude| ≤ 85.05112878) ∧
    (Written (fun h => geohashDecode64Call h buf) ↔
      |-90 + 180 * (latNumber buf : ℚ) / 2 ^ 27| ≤ 85.05112878) := by
  refine ⟨?_, ?_, ?_⟩
  · exact written_iff hlon (fun h => ⟨_, geohashCall_supported h⟩)
      (geohashCall_unsupported hlon hlat)
  · exact written_of_wgs84 hlon (geohash64Call_admitted hlon hlat)
  · rw [← stringLatRange_point]
    exact written_of_wgs84 (longNumber_point buf) (geohashDecode64Call_eq hbuf)

/-- The hypotheses can be met: a point inside the limit, and a string outside of it. -/
theorem wrappers_encode_iff_cases :
    Written (fun h => geohashCall h 10 85) ∧ Written (fun h => geohash64Call h 10 85) ∧
      ¬ Written (fun h => geohashDecode64Call h (memory (List.replicate 11 '0'))) := by
  obtain ⟨hgeohash, hgeohash64, hdecode64⟩ := wrappers_encode_iff
    (show |(10 : ℚ)| ≤ 180 by norm_num) (show |(85 : ℚ)| ≤ 90 by norm_num)
    (show OverAlphabet (memory (List.replicate 11 '0')) by decide)
  refine ⟨hgeohash.mpr (by norm_num), hgeohash64.mpr (by norm_num), ?_⟩
  rw [hdecode64, show latNumber (memory (List.replicate 11 '0')) = 0 by decide]
  norm_num

/-- **A value is read that nothing wrote.** The north pole passes the test of `geohash64`, and
eleven zeros spell the south pole. `geohashEncode` refuses both, and what is returned is what
the structure on the stack held. -/
theorem pole_reads_uninitialised :
    |(0 : ℚ)| ≤ 180 ∧ |(90 : ℚ)| ≤ 90 ∧ OverAlphabet (memory (List.replicate 11 '0')) ∧
      ∀ h, geohash64Call h 0 90 = some (false, h) ∧ geohash64 h 0 90 = geohashAlign52Bits h ∧
        geohashDecode64Call h (memory (List.replicate 11 '0')) = some (false, h) := by
  have hlon : |(0 : ℚ)| ≤ 180 := by norm_num
  have hlat : |(90 : ℚ)| ≤ 90 := by norm_num
  have hzeros : OverAlphabet (memory (List.replicate 11 '0')) := by decide
  refine ⟨hlon, hlat, hzeros, fun h => ?_⟩
  have hnorth : geohash64Call h 0 90 = some (false, h) := by
    rw [geohash64Call_admitted hlon hlat, geohashEncodeWGS84_unsupported (by norm_num [Supported])]
  refine ⟨hnorth, by rw [geohash64, hnorth, aligned], ?_⟩
  rw [geohashDecode64Call_eq hzeros, geohashEncodeWGS84_unsupported]
  rw [show latNumber (memory (List.replicate 11 '0')) = 0 by decide]
  norm_num [Supported, Span.point, stringLatRange]

/-! ### The two codecs -/

theorem digit_memory : ∀ k < 32, digit (memory geoalphabet k) = k := by
  decide

theorem memory_mem : ∀ k < 32, memory geoalphabet k ∈ geoalphabet := by
  decide

theorem charIndex_lt (bits : BitVec 64) (i : ℕ) : charIndex bits i < 32 := by
  rw [charIndex, BitVec.toNat_and]
  exact Nat.and_lt_two_pow _ (n := 5) (by decide)

theorem memory_chars (bits : BitVec 64) {i : ℕ} (hi : i < 11) :
    memory (chars bits) i = memory geoalphabet (charIndex bits i) := by
  rw [memory, chars, List.getD_eq_getElem _ _ (by simpa using hi)]
  simp

theorem overAlphabet_chars (bits : BitVec 64) : OverAlphabet (memory (chars bits)) := by
  intro i hi
  rw [memory_chars bits hi]
  exact memory_mem _ (charIndex_lt bits i)

/-- The first ten characters take five bits each, from the top of the 52 down. -/
theorem charIndex_eq (bits : BitVec 64) {i : ℕ} (hi : i < 10) :
    charIndex bits i = bits.toNat / 2 ^ (47 - 5 * i) % 32 := by
  have hshift : ((52 - ((i : ℤ) + 1) * 5) % 64).toNat = 47 - 5 * i := by omega
  rw [charIndex, shr64, hshift, BitVec.toNat_and, BitVec.toNat_ushiftRight,
    Nat.shiftRight_eq_div_pow]
  exact Nat.and_two_pow_sub_one_eq_mod _ 5

/-- The eleventh is taken by a shift of -3, which is one of 61. -/
theorem charIndex_last {bits : BitVec 64} (h : bits.toNat < 2 ^ 52) : charIndex bits 10 = 0 := by
  have hzero : bits >>> 61 = 0 := by
    apply BitVec.eq_of_toNat_eq
    rw [BitVec.toNat_ushiftRight, Nat.shiftRight_eq_div_pow]
    exact Nat.div_eq_of_lt (h.trans (by decide))
  show ((bits >>> 61) &&& 0x1f).toNat = 0
  rw [hzero]
  rfl

theorem number_charIndex {bits : BitVec 64} (h : bits.toNat < 2 ^ 52) {k : ℕ} (hk : k ≤ 10) :
    number ((List.range k).flatMap fun i => digitBits (charIndex bits i)) =
      bits.toNat / 2 ^ (52 - 5 * k) := by
  induction k with
  | zero => exact (Nat.div_eq_of_lt h).symm
  | succ k ih =>
      have hpow : 2 ^ (52 - 5 * k) = 2 ^ (52 - 5 * (k + 1)) * 32 := by
        rw [show 52 - 5 * k = 52 - 5 * (k + 1) + 5 by omega, Nat.pow_add]
      rw [List.range_succ, List.flatMap_append, number_append, ih (by omega),
        List.flatMap_singleton, number_digitBits _ (charIndex_lt bits k), charIndex_eq bits (by omega),
        show 47 - 5 * k = 52 - 5 * (k + 1) by omega, hpow, ← Nat.div_div_eq_div_mul]
      exact Nat.div_add_mod' _ 32

/-- **What a string keeps of a hash.** The last two bits are lost. -/
theorem number_spelled_chars {bits : BitVec 64} (h : bits.toNat < 2 ^ 52) :
    number (spelled (memory (chars bits))) = bits.toNat / 2 ^ 2 * 2 ^ 5 := by
  have hspelled : spelled (memory (chars bits)) =
      (List.range 11).flatMap fun i => digitBits (charIndex bits i) := by
    refine List.flatMap_congr fun i hi => ?_
    rw [memory_chars bits (List.mem_range.mp hi), digit_memory _ (charIndex_lt bits i)]
  rw [hspelled, List.range_succ, List.flatMap_append, number_append,
    number_charIndex h (le_refl 10), List.flatMap_singleton, charIndex_last h]
  rfl

theorem testBit_div_mul (x m n i : ℕ) :
    (x / 2 ^ m * 2 ^ n).testBit i = (decide (n ≤ i) && x.testBit (i - n + m)) := by
  rw [Nat.testBit_mul_two_pow, Nat.testBit_div_two_pow]

/-- The string has the longitude's cell, but for its last bit, and three zeros. -/
theorem longNumber_chars {bits : BitVec 64} (h : bits.toNat < 2 ^ 52) :
    longNumber (memory (chars bits)) = (ilono bits).toNat / 2 ^ 1 * 2 ^ 3 := by
  refine Nat.eq_of_testBit_eq fun i => ?_
  rw [testBit_longNumber, number_spelled_chars h, testBit_div_mul, testBit_div_mul, testBit_ilono]
  by_cases hi : 3 ≤ i
  · rw [show 2 * i - 5 + 2 = 2 * (i - 3 + 1) + 1 by omega]
    simp [hi, show 5 ≤ 2 * i by omega]
  · simp [hi, show ¬ 5 ≤ 2 * i by omega]

/-- The string has the latitude's cell, but for its last bit, and two zeros. -/
theorem latNumber_chars {bits : BitVec 64} (h : bits.toNat < 2 ^ 52) :
    latNumber (memory (chars bits)) = (ilato bits).toNat / 2 ^ 1 * 2 ^ 2 := by
  refine Nat.eq_of_testBit_eq fun i => ?_
  rw [testBit_latNumber, number_spelled_chars h, testBit_div_mul, testBit_div_mul, testBit_ilato]
  by_cases hi : 2 ≤ i
  · rw [show 2 * i + 1 - 5 + 2 = 2 * (i - 2 + 1) by omega]
    simp [hi, show 5 ≤ 2 * i + 1 by omega]
  · simp [hi, show ¬ 5 ≤ 2 * i + 1 by omega]

/-- The longitude bits of what `geohash_decode64` returns. -/
theorem geohashDecode64_odd {buf : ℕ → Char} (h : OverAlphabet buf)
    (hlat : |stringLatRange.point 27 (latNumber buf : ℚ)| ≤ 85.05112878) (h₀ : GeoHashBits) {i : ℕ}
    (hi : i < 32) :
    (geohashDecode64 h₀ buf).getLsbD (2 * i + 1) = (longNumber buf / 2 ^ 2).testBit i := by
  have hcell : toUInt32 (longRange.offset (longRange.point 28 (longNumber buf : ℚ)) 26) =
      BitVec.ofNat 32 (longNumber buf / 2 ^ 2) := by
    have hdiv : (longNumber buf : ℚ) / 2 ^ 28 * 2 ^ 26 = (longNumber buf : ℚ) / (2 ^ 2 : ℕ) := by
      push_cast
      ring
    rw [Span.offset_point longRange_lt, hdiv, toUInt32, Nat.floor_div_eq_div]
  rw [geohashDecode64, geohashDecode64Call_eq h,
    geohashEncodeWGS84_supported ⟨longNumber_point buf, hlat⟩]
  show (geohashAlign52Bits _).getLsbD (2 * i + 1) = _
  rw [geohashAlign52Bits_step, interleave64_odd _ _ hi, hcell, BitVec.getLsbD_ofNat]
  simp [hi]

/-- **The bits that a string spells** are the bits that the loops follow, and all but the last two
of the longitude's are in the value returned. -/
theorem geohashDecode64_reads {buf : ℕ → Char} (h : OverAlphabet buf) {a b : ℕ}
    (ha : a = Nat.ofBits fun i : Fin 28 => (word buf).testBit (2 * i))
    (hb : b = Nat.ofBits fun i : Fin 27 => (word buf).testBit (2 * i + 1)) :
    ∃ c, bisection buf = some c ∧
      c.long = ⟨-180 + 360 * a / 2 ^ 28, -180 + 360 * (a + 1) / 2 ^ 28⟩ ∧
      c.lat = ⟨-90 + 180 * b / 2 ^ 27, -90 + 180 * (b + 1) / 2 ^ 27⟩ ∧
      (|c.lat.min| ≤ 85.05112878 → ∀ h₀, ∀ i < 32,
        (geohashDecode64 h₀ buf).getLsbD (2 * i + 1) = (a >>> 2).testBit i) := by
  obtain ⟨c, hc, hlong, hlat⟩ := bisection_cells h
  rw [← longNumber_eq h] at ha
  rw [← latNumber_eq h] at hb
  subst ha hb
  refine ⟨c, hc, ?_, ?_, fun hsupported h₀ i hi => ?_⟩
  · rw [hlong, longRange_point, longRange_point]
  · rw [hlat, stringLatRange_point, stringLatRange_point]
  · rw [hlat] at hsupported
    rw [geohashDecode64_odd h hsupported h₀ hi, Nat.shiftRight_eq_div_pow]

/-- The hypotheses can be met: a string with the cell northeast of the origin. -/
theorem geohashDecode64_reads_origin :
    OverAlphabet (memory ('s' :: List.replicate 10 '0')) ∧
      ∀ h₀, (geohashDecode64 h₀ (memory ('s' :: List.replicate 10 '0'))).getLsbD 51 = true := by
  have hbuf : OverAlphabet (memory ('s' :: List.replicate 10 '0')) := by decide
  have ha : 2 ^ 27 = Nat.ofBits fun i : Fin 28 =>
      (word (memory ('s' :: List.replicate 10 '0'))).testBit (2 * i) := by decide +kernel
  have hb : 2 ^ 26 = Nat.ofBits fun i : Fin 27 =>
      (word (memory ('s' :: List.replicate 10 '0'))).testBit (2 * i + 1) := by decide +kernel
  obtain ⟨c, -, -, hlat, hbits⟩ := geohashDecode64_reads hbuf ha hb
  refine ⟨hbuf, fun h₀ => hbits ?_ h₀ 25 (by decide)⟩
  rw [hlat]
  norm_num

/-- Those of what `geohash64` returns. -/
theorem geohash64_odd {longitude latitude : ℚ} (h : Supported longitude latitude) (h₀ : GeoHashBits)
    {i : ℕ} (hi : i < 32) :
    (geohash64 h₀ longitude latitude).getLsbD (2 * i + 1) =
      ⌊longRange.offset longitude 26⌋₊.testBit i := by
  rw [geohash64_eq h, interleave64_odd _ _ hi, toUInt32, BitVec.getLsbD_ofNat]
  simp [hi]

/-- Cutting a latitude down to a cell of the string moves it by less than the 0.05 degrees that
`geohashEncode` supports beyond 85. -/
theorem string_corner_supported {latitude : ℚ} (hlat : -85 ≤ latitude ∧ latitude ≤ 85) {b : ℕ}
    (hb : b = ⌊stringLatRange.offset latitude 26⌋₊ / 2 ^ 1 * 2 ^ 2) :
    |stringLatRange.point 27 (b : ℚ)| ≤ 85.05112878 := by
  obtain ⟨hlow, hhigh⟩ := hlat
  have hoffset : stringLatRange.offset latitude 26 = (latitude + 90) * 2 ^ 26 / 180 := by
    unfold Span.offset stringLatRange
    ring
  rw [hoffset] at hb
  have hnonneg : 0 ≤ (latitude + 90) * 2 ^ 26 / 180 := by linarith
  have hle := Nat.floor_le hnonneg
  have hlt := Nat.lt_floor_add_one ((latitude + 90) * 2 ^ 26 / 180)
  generalize ⌊(latitude + 90) * 2 ^ 26 / 180⌋₊ = m at hb hle hlt
  have hupper : (b : ℚ) ≤ 2 * m := by exact_mod_cast (show b ≤ 2 * m by omega)
  have hlower : 2 * (m : ℚ) ≤ b + 2 := by exact_mod_cast (show 2 * m ≤ b + 2 by omega)
  rw [stringLatRange_point, abs_le]
  constructor <;> linarith

section

variable {longitude latitude : ℚ} (hlon : -180 ≤ longitude ∧ longitude < 180)
  (hlat : -85 ≤ latitude ∧ latitude ≤ 85)

include hlon hlat

theorem supported_of_mem : Supported longitude latitude :=
  ⟨abs_le.mpr ⟨hlon.1, hlon.2.le⟩, abs_le.mpr ⟨by linarith [hlat.1], by linarith [hlat.2]⟩⟩

/-- The string of a point, decoded: the longitude's cell without its last bit. -/
theorem geohashDecode64_geohash_odd (h h' : GeoHashBits) {i : ℕ} (hi : i < 32) :
    (geohashDecode64 h' (memory (geohash h longitude latitude))).getLsbD (2 * i + 1) =
      (⌊longRange.offset longitude 26⌋₊ / 2 * 2).testBit i := by
  have hlat' : stringLatRange.min ≤ latitude ∧ latitude < stringLatRange.max := by
    rw [stringLatRange]
    constructor <;> linarith [hlat.1, hlat.2]
  rw [geohash, geohashCall_supported (supported_of_mem hlon hlat)]
  show (geohashDecode64 h' (memory (chars _))).getLsbD (2 * i + 1) = _
  generalize hbits : interleave64 (toUInt32 (stringLatRange.offset latitude 26))
    (toUInt32 (longRange.offset longitude 26)) = bits
  obtain ⟨hlonPart, hlatPart, hlt⟩ := hash_of_cells longRange_lt stringLatRange_lt hlon hlat'
    hbits.symm
  have hcorner : latNumber (memory (chars bits)) =
      ⌊stringLatRange.offset latitude 26⌋₊ / 2 ^ 1 * 2 ^ 2 := by
    rw [latNumber_chars hlt, hlatPart]
  rw [geohashDecode64_odd (overAlphabet_chars bits) (string_corner_supported hlat hcorner) h' hi,
    longNumber_chars hlt, hlonPart]
  congr 1
  omega

end

/-- **Where the two codecs agree.** The string loses the last longitude bit: the longitude bits
are the same exactly in the cells with an even number. -/
theorem codecs_agree_iff (h h' h'' : GeoHashBits) {longitude latitude : ℚ}
    (hlon : -180 ≤ longitude ∧ longitude < 180) (hlat : -85 ≤ latitude ∧ latitude ≤ 85) :
    (∀ i < 26, (geohashDecode64 h' (memory (geohash h longitude latitude))).getLsbD (2 * i + 1) =
      (geohash64 h'' longitude latitude).getLsbD (2 * i + 1)) ↔
      Even ⌊(longitude + 180) * 2 ^ 26 / 360⌋₊ := by
  have hcell : longRange.offset longitude 26 = (longitude + 180) * 2 ^ 26 / 360 := by
    unfold Span.offset longRange GEO_LONG_MIN GEO_LONG_MAX
    ring
  rw [← hcell]
  constructor
  · intro hagree
    have hlow := hagree 0 (by decide)
    rw [geohashDecode64_geohash_odd hlon hlat h h' (by decide),
      geohash64_odd (supported_of_mem hlon hlat) h'' (by decide), Nat.testBit_zero, Nat.testBit_zero,
      decide_eq_decide] at hlow
    rw [Nat.even_iff]
    omega
  · intro heven i hi
    rw [geohashDecode64_geohash_odd hlon hlat h h' (by omega),
      geohash64_odd (supported_of_mem hlon hlat) h'' (by omega),
      Nat.div_mul_cancel (even_iff_two_dvd.mp heven)]

/-- The hypotheses can be met: longitude 0 is in an even cell. -/
theorem codecs_agree_iff_zero :
    Even ⌊((0 : ℚ) + 180) * 2 ^ 26 / 360⌋₊ ∧
      (geohashDecode64 ⟨0, 0⟩ (memory (geohash ⟨0, 0⟩ 0 0))).getLsbD 1 =
        (geohash64 ⟨0, 0⟩ 0 0).getLsbD 1 := by
  have heven : Even ⌊((0 : ℚ) + 180) * 2 ^ 26 / 360⌋₊ := by
    rw [show ((0 : ℚ) + 180) * 2 ^ 26 / 360 = (2 ^ 25 : ℕ) by norm_num, Nat.floor_natCast]
    decide
  exact ⟨heven, (codecs_agree_iff ⟨0, 0⟩ ⟨0, 0⟩ ⟨0, 0⟩ (by norm_num) (by norm_num)).mpr heven 0
    (by decide)⟩

/-- **The codecs differ** in the second cell from the west: the integer has the last longitude
bit, the string does not. -/
theorem codecs_differ_in_second_cell :
    (geohashDecode64 ⟨0, 0⟩ (memory (geohash ⟨0, 0⟩ (-180 + 360 / 2 ^ 26) 0))).getLsbD 1 = false ∧
      (geohash64 ⟨0, 0⟩ (-180 + 360 / 2 ^ 26) 0).getLsbD 1 = true := by
  have hlon : -180 ≤ (-180 + 360 / 2 ^ 26 : ℚ) ∧ (-180 + 360 / 2 ^ 26 : ℚ) < 180 := by norm_num
  have hlat : -85 ≤ (0 : ℚ) ∧ (0 : ℚ) ≤ 85 := by norm_num
  have hcell : ⌊longRange.offset (-180 + 360 / 2 ^ 26) 26⌋₊ = 1 := by
    rw [show longRange.offset (-180 + 360 / 2 ^ 26) 26 = (1 : ℕ) by
      norm_num [Span.offset, longRange, GEO_LONG_MIN, GEO_LONG_MAX], Nat.floor_natCast]
  have hstring := geohashDecode64_geohash_odd hlon hlat ⟨0, 0⟩ ⟨0, 0⟩ (i := 0) (by decide)
  have hinteger := geohash64_odd (supported_of_mem hlon hlat) ⟨0, 0⟩ (i := 0) (by decide)
  rw [hcell] at hstring hinteger
  exact ⟨hstring, hinteger⟩

/-! ### Strings that end early -/

/-- The outer loop of `geohash_decode64` with the positions of the buffer that it reads. -/
def scan (buf : ℕ → Char) : List ℕ → Coords → List ℕ × Option Coords
  | [], c => ([], some c)
  | i :: is, c =>
      match strchr geoalphabet (buf i) with
      | none => ([i], none)
      | some pos =>
          let rest := scan buf is (c.decodeChar pos)
          (i :: rest.1, rest.2)

/-- The positions that `geohash_decode64` reads. -/
def bytesRead (buf : ℕ → Char) : List ℕ := (scan buf (List.range 11) .world).1

/-- The memory from the pointer on: a string, its terminator, and anything. -/
def HoldsString (buf : ℕ → Char) (s : List Char) : Prop :=
  NUL ∉ s ∧ ∀ i ≤ s.length, buf i = memory s i

/-- A character that `strchr` finds in the alphabet. -/
def Accepted (c : Char) : Prop := c ∈ geoalphabet ∨ c = NUL

theorem isSome_strchr (c : Char) : (strchr geoalphabet c).isSome ↔ Accepted c := by
  rw [strchr, List.isSome_idxOf?, List.mem_append, List.mem_singleton]
  exact Iff.rfl

/-- The loop with its positions is the loop. -/
theorem scan_snd (buf : ℕ → Char) (is : List ℕ) (c : Coords) :
    (scan buf is c).2 =
      is.foldlM (fun c i => (strchr geoalphabet (buf i)).map c.decodeChar) c := by
  induction is generalizing c with
  | nil => rfl
  | cons i is ih =>
      rw [scan, List.foldlM_cons]
      cases strchr geoalphabet (buf i) with
      | none => rfl
      | some pos => exact ih _

/-- A round reads its position, and goes on if the character is found. -/
theorem mem_scan_cons {buf : ℕ → Char} {p i : ℕ} {is : List ℕ} {c : Coords} :
    p ∈ (scan buf (i :: is) c).1 ↔
      p = i ∨ ∃ pos, strchr geoalphabet (buf i) = some pos ∧ p ∈ (scan buf is (c.decodeChar pos)).1 := by
  rw [scan]
  cases strchr geoalphabet (buf i) with
  | none => simp
  | some pos => simp

/-- The loop arrives at a position if all characters before it are accepted. -/
theorem mem_scan_fst {buf : ℕ → Char} {p : ℕ} (n first : ℕ) (c : Coords) :
    p ∈ (scan buf (List.range' first n) c).1 ↔
      (first ≤ p ∧ p < first + n) ∧ ∀ j < p, first ≤ j → Accepted (buf j) := by
  induction n generalizing first c with
  | zero => simp [scan]
  | succ n ih =>
      rw [List.range'_succ, mem_scan_cons]
      simp only [ih]
      constructor
      · rintro (rfl | ⟨pos, hpos, hp, hbefore⟩)
        · exact ⟨by omega, fun j hj hle => absurd hle (by omega)⟩
        · refine ⟨by omega, fun j hj hle => ?_⟩
          rcases Nat.eq_or_lt_of_le hle with rfl | hlt
          · exact (isSome_strchr _).mp (by simp [hpos])
          · exact hbefore j hj hlt
      · intro ⟨hp, hbefore⟩
        rcases Nat.eq_or_lt_of_le hp.1 with heq | hlt
        · exact .inl heq.symm
        · obtain ⟨pos, hpos⟩ := Option.isSome_iff_exists.mp
            ((isSome_strchr _).mpr (hbefore first hlt (le_refl first)))
          exact .inr ⟨pos, hpos, by omega, fun j hj hle => hbefore j hj (by omega)⟩

theorem mem_bytesRead {buf : ℕ → Char} {p : ℕ} :
    p ∈ bytesRead buf ↔ p < 11 ∧ ∀ j < p, Accepted (buf j) := by
  rw [bytesRead, List.range_eq_range', mem_scan_fst]
  simp

/-- The loop comes to its end if all characters are accepted. -/
theorem scan_snd_isSome {buf : ℕ → Char} (is : List ℕ) (c : Coords) :
    (scan buf is c).2.isSome ↔ ∀ i ∈ is, Accepted (buf i) := by
  induction is generalizing c with
  | nil => simp [scan]
  | cons i is ih =>
      rw [scan, List.forall_mem_cons, ← isSome_strchr]
      cases strchr geoalphabet (buf i) with
      | none => simp
      | some pos => simp [ih]

theorem bisection_isSome {buf : ℕ → Char} :
    (bisection buf).isSome ↔ ∀ i < 11, Accepted (buf i) := by
  rw [bisection, ← scan_snd, scan_snd_isSome]
  simp

/-- The character at a position of a string is not the terminator. -/
theorem HoldsString.accepted_iff {buf : ℕ → Char} {s : List Char} (h : HoldsString buf s) {i : ℕ}
    (hi : i < s.length) : Accepted (buf i) ↔ s[i] ∈ geoalphabet := by
  have hchar : buf i = s[i] := by rw [h.2 i hi.le, memory, List.getD_eq_getElem _ _ hi]
  have hNUL : s[i] ≠ NUL := fun heq => h.1 (heq ▸ List.getElem_mem hi)
  rw [Accepted, hchar]
  exact or_iff_left hNUL

theorem HoldsString.accepted_length {buf : ℕ → Char} {s : List Char} (h : HoldsString buf s) :
    Accepted (buf s.length) := by
  refine .inr ?_
  rw [h.2 _ (le_refl _), memory, List.getD_eq_default _ _ (le_refl _)]

/-- In a string over the alphabet everything up to the terminator is accepted. -/
theorem HoldsString.accepted_of_alphabet {buf : ℕ → Char} {s : List Char} (h : HoldsString buf s)
    (hall : ∀ c ∈ s, c ∈ geoalphabet) {j : ℕ} (hj : j ≤ s.length) : Accepted (buf j) := by
  rcases Nat.eq_or_lt_of_le hj with rfl | hj
  · exact h.accepted_length
  · exact (h.accepted_iff hj).mpr (hall _ (List.getElem_mem hj))

/-- A wrong character ends the loop: no position behind it is read. -/
theorem HoldsString.bytesRead_le {buf : ℕ → Char} {s : List Char} (h : HoldsString buf s)
    (hcond : 11 ≤ s.length ∨ ∃ c ∈ s, c ∉ geoalphabet) {i : ℕ} (hi : i ∈ bytesRead buf) :
    i ≤ s.length := by
  obtain ⟨hlt, hbefore⟩ := mem_bytesRead.mp hi
  rcases hcond with hlong | ⟨c, hc, hmem⟩
  · omega
  · obtain ⟨k, hk, rfl⟩ := List.getElem_of_mem hc
    by_contra hbeyond
    exact hmem ((h.accepted_iff hk).mp (hbefore k (by omega)))

/-- A wrong character among the first eleven is refused. -/
theorem HoldsString.bisection_eq_none {buf : ℕ → Char} {s : List Char} (h : HoldsString buf s)
    (hwrong : ∃ c ∈ s.take 11, c ∉ geoalphabet) : bisection buf = none := by
  obtain ⟨c, hc, hmem⟩ := hwrong
  obtain ⟨k, hk, rfl⟩ := List.getElem_of_mem hc
  rw [List.getElem_take] at hmem
  rw [List.length_take] at hk
  rw [← Option.not_isSome_iff_eq_none, bisection_isSome]
  exact fun hall => hmem ((h.accepted_iff (by omega)).mp (hall k (by omega)))

/-- **What `geohash_decode64` refuses.** It stays within a string, and returns 0 for a string that
is too short or has a wrong character, exactly if the string is long enough or has a wrong
character: a short string over the alphabet is read on from behind its terminator. -/
theorem geohashDecode64_rejects_iff {buf : ℕ → Char} {s : List Char} (h : HoldsString buf s) :
    ((∀ i ∈ bytesRead buf, i ≤ s.length) ∧
      ((s.length < 11 ∨ ∃ c ∈ s.take 11, c ∉ geoalphabet) →
        bisection buf = none ∧ ∀ h₀, geohashDecode64 h₀ buf = 0)) ↔
      11 ≤ s.length ∨ ∃ c ∈ s, c ∉ geoalphabet := by
  constructor
  · intro ⟨hread, hreject⟩
    by_contra hshort
    simp only [not_or, not_le, not_exists, not_and, not_not] at hshort
    obtain ⟨hlt, hall⟩ := hshort
    -- with ten characters the loop ends at the terminator, with fewer it goes on behind it
    by_cases hten : s.length = 10
    · have hsome : (bisection buf).isSome := bisection_isSome.mpr fun i hi =>
        h.accepted_of_alphabet hall (by omega)
      rw [(hreject (.inl (by omega))).1] at hsome
      simp at hsome
    · have hbeyond : s.length + 1 ∈ bytesRead buf :=
        mem_bytesRead.mpr ⟨by omega, fun j hj => h.accepted_of_alphabet hall (by omega)⟩
      exact absurd (hread _ hbeyond) (by omega)
  · intro hcond
    refine ⟨fun i hi => h.bytesRead_le hcond hi, fun hbad => ?_⟩
    have hwrong : ∃ c ∈ s.take 11, c ∉ geoalphabet := by
      rcases hbad with hshort | hwrong
      · rw [List.take_of_length_le hshort.le]
        exact hcond.resolve_left (by omega)
      · exact hwrong
    have hnone := h.bisection_eq_none hwrong
    refine ⟨hnone, fun h₀ => ?_⟩
    rw [geohashDecode64, geohashDecode64Call, hnone]
    rfl

/-- The hypotheses can be met: a short string with a wrong character. -/
theorem geohashDecode64_rejects_iff_wrong :
    bisection (memory ['e', 'z', 'a']) = none ∧
      ∀ h₀, geohashDecode64 h₀ (memory ['e', 'z', 'a']) = 0 :=
  ((geohashDecode64_rejects_iff (s := ['e', 'z', 'a']) ⟨by decide, fun _ _ => rfl⟩).mpr
    (.inr ⟨'a', by decide, by decide⟩)).2 (.inl (by decide))

/-- **A short string is decoded.** Five characters of the alphabet, whose terminator counts as a
digit: all eleven positions are read, and the loops come to their end. -/
theorem short_string_read_beyond :
    HoldsString (memory ['e', 'z', 's', '4', '2']) ['e', 'z', 's', '4', '2'] ∧
      bytesRead (memory ['e', 'z', 's', '4', '2']) = List.range 11 ∧
      (bisection (memory ['e', 'z', 's', '4', '2'])).isSome :=
  ⟨⟨by decide, fun _ _ => rfl⟩, by decide +kernel, by decide +kernel⟩

end CLabs.Geo.Rgeohash
