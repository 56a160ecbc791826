import CLabs.Lib.Bisect
import CLabs.Lib.Interleave

/-!
# CLabs.Geo.Geohash

The model of the codec of `geohash.c`: a point is encoded by the cells that its two
coordinates have in grids of `2 ^ step` cells, with the bits of the two cell numbers
interleaved, latitude in the even positions and longitude in the odd ones.

Design points:

* Doubles are read as exact rationals.
* `geohashEncode` writes through a pointer. The model takes the structure as it is before the
  call and returns it as it is after, together with the status; a call that fails may leave
  it as it was.
* The conversion of a double to `uint32_t` cuts off the fraction (`toUInt32`).

The bit tricks are instances of `CLabs.Lib.Spread`: `interleave64_even` and its three siblings
say which bit goes where, and nothing else about them is used.
-/

namespace CLabs.Geo

open CLabs.Lib

/-! ### Interleaving -/

/-- The lines of `interleave64` for one of its two numbers. -/
def spread64 (x : BitVec 64) : BitVec 64 :=
  let x := (x ||| (x <<< 16)) &&& 0x0000FFFF0000FFFF
  let x := (x ||| (x <<< 8)) &&& 0x00FF00FF00FF00FF
  let x := (x ||| (x <<< 4)) &&& 0x0F0F0F0F0F0F0F0F
  let x := (x ||| (x <<< 2)) &&& 0x3333333333333333
  (x ||| (x <<< 1)) &&& 0x5555555555555555

/-- `interleave64`. -/
def interleave64 (xlo ylo : BitVec 32) : BitVec 64 :=
  let x := spread64 (xlo.setWidth 64)
  let y := spread64 (ylo.setWidth 64)
  x ||| (y <<< 1)

/-- The lines of `deinterleave64` for one of its two numbers. -/
def gather64 (x : BitVec 64) : BitVec 64 :=
  let x := (x ||| (x >>> 0)) &&& 0x5555555555555555
  let x := (x ||| (x >>> 1)) &&& 0x3333333333333333
  let x := (x ||| (x >>> 2)) &&& 0x0F0F0F0F0F0F0F0F
  let x := (x ||| (x >>> 4)) &&& 0x00FF00FF00FF00FF
  let x := (x ||| (x >>> 8)) &&& 0x0000FFFF0000FFFF
  (x ||| (x >>> 16)) &&& 0x00000000FFFFFFFF

/-- `deinterleave64`. -/
def deinterleave64 (interleaved : BitVec 64) : BitVec 64 :=
  let x := gather64 interleaved
  let y := gather64 (interleaved >>> 1)
  x ||| (y <<< 32)

theorem spread64_spread (x : BitVec 32) : Spread 1 x.getLsbD (spread64 (x.setWidth 64)) := by
  have h32 : Spread (2 * 16) x.getLsbD (x.setWidth 64) := spread_setWidth x rfl
  have h16 : Spread (2 * 8) x.getLsbD _ := h32.halve 0x0000FFFF0000FFFF (by decide)
  have h8 : Spread (2 * 4) x.getLsbD _ := h16.halve 0x00FF00FF00FF00FF (by decide)
  have h4 : Spread (2 * 2) x.getLsbD _ := h8.halve 0x0F0F0F0F0F0F0F0F (by decide)
  have h2 : Spread (2 * 1) x.getLsbD _ := h4.halve 0x3333333333333333 (by decide)
  exact h2.halve 0x5555555555555555 (by decide)

theorem gather64_spread (x : BitVec 64) :
    Spread 32 (fun j => x.getLsbD (2 * j)) (gather64 x) := by
  have h1 : Spread 1 (fun j => x.getLsbD (2 * j)) ((x ||| (x >>> 0)) &&& 0x5555555555555555) := by
    rw [BitVec.ushiftRight_zero, BitVec.or_self]
    exact spread_even x (by decide)
  have h2 := h1.double 0x3333333333333333 (by decide) (by decide)
  have h4 := h2.double 0x0F0F0F0F0F0F0F0F (by decide) (by decide)
  have h8 := h4.double 0x00FF00FF00FF00FF (by decide) (by decide)
  have h16 := h8.double 0x0000FFFF0000FFFF (by decide) (by decide)
  exact h16.double 0x00000000FFFFFFFF (by decide) (by decide)

/-- The latitude part of a hash: `hash_sep` cut to 32 bits. -/
def ilato (bits : BitVec 64) : BitVec 32 := (deinterleave64 bits).setWidth 32

/-- The longitude part: `hash_sep >> 32`. -/
def ilono (bits : BitVec 64) : BitVec 32 := (deinterleave64 bits >>> 32).setWidth 32

section

variable (x y : BitVec 32) (v : BitVec 64) {j : ℕ}

theorem interleave64_even (hj : j < 32) : (interleave64 x y).getLsbD (2 * j) = x.getLsbD j :=
  (spread64_spread x).zip_even (spread64_spread y) (by omega)

theorem interleave64_odd (hj : j < 32) : (interleave64 x y).getLsbD (2 * j + 1) = y.getLsbD j :=
  (spread64_spread x).zip_odd (spread64_spread y) (by omega)

theorem getLsbD_ilato (hj : j < 32) : (ilato v).getLsbD j = v.getLsbD (2 * j) := by
  have hblock := (gather64_spread v).block 0 j hj (by omega)
  have hhigh : (gather64 (v >>> 1) <<< 32).getLsbD j = false := by
    rw [BitVec.getLsbD_shiftLeft]
    simp [hj]
  rw [ilato, BitVec.getLsbD_setWidth, deinterleave64, BitVec.getLsbD_or, hhigh]
  simpa [hj] using hblock

theorem getLsbD_ilono (hj : j < 32) : (ilono v).getLsbD j = v.getLsbD (2 * j + 1) := by
  have hblock := (gather64_spread (v >>> 1)).block 0 j hj (by omega)
  have hgap := (gather64_spread v).gap 0 j hj (by omega)
  rw [ilono, BitVec.getLsbD_setWidth, BitVec.getLsbD_ushiftRight, deinterleave64,
    BitVec.getLsbD_or, BitVec.getLsbD_shiftLeft]
  rw [BitVec.getLsbD_ushiftRight] at hblock
  simp only [Nat.mul_zero, Nat.zero_add] at hblock hgap
  have hhigh : 32 + j < 64 := by omega
  rw [hgap, Nat.add_sub_cancel_left, hblock, Nat.add_comm 1]
  simp [hj, hhigh]

/-- Two words that agree on the even bits and on the odd bits are the same. -/
theorem eq_of_halves {v v' : BitVec 64}
    (heven : ∀ j < 32, v.getLsbD (2 * j) = v'.getLsbD (2 * j))
    (hodd : ∀ j < 32, v.getLsbD (2 * j + 1) = v'.getLsbD (2 * j + 1)) : v = v' := by
  refine BitVec.eq_of_getLsbD_eq fun p hp => ?_
  obtain ⟨j, rfl | rfl⟩ := Nat.even_or_odd' p
  · exact heven j (by omega)
  · exact hodd j (by omega)

theorem interleave64_ilato_ilono : interleave64 (ilato v) (ilono v) = v := by
  refine eq_of_halves (fun j hj => ?_) fun j hj => ?_
  · rw [interleave64_even _ _ hj, getLsbD_ilato v hj]
  · rw [interleave64_odd _ _ hj, getLsbD_ilono v hj]

theorem ilato_interleave64 : ilato (interleave64 x y) = x :=
  BitVec.eq_of_getLsbD_eq fun j hj => by rw [getLsbD_ilato _ hj, interleave64_even x y hj]

theorem ilono_interleave64 : ilono (interleave64 x y) = y :=
  BitVec.eq_of_getLsbD_eq fun j hj => by rw [getLsbD_ilono _ hj, interleave64_odd x y hj]

theorem testBit_ilato (j : ℕ) : (ilato v).toNat.testBit j = v.toNat.testBit (2 * j) := by
  rw [BitVec.testBit_toNat, BitVec.testBit_toNat]
  by_cases hj : j < 32
  · exact getLsbD_ilato v hj
  · rw [BitVec.getLsbD_of_ge _ _ (by omega), BitVec.getLsbD_of_ge _ _ (by omega)]

theorem testBit_ilono (j : ℕ) : (ilono v).toNat.testBit j = v.toNat.testBit (2 * j + 1) := by
  rw [BitVec.testBit_toNat, BitVec.testBit_toNat]
  by_cases hj : j < 32
  · exact getLsbD_ilono v hj
  · rw [BitVec.getLsbD_of_ge _ _ (by omega), BitVec.getLsbD_of_ge _ _ (by omega)]

/-- The sizes of a hash and of its parts. -/
theorem toNat_lt_iff (n : ℕ) :
    v.toNat < 2 ^ (2 * n) ↔ (ilato v).toNat < 2 ^ n ∧ (ilono v).toNat < 2 ^ n := by
  constructor
  · intro h
    have hhigh : ∀ p ≥ 2 * n, v.toNat.testBit p = false := fun p hp =>
      Nat.testBit_lt_two_pow (h.trans_le (Nat.pow_le_pow_right (by decide) hp))
    constructor
    · refine Nat.lt_pow_two_of_testBit _ fun j hj => ?_
      rw [testBit_ilato]
      exact hhigh _ (by omega)
    · refine Nat.lt_pow_two_of_testBit _ fun j hj => ?_
      rw [testBit_ilono]
      exact hhigh _ (by omega)
  · intro ⟨hlat, hlon⟩
    refine Nat.lt_pow_two_of_testBit _ fun p hp => ?_
    obtain ⟨j, rfl | rfl⟩ := Nat.even_or_odd' p
    · rw [← testBit_ilato]
      exact Nat.testBit_lt_two_pow (hlat.trans_le (Nat.pow_le_pow_right (by decide) (by omega)))
    · rw [← testBit_ilono]
      exact Nat.testBit_lt_two_pow (hlon.trans_le (Nat.pow_le_pow_right (by decide) (by omega)))

end

/-! ### Encoding -/

/-- `GeoHashRange`. -/
abbrev GeoHashRange : Type := Span ℚ

/-- `GeoHashBits`. -/
structure GeoHashBits where
  bits : BitVec 64
  step : ℕ
  deriving Repr, DecidableEq

/-- `GeoHashArea`. -/
structure GeoHashArea where
  hash : GeoHashBits
  longitude : GeoHashRange
  latitude : GeoHashRange
  deriving Repr, DecidableEq

/-- `GEO_STEP_MAX`. -/
def GEO_STEP_MAX : ℕ := 26

/-- `GEO_LAT_MIN`. -/
def GEO_LAT_MIN : ℚ := -85.05112878

/-- `GEO_LAT_MAX`. -/
def GEO_LAT_MAX : ℚ := 85.05112878

/-- `GEO_LONG_MIN`. -/
def GEO_LONG_MIN : ℚ := -180

/-- `GEO_LONG_MAX`. -/
def GEO_LONG_MAX : ℚ := 180

/-- The longitudes of `geohashGetCoordRange`. -/
def longRange : GeoHashRange := ⟨GEO_LONG_MIN, GEO_LONG_MAX⟩

/-- The latitudes of `geohashGetCoordRange`. -/
def latRange : GeoHashRange := ⟨GEO_LAT_MIN, GEO_LAT_MAX⟩

/-- `RANGEISZERO`. -/
def rangeIsZero (r : GeoHashRange) : Bool := r.max = 0 && r.min = 0

theorem rangeIsZero_of_lt {r : GeoHashRange} (h : r.min < r.max) : rangeIsZero r = false := by
  rw [rangeIsZero, Bool.and_eq_false_iff, decide_eq_false_iff_not, decide_eq_false_iff_not]
  by_contra hzero
  push Not at hzero
  rw [hzero.1, hzero.2] at h
  exact lt_irrefl 0 h

theorem longRange_lt : longRange.min < longRange.max := by
  norm_num [longRange, GEO_LONG_MIN, GEO_LONG_MAX]

theorem latRange_lt : latRange.min < latRange.max := by
  norm_num [latRange, GEO_LAT_MIN, GEO_LAT_MAX]

/-- The conversion of a double that is not negative to `uint32_t`. -/
def toUInt32 (q : ℚ) : BitVec 32 := BitVec.ofNat 32 ⌊q⌋₊

theorem toUInt32_toNat {q : ℚ} (hnonneg : 0 ≤ q) (h : q < 2 ^ 32) : (toUInt32 q).toNat = ⌊q⌋₊ := by
  rw [toUInt32, BitVec.toNat_ofNat]
  refine Nat.mod_eq_of_lt ((Nat.floor_lt hnonneg).mpr ?_)
  exact_mod_cast h

/-- `geohashEncode`: its status, and the structure after the call. The scale `1 << step` is an
`int`, and is `2 ^ step` for the steps up to 30; the callers pass 26. -/
def geohashEncode (longRange latRange : GeoHashRange) (longitude latitude : ℚ) (step : ℕ)
    (hash : GeoHashBits) : Bool × GeoHashBits :=
  if step > 32 ∨ step = 0 ∨ rangeIsZero latRange ∨ rangeIsZero longRange then (false, hash)
  else if longitude > 180 ∨ longitude < -180 ∨ latitude > 85.05112878 ∨ latitude < -85.05112878 then
    (false, hash)
  else if latitude < latRange.min ∨ latitude > latRange.max ∨
      longitude < longRange.min ∨ longitude > longRange.max then
    (false, ⟨0, step⟩)
  else
    let latOffset := latRange.offset latitude step
    let longOffset := longRange.offset longitude step
    (true, ⟨interleave64 (toUInt32 latOffset) (toUInt32 longOffset), step⟩)

/-- `geohashEncodeType`. -/
def geohashEncodeType (longitude latitude : ℚ) (step : ℕ) (hash : GeoHashBits) :
    Bool × GeoHashBits :=
  geohashEncode longRange latRange longitude latitude step hash

/-- `geohashEncodeWGS84`. -/
def geohashEncodeWGS84 (longitude latitude : ℚ) (step : ℕ) (hash : GeoHashBits) :
    Bool × GeoHashBits :=
  geohashEncodeType longitude latitude step hash

/-- The limits that are built into `geohashEncode`. -/
def Supported (longitude latitude : ℚ) : Prop := |longitude| ≤ 180 ∧ |latitude| ≤ 85.05112878

theorem supported_iff {longitude latitude : ℚ} :
    Supported longitude latitude ↔
      ¬ (longitude > 180 ∨ longitude < -180 ∨ latitude > 85.05112878 ∨ latitude < -85.05112878) := by
  rw [Supported, abs_le, abs_le]
  push Not
  constructor
  · intro ⟨⟨h1, h2⟩, h3, h4⟩
    exact ⟨h2, h1, h4, h3⟩
  · intro ⟨h1, h2, h3, h4⟩
    exact ⟨⟨h2, h1⟩, h4, h3⟩

section

variable {lonR latR : GeoHashRange} {longitude latitude : ℚ} {step : ℕ}

/-- Outside of the limits the structure is not written. -/
theorem geohashEncode_unsupported (h : ¬ Supported longitude latitude) (hash : GeoHashBits) :
    geohashEncode lonR latR longitude latitude step hash = (false, hash) := by
  rw [supported_iff, not_not] at h
  unfold geohashEncode
  rw [if_pos h]
  exact ite_self _

/-- A point inside the limits and the ranges is encoded. -/
theorem geohashEncode_supported (h : Supported longitude latitude) (hstep : 0 < step)
    (hstep' : step ≤ 32) (hlonR : lonR.min < lonR.max) (hlatR : latR.min < latR.max)
    (hlon : lonR.min ≤ longitude ∧ longitude ≤ lonR.max)
    (hlat : latR.min ≤ latitude ∧ latitude ≤ latR.max) (hash : GeoHashBits) :
    geohashEncode lonR latR longitude latitude step hash =
      (true, ⟨interleave64 (toUInt32 (latR.offset latitude step))
        (toUInt32 (lonR.offset longitude step)), step⟩) := by
  unfold geohashEncode
  rw [if_neg, if_neg (supported_iff.mp h), if_neg]
  · push Not
    exact ⟨hlat.1, hlat.2, hlon.1, hlon.2⟩
  · rw [rangeIsZero_of_lt hlonR, rangeIsZero_of_lt hlatR]
    simp only [Bool.false_eq_true, or_false, not_or]
    omega

end

/-- `geohashEncodeWGS84` encodes every supported point: its ranges are the limits. -/
theorem geohashEncodeWGS84_supported {longitude latitude : ℚ} (h : Supported longitude latitude)
    (hash : GeoHashBits) :
    geohashEncodeWGS84 longitude latitude GEO_STEP_MAX hash =
      (true, ⟨interleave64 (toUInt32 (latRange.offset latitude 26))
        (toUInt32 (longRange.offset longitude 26)), 26⟩) := by
  obtain ⟨hlon, hlat⟩ := h
  exact geohashEncode_supported ⟨hlon, hlat⟩ (by decide) (by decide) longRange_lt latRange_lt
    (abs_le.mp hlon) (abs_le.mp hlat) hash

theorem geohashEncodeWGS84_unsupported {longitude latitude : ℚ}
    (h : ¬ Supported longitude latitude) (hash : GeoHashBits) :
    geohashEncodeWGS84 longitude latitude GEO_STEP_MAX hash = (false, hash) :=
  geohashEncode_unsupported h hash

/-! ### Decoding -/

/-- `geohashDecode`; `none` is the status 0. -/
def geohashDecode (longRange latRange : GeoHashRange) (hash : GeoHashBits) : Option GeoHashArea :=
  if (hash.bits = 0 ∧ hash.step = 0) ∨ rangeIsZero latRange ∨ rangeIsZero longRange then none
  else
    let latScale := latRange.max - latRange.min
    let longScale := longRange.max - longRange.min
    let ilato := ilato hash.bits
    let ilono := ilono hash.bits
    some
      { hash := hash
        latitude :=
          ⟨latRange.min + ilato.toNat * 1.0 / 2 ^ hash.step * latScale,
            latRange.min + (ilato + 1).toNat * 1.0 / 2 ^ hash.step * latScale⟩
        longitude :=
          ⟨longRange.min + ilono.toNat * 1.0 / 2 ^ hash.step * longScale,
            longRange.min + (ilono + 1).toNat * 1.0 / 2 ^ hash.step * longScale⟩ }

/-- `geohashDecodeType`. -/
def geohashDecodeType (hash : GeoHashBits) : Option GeoHashArea :=
  geohashDecode longRange latRange hash

/-- `geohashDecodeAreaToLongLat`. -/
def geohashDecodeAreaToLongLat (area : GeoHashArea) : ℚ × ℚ :=
  ((area.longitude.min + area.longitude.max) / 2, (area.latitude.min + area.latitude.max) / 2)

/-- `geohashDecodeToLongLatType`. -/
def geohashDecodeToLongLatType (hash : GeoHashBits) : Option (ℚ × ℚ) :=
  (geohashDecodeType hash).map geohashDecodeAreaToLongLat

/-- `geohashDecodeToLongLatWGS84`. -/
def geohashDecodeToLongLatWGS84 (hash : GeoHashBits) : Option (ℚ × ℚ) :=
  geohashDecodeToLongLatType hash

theorem toNat_succ {x : BitVec 32} (h : x.toNat < 2 ^ 26) : (x + 1).toNat = x.toNat + 1 := by
  rw [BitVec.toNat_add]
  exact Nat.mod_eq_of_lt (by rw [show (1 : BitVec 32).toNat = 1 from rfl]; omega)

/-- A hash of 52 bits is decoded to the middles of its two cells. -/
theorem geohashDecodeToLongLatWGS84_eq {bits : BitVec 64} (h : bits.toNat < 2 ^ 52) :
    geohashDecodeToLongLatWGS84 ⟨bits, 26⟩ =
      some (longRange.point 26 ((ilono bits).toNat + 1 / 2),
        latRange.point 26 ((ilato bits).toNat + 1 / 2)) := by
  obtain ⟨hlat, hlon⟩ := (toNat_lt_iff bits 26).mp h
  unfold geohashDecodeToLongLatWGS84 geohashDecodeToLongLatType geohashDecodeType geohashDecode
  rw [rangeIsZero_of_lt longRange_lt, rangeIsZero_of_lt latRange_lt, if_neg (by simp)]
  have hone : (1.0 : ℚ) = 1 := by norm_num
  simp only [Option.map_some, geohashDecodeAreaToLongLat, toNat_succ hlat, toNat_succ hlon,
    Span.point, hone, Nat.cast_add, Nat.cast_one]
  congr 2
  · ring
  · ring

end CLabs.Geo
