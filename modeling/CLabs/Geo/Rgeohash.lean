import CLabs.Geo.Geohash

/-!
# CLabs.Geo.Rgeohash

The model of `rgeohash.c`, the library's interface: the integer codec `geohash64` and
`geohash_decode`, and the string codec `geohash` and `geohash_decode64`. The names of the
source are kept in a namespace of their own, since `geohash_decode` and the `geohashDecode`
of `geohash.c` differ in their case only.

Design points:

* A `GeoHashBits` on the stack is uninitialised. What it holds at first is a parameter `h` of
  each wrapper, and `xy` is the same for the pair that `geohash_decode` reads.
* The wrappers drop the status of `geohashEncode`. `geohashCall`, `geohash64Call` and
  `geohashDecode64Call` are the wrappers up to the point where they read the structure: the
  status of the last call to `geohashEncode`, and the structure as it is then; `none` if the
  wrapper returns before.
* Shifts of a `uint64_t` are those of x86, by the amount modulo 64: the eleventh character of a
  string is taken by a shift with a negative amount.
* `geohash_decode64` gets a pointer. A buffer is the memory from there on.

The integer codec is treated here: a code names a cell of the grid, decoding gives the middle
of the cell, and encoding finds the cell again.
-/

namespace CLabs.Geo.Rgeohash

open CLabs.Lib

/-! ### Shifts -/

/-- `x << n`. -/
def shl64 (x : BitVec 64) (n : ℤ) : BitVec 64 := x <<< (n % 64).toNat

/-- `x >> n`. -/
def shr64 (x : BitVec 64) (n : ℤ) : BitVec 64 := x >>> (n % 64).toNat

/-- `geohashAlign52Bits`, from `geohash_helper.c`. -/
def geohashAlign52Bits (hash : GeoHashBits) : BitVec 64 := shl64 hash.bits (52 - hash.step * 2)

theorem geohashAlign52Bits_step (bits : BitVec 64) : geohashAlign52Bits ⟨bits, 26⟩ = bits :=
  BitVec.shiftLeft_zero bits

/-! ### Integers -/

/-- What the wrappers for integers return: the bits of the structure that they read, or 0. -/
def aligned : Option (Bool × GeoHashBits) → BitVec 64
  | none => 0
  | some (_, h) => geohashAlign52Bits h

/-- The test that the encoding wrappers begin with. -/
def rejects (longitude latitude : ℚ) : Bool := |longitude| > 180 || |latitude| > 90

/-- `geohash64`, up to the structure that it reads. -/
def geohash64Call (h : GeoHashBits) (longitude latitude : ℚ) : Option (Bool × GeoHashBits) :=
  if rejects longitude latitude then none
  else some (geohashEncodeWGS84 longitude latitude GEO_STEP_MAX h)

/-- `geohash64`. -/
def geohash64 (h : GeoHashBits) (longitude latitude : ℚ) : BitVec 64 :=
  aligned (geohash64Call h longitude latitude)

/-- `geohash_decode`: longitude and latitude. -/
def geohashDecode (xy : ℚ × ℚ) (bits : BitVec 64) : ℚ × ℚ :=
  (geohashDecodeToLongLatWGS84 ⟨bits, GEO_STEP_MAX⟩).getD xy

/-! ### Strings -/

/-- The terminator of a string. -/
def NUL : Char := '\x00'

/-- `geoalphabet`, without its terminator. -/
def geoalphabet : List Char :=
  ['0', '1', '2', '3', '4', '5', '6', '7', '8', '9', 'b', 'c', 'd', 'e', 'f', 'g',
   'h', 'j', 'k', 'm', 'n', 'p', 'q', 'r', 's', 't', 'u', 'v', 'w', 'x', 'y', 'z']

/-- The memory of a string: its characters, and terminators. -/
def memory (s : List Char) (i : ℕ) : Char := s.getD i NUL

/-- `strchr`, as the position of what it finds. The terminator is part of the string. -/
def strchr (s : List Char) (c : Char) : Option ℕ := (s ++ [NUL]).idxOf? c

/-- `geohash`, up to the structure that it reads. -/
def geohashCall (h : GeoHashBits) (longitude latitude : ℚ) : Option (Bool × GeoHashBits) :=
  if rejects longitude latitude then none
  else
    let h := (geohashEncodeWGS84 longitude latitude GEO_STEP_MAX h).2
    some (geohashEncode ⟨-180, 180⟩ ⟨-90, 90⟩ longitude latitude 26 h)

/-- `idx` of the `i`-th character. -/
def charIndex (bits : BitVec 64) (i : ℕ) : ℕ := (shr64 bits (52 - (i + 1) * 5) &&& 0x1f).toNat

/-- The loop of `geohash`: the characters for the bits of a hash. -/
def chars (bits : BitVec 64) : List Char :=
  (List.range 11).map fun i => memory geoalphabet (charIndex bits i)

/-- What `geohash` writes: the characters for the structure that it reads, or an error. -/
def spelling : Option (Bool × GeoHashBits) → List Char
  | none => ['e', 'r', 'r', 'o', 'r']
  | some (_, h) => chars h.bits

/-- `geohash`: the string that it writes. -/
def geohash (h : GeoHashBits) (longitude latitude : ℚ) : List Char :=
  spelling (geohashCall h longitude latitude)

/-- The variables of the loops of `geohash_decode64`. -/
structure Coords where
  /-- `coords[0]`. -/
  lat : Span ℚ
  /-- `coords[1]`. -/
  long : Span ℚ
  /-- `flip`, which selects the interval to halve. -/
  flip : Bool
  deriving Repr, DecidableEq

/-- The body of the inner loop: the middle becomes the lower end if the bit is set, and the
upper end otherwise. -/
def Coords.narrow (c : Coords) (bit : Bool) : Coords :=
  if c.flip then { c with long := c.long.bisect bit, flip := false }
  else { c with lat := c.lat.bisect bit, flip := true }

/-- The inner loop. -/
def Coords.decodeChar (c : Coords) (pos : ℕ) : Coords :=
  [16, 8, 4, 2, 1].foldl (fun c weight => c.narrow (decide (pos &&& weight > 0))) c

/-- The intervals before the loops. -/
def Coords.world : Coords := { lat := ⟨-90, 90⟩, long := ⟨-180, 180⟩, flip := true }

/-- The outer loop; `none` is its `return 0`. -/
def bisection (buf : ℕ → Char) : Option Coords :=
  (List.range 11).foldlM (fun c i => (strchr geoalphabet (buf i)).map c.decodeChar) .world

/-- `geohash_decode64`, up to the structure that it reads. `*coords[1,1]` and `*coords[1,0]` are
`coords[1][0]` and `coords[0][0]`, the lower ends. -/
def geohashDecode64Call (h : GeoHashBits) (buf : ℕ → Char) : Option (Bool × GeoHashBits) :=
  (bisection buf).map fun c => geohashEncodeWGS84 c.long.min c.lat.min GEO_STEP_MAX h

/-- `geohash_decode64`. -/
def geohashDecode64 (h : GeoHashBits) (buf : ℕ → Char) : BitVec 64 :=
  aligned (geohashDecode64Call h buf)

/-! ### The integer codec -/

theorem rejects_eq_false {longitude latitude : ℚ} (hlon : |longitude| ≤ 180)
    (hlat : |latitude| ≤ 90) : rejects longitude latitude = false := by
  simp [rejects, hlon, hlat]

theorem geohash64Call_admitted {longitude latitude : ℚ} (hlon : |longitude| ≤ 180)
    (hlat : |latitude| ≤ 90) (h : GeoHashBits) :
    geohash64Call h longitude latitude =
      some (geohashEncodeWGS84 longitude latitude GEO_STEP_MAX h) := by
  rw [geohash64Call, rejects_eq_false hlon hlat, if_neg Bool.false_ne_true]

/-- The code of a supported point. -/
theorem geohash64_eq {longitude latitude : ℚ} (h : Supported longitude latitude)
    (h₀ : GeoHashBits) :
    geohash64 h₀ longitude latitude =
      interleave64 (toUInt32 (latRange.offset latitude 26))
        (toUInt32 (longRange.offset longitude 26)) := by
  rw [geohash64, geohash64Call_admitted h.1 (h.2.trans (by norm_num)),
    geohashEncodeWGS84_supported h]
  exact geohashAlign52Bits_step _

/-- A code of 52 bits stands for the middles of its two cells. -/
theorem geohashDecode_eq {bits : BitVec 64} (h : bits.toNat < 2 ^ 52) (xy : ℚ × ℚ) :
    geohashDecode xy bits =
      (longRange.point 26 ((ilono bits).toNat + 1 / 2),
        latRange.point 26 ((ilato bits).toNat + 1 / 2)) := by
  unfold geohashDecode
  rw [show GEO_STEP_MAX = 26 from rfl, geohashDecodeToLongLatWGS84_eq h]
  rfl

section

variable {r : GeoHashRange} (hr : r.min < r.max)

include hr

/-- A point below the upper end has one of the `2 ^ 26` cells. -/
theorem toNat_toUInt32_offset {x : ℚ} (hmin : r.min ≤ x) (hmax : x < r.max) :
    (toUInt32 (r.offset x 26)).toNat = ⌊r.offset x 26⌋₊ ∧ ⌊r.offset x 26⌋₊ < 2 ^ 26 := by
  have hnonneg := Span.offset_nonneg hr hmin 26
  have hlt := Span.offset_lt hr hmax 26
  refine ⟨toUInt32_toNat hnonneg (hlt.trans (by norm_num)), (Nat.floor_lt hnonneg).mpr ?_⟩
  exact_mod_cast hlt

/-- The upper end itself is one past the last cell. -/
theorem toNat_toUInt32_offset_lt_iff {x : ℚ} (hmin : r.min ≤ x) (hmax : x ≤ r.max) :
    (toUInt32 (r.offset x 26)).toNat < 2 ^ 26 ↔ x < r.max := by
  constructor
  · intro h
    refine lt_of_le_of_ne hmax fun hend => ?_
    rw [hend, Span.offset_max hr, toUInt32_toNat (by norm_num) (by norm_num)] at h
    have hfloor : ⌊(2 : ℚ) ^ 26⌋₊ = 2 ^ 26 := by exact_mod_cast Nat.floor_natCast (2 ^ 26)
    exact absurd h (hfloor ▸ lt_irrefl _)
  · intro h
    obtain ⟨hcell, hlt⟩ := toNat_toUInt32_offset hr hmin h
    rwa [hcell]

/-- The middle of a cell is in the cell. -/
theorem toUInt32_offset_middle (x : BitVec 32) :
    toUInt32 (r.offset (r.point 26 (x.toNat + 1 / 2)) 26) = x := by
  have hfloor : ⌊(x.toNat : ℚ) + 1 / 2⌋₊ = x.toNat := by
    rw [Nat.floor_eq_iff (by positivity)]
    constructor <;> linarith
  rw [Span.offset_point hr, div_mul_cancel₀ _ (by norm_num), toUInt32, hfloor,
    BitVec.ofNat_toNat, BitVec.setWidth_eq]

theorem middle_mem {i : ℕ} (h : i < 2 ^ 26) :
    r.min ≤ r.point 26 ((i : ℚ) + 1 / 2) ∧ r.point 26 ((i : ℚ) + 1 / 2) ≤ r.max := by
  have hi : (i : ℚ) + 1 ≤ 2 ^ 26 := by exact_mod_cast h
  exact ⟨Span.min_le_point hr (by positivity), Span.point_le_max hr (by linarith)⟩

end

/-- The parts of the hash of a point are its two cells, and the hash has 52 bits. -/
theorem hash_of_cells {lonR latR : GeoHashRange} (hlonR : lonR.min < lonR.max)
    (hlatR : latR.min < latR.max) {longitude latitude : ℚ}
    (hlon : lonR.min ≤ longitude ∧ longitude < lonR.max)
    (hlat : latR.min ≤ latitude ∧ latitude < latR.max) {bits : BitVec 64}
    (hbits : bits = interleave64 (toUInt32 (latR.offset latitude 26))
      (toUInt32 (lonR.offset longitude 26))) :
    (ilono bits).toNat = ⌊lonR.offset longitude 26⌋₊ ∧
      (ilato bits).toNat = ⌊latR.offset latitude 26⌋₊ ∧ bits.toNat < 2 ^ 52 := by
  obtain ⟨hcellLon, hltLon⟩ := toNat_toUInt32_offset hlonR hlon.1 hlon.2
  obtain ⟨hcellLat, hltLat⟩ := toNat_toUInt32_offset hlatR hlat.1 hlat.2
  subst hbits
  rw [toNat_lt_iff _ 26, ilato_interleave64, ilono_interleave64, hcellLat, hcellLon]
  exact ⟨rfl, rfl, hltLat, hltLon⟩

/-- Encoding the middle of a cell gives the cell. -/
theorem geohash64_geohashDecode {v : BitVec 64} (hv : v.toNat < 2 ^ 52) (h : GeoHashBits)
    (xy : ℚ × ℚ) : geohash64 h (geohashDecode xy v).1 (geohashDecode xy v).2 = v := by
  obtain ⟨hlat, hlon⟩ := (toNat_lt_iff v 26).mp hv
  have hsupported : Supported (longRange.point 26 ((ilono v).toNat + 1 / 2))
      (latRange.point 26 ((ilato v).toNat + 1 / 2)) :=
    ⟨abs_le.mpr (middle_mem longRange_lt hlon), abs_le.mpr (middle_mem latRange_lt hlat)⟩
  rw [geohashDecode_eq hv, geohash64_eq hsupported, toUInt32_offset_middle longRange_lt,
    toUInt32_offset_middle latRange_lt, interleave64_ilato_ilono]

/-- **The integer codec is exact on its grid.** Decoding and encoding again gives the code back,
and encoding and decoding again moves a point by at most half a cell. -/
theorem integer_codec_roundTrip :
    (∀ h xy (v : BitVec 64), v.toNat < 2 ^ 52 →
      geohash64 h (geohashDecode xy v).1 (geohashDecode xy v).2 = v) ∧
    ∀ h xy longitude latitude, -180 ≤ longitude → longitude < 180 →
      -85.05112878 ≤ latitude → latitude < 85.05112878 →
      (geohash64 h longitude latitude).toNat < 2 ^ 52 ∧
        |(geohashDecode xy (geohash64 h longitude latitude)).1 - longitude| ≤ 180 / 2 ^ 26 ∧
        |(geohashDecode xy (geohash64 h longitude latitude)).2 - latitude| ≤ 85.05112878 / 2 ^ 26 := by
  refine ⟨fun h xy v hv => geohash64_geohashDecode hv h xy, ?_⟩
  intro h xy longitude latitude hlon hlon' hlat hlat'
  have hsupported : Supported longitude latitude :=
    ⟨abs_le.mpr ⟨hlon, hlon'.le⟩, abs_le.mpr ⟨hlat, hlat'.le⟩⟩
  obtain ⟨hcellLon, hcellLat, hlt⟩ := hash_of_cells longRange_lt latRange_lt ⟨hlon, hlon'⟩
    ⟨hlat, hlat'⟩ (geohash64_eq hsupported h)
  refine ⟨hlt, ?_⟩
  rw [geohashDecode_eq hlt, hcellLon, hcellLat]
  have hlonHalf : (longRange.max - longRange.min) / 2 / 2 ^ 26 = 180 / 2 ^ 26 := by
    norm_num [longRange, GEO_LONG_MAX, GEO_LONG_MIN]
  have hlatHalf : (latRange.max - latRange.min) / 2 / 2 ^ 26 = 85.05112878 / 2 ^ 26 := by
    norm_num [latRange, GEO_LAT_MAX, GEO_LAT_MIN]
  rw [← hlonHalf, ← hlatHalf]
  exact ⟨Span.abs_point_floor_sub_le longRange_lt hlon 26,
    Span.abs_point_floor_sub_le latRange_lt hlat 26⟩

/-- The hypotheses can be met: the largest code, and a point. -/
theorem integer_codec_roundTrip_point :
    (∀ h xy, geohash64 h (geohashDecode xy 0xFFFFFFFFFFFFF).1
      (geohashDecode xy 0xFFFFFFFFFFFFF).2 = 0xFFFFFFFFFFFFF) ∧
    ∀ h xy, |(geohashDecode xy (geohash64 h (-46.6) (-23.5))).1 - -46.6| ≤ 180 / 2 ^ 26 :=
  ⟨fun h xy => integer_codec_roundTrip.1 h xy _ (by decide), fun h xy =>
    (integer_codec_roundTrip.2 h xy (-46.6) (-23.5) (by norm_num) (by norm_num) (by norm_num)
      (by norm_num)).2.1⟩

/-- **Where codes have 52 bits.** On the supported points, ends included, the code has 52 bits and
decodes into the ranges exactly below the two upper ends. -/
theorem geohash64_fits_iff (h : GeoHashBits) (xy : ℚ × ℚ) {longitude latitude : ℚ}
    (hlon : -180 ≤ longitude ∧ longitude ≤ 180)
    (hlat : -85.05112878 ≤ latitude ∧ latitude ≤ 85.05112878) :
    ((geohash64 h longitude latitude).toNat < 2 ^ 52 ∧
      (-180 ≤ (geohashDecode xy (geohash64 h longitude latitude)).1 ∧
        (geohashDecode xy (geohash64 h longitude latitude)).1 ≤ 180) ∧
      (-85.05112878 ≤ (geohashDecode xy (geohash64 h longitude latitude)).2 ∧
        (geohashDecode xy (geohash64 h longitude latitude)).2 ≤ 85.05112878)) ↔
      longitude < 180 ∧ latitude < 85.05112878 := by
  have hcode := geohash64_eq ⟨abs_le.mpr hlon, abs_le.mpr hlat⟩ h
  -- the code has 52 bits exactly if both parts are numbers of cells
  have hbits : (geohash64 h longitude latitude).toNat < 2 ^ 52 ↔
      longitude < 180 ∧ latitude < 85.05112878 := by
    rw [hcode, toNat_lt_iff _ 26, ilato_interleave64, ilono_interleave64,
      toNat_toUInt32_offset_lt_iff latRange_lt hlat.1 hlat.2,
      toNat_toUInt32_offset_lt_iff longRange_lt hlon.1 hlon.2]
    exact and_comm
  constructor
  · intro ⟨hlt, _⟩
    exact hbits.mp hlt
  · intro hbelow
    have hlt := hbits.mpr hbelow
    obtain ⟨hlatPart, hlonPart⟩ := (toNat_lt_iff _ 26).mp hlt
    refine ⟨hlt, ?_⟩
    rw [geohashDecode_eq hlt]
    exact ⟨middle_mem longRange_lt hlonPart, middle_mem latRange_lt hlatPart⟩

/-- The hypotheses can be met: the lower ends are within the 52 bits. -/
theorem geohash64_fits_iff_southwest :
    (geohash64 ⟨0, 0⟩ (-180) (-85.05112878)).toNat < 2 ^ 52 :=
  ((geohash64_fits_iff ⟨0, 0⟩ (0, 0) (by norm_num) (by norm_num)).mpr (by norm_num)).1

/-- **The code of longitude 180 has 54 bits**, and decodes to a longitude beyond 180: the end of
the range becomes cell `2 ^ 26`. -/
theorem geohash64_antimeridian :
    |(180 : ℚ)| ≤ 180 ∧ |(0 : ℚ)| ≤ 85.05112878 ∧ 2 ^ 53 ≤ (geohash64 ⟨0, 0⟩ 180 0).toNat ∧
      180 < (geohashDecode (0, 0) (geohash64 ⟨0, 0⟩ 180 0)).1 := by
  have hlon : |(180 : ℚ)| ≤ 180 := by norm_num
  have hlat : |(0 : ℚ)| ≤ 85.05112878 := by norm_num
  have hlonOffset : longRange.offset 180 26 = (2 ^ 26 : ℕ) := by
    norm_num [Span.offset, longRange, GEO_LONG_MIN, GEO_LONG_MAX]
  have hlatOffset : latRange.offset 0 26 = (2 ^ 25 : ℕ) := by
    norm_num [Span.offset, latRange, GEO_LAT_MIN, GEO_LAT_MAX]
  have hcode : geohash64 ⟨0, 0⟩ 180 0 = 0x24000000000000 := by
    rw [geohash64_eq ⟨hlon, hlat⟩, hlonOffset, hlatOffset, toUInt32, toUInt32, Nat.floor_natCast,
      Nat.floor_natCast]
    decide
  rw [hcode]
  exact ⟨hlon, hlat, by decide, by decide +kernel⟩

end CLabs.Geo.Rgeohash
