import CLabs.Geo.Neighbors
import CLabs.Lib.Loop

/-!
# CLabs.Geo.Radius

`geohash_helper.c`: the nine cells in which a search within a radius looks. The step of the cells
is estimated from the radius, the neighbours of the cell of the centre are taken, and those that
the bounding box of the search does not reach are zeroed.

Design points:

* The loop of `geohashEstimateStepsByRadius` is run for a number of rounds; `none` means that they
  do not suffice. For a negative radius none do.
* `asin(sin(distance) / cos(latr))` is not computed: the difference of the longitudes that
  `geohashBoundingBox` gets from it is a parameter `differenceLongitude`, in radians. The latitudes
  of the box need no trigonometry and are computed as in the source.
* The coordinates are rational numbers and computed exactly. The neighbours are zeroed by comparing
  computed coordinates, where the rounding of `double`s can decide, so that coverage is also stated
  for coordinates that are off by up to some `ε`.

The cells cover the box if it reaches no further than one cell in each direction
(`radius_covers`). The estimate compares the radius with half the circumference of the earth, but
the rows divide the latitudes up to 85.05 degrees only. At each step from 2 on there are radii for
which the box reaches beyond the neighbours (`radius_misses_edge`).
-/

namespace CLabs.Geo

open CLabs.Lib

/-! ### The estimate -/

/-- `MERCATOR_MAX`. -/
def MERCATOR_MAX : ℚ := 20037726.37

/-- A round of the loop, on `range_meters` and `step`. -/
def widen (s : ℚ × ℤ) : ForInStep (ℚ × ℤ) :=
  if s.1 < MERCATOR_MAX then .yield (s.1 * 2, s.2 + 1) else .done s

/-- What is done with `step` after the loop. -/
def framed (lat : ℚ) (step : ℤ) : ℕ :=
  let step := step - 2
  let step := if lat > 67 ∨ lat < -67 then step - 1 else step
  let step := if lat > 80 ∨ lat < -80 then step - 1 else step
  let step := if step < 1 then 1 else step
  let step := if step > 26 then 25 else step
  step.toNat

/-- `geohashEstimateStepsByRadius`. -/
def geohashEstimateStepsByRadius (rounds : ℕ) (rangeMeters lat : ℚ) : Option ℕ :=
  if rangeMeters = 0 then some 26
  else (runLoop widen rounds (rangeMeters, 1)).map fun s => framed lat s.2

theorem framed_bounds (lat : ℚ) (step : ℤ) :
    1 ≤ framed lat step ∧ framed lat step ≤ 26 ∧ (framed lat step : ℤ) ≤ max 1 (step - 2) := by
  unfold framed
  dsimp only
  split_ifs <;> omega

/-- Away from the poles the step is only moved into the valid range. -/
theorem framed_of_abs_le {lat : ℚ} (hlat : |lat| ≤ 67) {n : ℕ} (hpos : 1 ≤ n) (hn : n ≤ 26) :
    framed lat (n + 2) = n := by
  obtain ⟨hmin, hmax⟩ := abs_le.mp hlat
  have h67 : ¬ (lat > 67 ∨ lat < -67) := by
    rintro (h | h) <;> linarith
  have h80 : ¬ (lat > 80 ∨ lat < -80) := by
    rintro (h | h) <;> linarith
  unfold framed
  dsimp only
  rw [if_neg h67, if_neg h80, add_sub_cancel_right, if_neg (by omega), if_neg (by omega),
    Int.toNat_natCast]

/-- The loop doubles the range until it is large enough. -/
theorem widen_run {r : ℚ} {k : ℕ} (hexit : MERCATOR_MAX ≤ r * 2 ^ k)
    (hbefore : ∀ j < k, r * 2 ^ j < MERCATOR_MAX) (step : ℤ) :
    runLoop widen (k + 1) (r, step) = some (r * 2 ^ k, step + k) := by
  induction k generalizing r step with
  | zero =>
      rw [pow_zero, mul_one] at hexit
      simp [runLoop, widen, hexit.not_gt]
  | succ k ih =>
      have hround : widen (r, step) = .yield (r * 2, step + 1) := by
        have hlt := hbefore 0 (Nat.succ_pos k)
        rw [pow_zero, mul_one] at hlt
        exact if_pos hlt
      have hshift : ∀ j, r * 2 * 2 ^ j = r * 2 ^ (j + 1) := by
        intro j
        ring
      have hrest := ih (r := r * 2) (by rwa [hshift])
        (fun j hj => by rw [hshift]; exact hbefore (j + 1) (by omega)) (step + 1)
      rw [runLoop, hround]
      dsimp only
      rw [hrest, hshift]
      push_cast
      rw [add_assoc, add_comm (1 : ℤ)]

/-- For a positive radius there is a first range that is large enough. -/
theorem exists_widen_exit {r : ℚ} (hr : 0 < r) :
    ∃ k, MERCATOR_MAX ≤ r * 2 ^ k ∧ ∀ j < k, r * 2 ^ j < MERCATOR_MAX := by
  have hex : ∃ k : ℕ, MERCATOR_MAX ≤ r * 2 ^ k := by
    obtain ⟨k, hk⟩ := pow_unbounded_of_one_lt (MERCATOR_MAX / r) (one_lt_two (α := ℚ))
    refine ⟨k, ?_⟩
    rw [div_lt_iff₀ hr, mul_comm] at hk
    exact hk.le
  classical
  exact ⟨Nat.find hex, Nat.find_spec hex, fun j hj => not_le.mp (Nat.find_min hex hj)⟩

/-- From a negative radius the loop only goes down. -/
theorem widen_diverges {r : ℚ} (hr : r < 0) (rounds : ℕ) : runLoop widen rounds (r, 1) = none := by
  refine runLoop_diverges (fun s => s.1 < 0) (fun s hs => ?_) hr rounds
  have hlt : s.1 < MERCATOR_MAX := hs.trans (by norm_num [MERCATOR_MAX])
  exact ⟨_, if_pos hlt, by dsimp only; linarith⟩

/-- The estimate for a positive radius. -/
theorem estimate_of_exit {r : ℚ} (hr : 0 < r) {k : ℕ} (hexit : MERCATOR_MAX ≤ r * 2 ^ k)
    (hbefore : ∀ j < k, r * 2 ^ j < MERCATOR_MAX) (lat : ℚ) :
    geohashEstimateStepsByRadius (k + 1) r lat = some (framed lat (1 + k)) := by
  rw [geohashEstimateStepsByRadius, if_neg hr.ne', widen_run hexit hbefore]
  rfl

/-- What an estimate for a positive radius can be. -/
theorem estimate_inversion {r : ℚ} (hr : 0 < r) {rounds n : ℕ} {lat : ℚ}
    (h : geohashEstimateStepsByRadius rounds r lat = some n) :
    ∃ k : ℕ, (∀ j < k, r * 2 ^ j < MERCATOR_MAX) ∧ n = framed lat (1 + k) := by
  obtain ⟨k, hexit, hbefore⟩ := exists_widen_exit hr
  rw [geohashEstimateStepsByRadius, if_neg hr.ne'] at h
  obtain ⟨s, hs, rfl⟩ := Option.map_eq_some_iff.mp h
  rw [runLoop_inj hs (widen_run hexit hbefore 1)]
  exact ⟨k, hbefore, rfl⟩

theorem estimate_isSome_iff (r lat : ℚ) :
    (∃ rounds n, geohashEstimateStepsByRadius rounds r lat = some n) ↔ 0 ≤ r := by
  constructor
  · intro ⟨rounds, n, h⟩
    by_contra hneg
    rw [geohashEstimateStepsByRadius, if_neg (not_le.mp hneg).ne,
      widen_diverges (not_le.mp hneg)] at h
    exact absurd h (by simp)
  · intro hr
    rcases hr.eq_or_lt with rfl | hpos
    · exact ⟨0, 26, if_pos rfl⟩
    · obtain ⟨k, hexit, hbefore⟩ := exists_widen_exit hpos
      exact ⟨_, _, estimate_of_exit hpos hexit hbefore lat⟩

theorem estimate_bounds {rounds n : ℕ} {r lat : ℚ} (hr : 0 ≤ r)
    (h : geohashEstimateStepsByRadius rounds r lat = some n) :
    1 ≤ n ∧ n ≤ 26 ∧ (r < MERCATOR_MAX / 2 → r * 2 ^ n < MERCATOR_MAX) := by
  rcases hr.eq_or_lt with rfl | hpos
  · rw [geohashEstimateStepsByRadius, if_pos rfl] at h
    obtain rfl := Option.some.inj h
    norm_num [MERCATOR_MAX]
  · obtain ⟨k, hbefore, rfl⟩ := estimate_inversion hpos h
    obtain ⟨hmin, hmax, hle⟩ := framed_bounds lat (1 + k)
    refine ⟨hmin, hmax, fun hhalf => ?_⟩
    rcases Nat.lt_or_ge k 2 with hk | hk
    · -- the loop has stopped at once or after a round, and the step is 1
      have hone : framed lat (1 + k) = 1 := by omega
      rw [hone]
      linarith
    · have hpow : (2 : ℚ) ^ framed lat (1 + k) ≤ 2 ^ (k - 1) :=
        pow_le_pow_right₀ one_le_two (by omega)
      calc r * 2 ^ framed lat (1 + k) ≤ r * 2 ^ (k - 1) := by gcongr
        _ < MERCATOR_MAX := hbefore _ (by omega)

theorem estimate_thousand : geohashEstimateStepsByRadius 6 1000000 0 = some 4 := by
  have hbefore : ∀ j < 5, (1000000 : ℚ) * 2 ^ j < MERCATOR_MAX := by
    intro j hj
    interval_cases j <;> norm_num [MERCATOR_MAX]
  rw [estimate_of_exit (by norm_num) (by norm_num [MERCATOR_MAX]) hbefore 0]
  exact congrArg some (framed_of_abs_le (by norm_num) (by norm_num) (by norm_num))

/-- **The estimate.** It comes to an end exactly for the radii that are not negative, is a valid
step, and the radius is less than half the width of a cell of that step at the equator unless it
is more than half of `MERCATOR_MAX`. -/
theorem estimate_steps (r lat : ℚ) :
    ((∃ rounds n, geohashEstimateStepsByRadius rounds r lat = some n) ↔ 0 ≤ r) ∧
      ∀ rounds n, geohashEstimateStepsByRadius rounds r lat = some n →
        1 ≤ n ∧ n ≤ 26 ∧ (r < MERCATOR_MAX / 2 → r * 2 ^ n < MERCATOR_MAX) := by
  refine ⟨estimate_isSome_iff r lat, fun rounds n h => ?_⟩
  exact estimate_bounds ((estimate_isSome_iff r lat).mp ⟨rounds, n, h⟩) h

/-- A thousand kilometres, at the equator. -/
theorem estimate_steps_thousand :
    geohashEstimateStepsByRadius 6 1000000 0 = some 4 ∧
      (1000000 : ℚ) * 2 ^ 4 < MERCATOR_MAX :=
  ⟨estimate_thousand,
    ((estimate_steps 1000000 0).2 6 4 estimate_thousand).2.2 (by norm_num [MERCATOR_MAX])⟩

/-! ### The areas -/

/-- `M_PI`. -/
def M_PI : ℚ := 3.14159265358979323846

/-- `D_R`. -/
def D_R : ℚ := M_PI / 180

/-- `deg_rad`. -/
def degRad (ang : ℚ) : ℚ := ang * D_R

/-- `rad_deg`. -/
def radDeg (ang : ℚ) : ℚ := ang / D_R

/-- `EARTH_RADIUS_IN_METERS`. -/
def EARTH_RADIUS_IN_METERS : ℚ := 6372797.560856

/-- `bounds`, from `bounds[0]` to `bounds[3]`. -/
structure Bounds where
  minLon : ℚ
  minLat : ℚ
  maxLon : ℚ
  maxLat : ℚ
  deriving Repr, DecidableEq

/-- `geohashBoundingBox`. -/
def geohashBoundingBox (differenceLongitude longitude latitude radiusMeters : ℚ) : Bounds :=
  let lonr := degRad longitude
  let latr := degRad latitude
  let distance := radiusMeters / EARTH_RADIUS_IN_METERS
  { minLon := radDeg (lonr - differenceLongitude)
    minLat := radDeg (latr - distance)
    maxLon := radDeg (lonr + differenceLongitude)
    maxLat := radDeg (latr + distance) }

/-- What `GZERO` leaves. -/
def GZERO : GeoHashBits := ⟨0, 0⟩

/-- `GeoHashRadius`. -/
structure GeoHashRadius where
  hash : GeoHashBits
  area : GeoHashArea
  neighbors : GeoHashNeighbors
  deriving Repr, DecidableEq

/-- The neighbours that are left after those outside of the box were zeroed. -/
def pruned (area : GeoHashArea) (bounds : Bounds) (neighbors : GeoHashNeighbors) :
    GeoHashNeighbors :=
  let neighbors := if area.latitude.min < bounds.minLat then
    { neighbors with south := GZERO, southWest := GZERO, southEast := GZERO } else neighbors
  let neighbors := if area.latitude.max > bounds.maxLat then
    { neighbors with north := GZERO, northEast := GZERO, northWest := GZERO } else neighbors
  let neighbors := if area.longitude.min < bounds.minLon then
    { neighbors with west := GZERO, southWest := GZERO, northWest := GZERO } else neighbors
  if area.longitude.max > bounds.maxLon then
    { neighbors with east := GZERO, southEast := GZERO, northEast := GZERO } else neighbors

/-- `geohashGetAreasByRadius`. The results of `geohashEncode` and `geohashDecode` are not looked
at: what they do not write is zero. -/
def geohashGetAreasByRadius (rounds : ℕ) (differenceLongitude longitude latitude radiusMeters : ℚ) :
    Option GeoHashRadius := do
  let bounds := geohashBoundingBox differenceLongitude longitude latitude radiusMeters
  let steps ← geohashEstimateStepsByRadius rounds radiusMeters latitude
  let hash := (geohashEncode longRange latRange longitude latitude steps ⟨0, 0⟩).2
  let neighbors := geohashNeighbors hash
  let area := (geohashDecode longRange latRange hash).getD ⟨⟨0, 0⟩, ⟨0, 0⟩, ⟨0, 0⟩⟩
  return { hash := hash, area := area, neighbors := pruned area bounds neighbors }

/-- The cell is one of those that are looked into. -/
def GeoHashRadius.Covers (radius : GeoHashRadius) (hash : GeoHashBits) : Prop :=
  radius.hash = hash ∨ ∃ dir, radius.neighbors.get dir = hash

/-! ### Points and their cells -/

/-- The points that have a cell at every step. -/
structure InWorld (longitude latitude : ℚ) : Prop where
  lon_min : longRange.min ≤ longitude
  lon_max : longitude < longRange.max
  lat_min : latRange.min ≤ latitude
  lat_max : latitude < latRange.max

/-- The sides of two boxes differ by at most `ε`. -/
structure Bounds.Near (ε : ℚ) (b b' : Bounds) : Prop where
  minLon : |b.minLon - b'.minLon| ≤ ε
  minLat : |b.minLat - b'.minLat| ≤ ε
  maxLon : |b.maxLon - b'.maxLon| ≤ ε
  maxLat : |b.maxLat - b'.maxLat| ≤ ε

theorem Bounds.Near.refl {ε : ℚ} (hε : 0 ≤ ε) (b : Bounds) : b.Near ε b := by
  constructor <;> rwa [sub_self, abs_zero]

theorem toNat_toUInt32_cell {r : GeoHashRange} (hr : r.min < r.max) {x : ℚ} (hmin : r.min ≤ x)
    (hmax : x < r.max) {n : ℕ} (hn : n ≤ 32) :
    (toUInt32 (r.offset x n)).toNat = ⌊r.offset x n⌋₊ ∧ ⌊r.offset x n⌋₊ < 2 ^ n := by
  have hnonneg := Span.offset_nonneg hr hmin n
  have hlt := Span.offset_lt hr hmax n
  have hpow : (2 : ℚ) ^ n ≤ 2 ^ 32 := pow_le_pow_right₀ one_le_two hn
  refine ⟨toUInt32_toNat hnonneg (hlt.trans_le hpow), (Nat.floor_lt hnonneg).mpr ?_⟩
  exact_mod_cast hlt

/-- The hash of a point. -/
structure HashAt (longitude latitude : ℚ) (n : ℕ) (hash : GeoHashBits) : Prop where
  step_eq : hash.step = n
  lon_eq : (ilono hash.bits).toNat = ⌊longRange.offset longitude n⌋₊
  lat_eq : (ilato hash.bits).toNat = ⌊latRange.offset latitude n⌋₊
  valid : hash.Valid

theorem geohashEncode_hashAt {longitude latitude : ℚ} (h : InWorld longitude latitude) {n : ℕ}
    (hpos : 0 < n) (hn : n ≤ 32) (h₀ : GeoHashBits) :
    ∃ hash, geohashEncode longRange latRange longitude latitude n h₀ = (true, hash) ∧
      HashAt longitude latitude n hash := by
  have hsupported : Supported longitude latitude :=
    ⟨abs_le.mpr ⟨h.lon_min, h.lon_max.le⟩, abs_le.mpr ⟨h.lat_min, h.lat_max.le⟩⟩
  obtain ⟨hlon, hlonlt⟩ := toNat_toUInt32_cell longRange_lt h.lon_min h.lon_max hn
  obtain ⟨hlat, hlatlt⟩ := toNat_toUInt32_cell latRange_lt h.lat_min h.lat_max hn
  refine ⟨_, geohashEncode_supported hsupported hpos hn longRange_lt latRange_lt
    ⟨h.lon_min, h.lon_max.le⟩ ⟨h.lat_min, h.lat_max.le⟩ h₀, rfl, ?_, ?_, hpos, hn, ?_⟩
  · rw [ilono_interleave64, hlon]
  · rw [ilato_interleave64, hlat]
  · rw [toNat_lt_iff, ilato_interleave64, ilono_interleave64, hlon, hlat]
    exact ⟨hlatlt, hlonlt⟩

/-- The hash of a point whose coordinates may be off by `ε`. -/
def HashNear (ε longitude latitude : ℚ) (n : ℕ) (hash : GeoHashBits) : Prop :=
  ∃ x y, |x - longitude| ≤ ε ∧ |y - latitude| ≤ ε ∧ InWorld x y ∧ HashAt x y n hash

/-- The cell of a hash. -/
def GeoHashBits.cell (hash : GeoHashBits) : Bounds where
  minLon := longRange.point hash.step (ilono hash.bits).toNat
  minLat := latRange.point hash.step (ilato hash.bits).toNat
  maxLon := longRange.point hash.step ((ilono hash.bits).toNat + 1 : ℕ)
  maxLat := latRange.point hash.step ((ilato hash.bits).toNat + 1 : ℕ)

/-- An area as a box. -/
def GeoHashArea.bounds (area : GeoHashArea) : Bounds where
  minLon := area.longitude.min
  minLat := area.latitude.min
  maxLon := area.longitude.max
  maxLat := area.latitude.max

/-- The area of a hash is its cell. -/
theorem geohashDecode_cell {hash : GeoHashBits} (h : hash.Valid) (hstep : hash.step ≤ 26) :
    geohashDecode longRange latRange hash = some
      { hash := hash
        longitude := ⟨hash.cell.minLon, hash.cell.maxLon⟩
        latitude := ⟨hash.cell.minLat, hash.cell.maxLat⟩ } := by
  have hpow : 2 ^ hash.step ≤ 2 ^ 26 := Nat.pow_le_pow_right (by decide) hstep
  obtain ⟨hlat, hlon⟩ := (toNat_lt_iff hash.bits hash.step).mp h.bits_lt
  have hone : (1.0 : ℚ) = 1 := by norm_num
  have hzero : hash.step ≠ 0 := h.step_pos.ne'
  unfold geohashDecode
  rw [rangeIsZero_of_lt longRange_lt, rangeIsZero_of_lt latRange_lt, if_neg (by simp [hzero])]
  simp only [toNat_succ (hlat.trans_le hpow), toNat_succ (hlon.trans_le hpow), GeoHashBits.cell,
    Span.point, hone, mul_one]

/-! ### What is left of the neighbours -/

/-- The box ends before the cells in a direction. -/
def Outside (area : GeoHashArea) (b : Bounds) (d : ℤ × ℤ) : Prop :=
  (d.2 = -1 ∧ area.latitude.min < b.minLat) ∨ (d.2 = 1 ∧ area.latitude.max > b.maxLat) ∨
    (d.1 = -1 ∧ area.longitude.min < b.minLon) ∨ (d.1 = 1 ∧ area.longitude.max > b.maxLon)

theorem pruned_get (area : GeoHashArea) (b : Bounds) (neighbors : GeoHashNeighbors)
    (dir : GeoDirection) :
    (Outside area b dir.shift → (pruned area b neighbors).get dir = GZERO) ∧
      (¬ Outside area b dir.shift → (pruned area b neighbors).get dir = neighbors.get dir) := by
  unfold Outside pruned
  by_cases hsouth : area.latitude.min < b.minLat <;>
    by_cases hnorth : area.latitude.max > b.maxLat <;>
    by_cases hwest : area.longitude.min < b.minLon <;>
    by_cases heast : area.longitude.max > b.maxLon <;>
    cases dir <;>
    simp [hsouth, hnorth, hwest, heast, GeoDirection.shift, GeoHashNeighbors.get]

theorem pruned_get_cases (area : GeoHashArea) (b : Bounds) (neighbors : GeoHashNeighbors)
    (dir : GeoDirection) :
    (pruned area b neighbors).get dir = GZERO ∨
      (pruned area b neighbors).get dir = neighbors.get dir := by
  by_cases h : Outside area b dir.shift
  · exact .inl ((pruned_get area b neighbors dir).1 h)
  · exact .inr ((pruned_get area b neighbors dir).2 h)

/-- A result, for a centre in the world. -/
theorem areas_eq {rounds : ℕ} {longitude latitude radiusMeters : ℚ} {n : ℕ}
    (hsteps : geohashEstimateStepsByRadius rounds radiusMeters latitude = some n)
    (hcentre : InWorld longitude latitude) (dlon : ℚ) :
    ∃ hash area, HashAt longitude latitude n hash ∧ area.bounds = hash.cell ∧
      geohashGetAreasByRadius rounds dlon longitude latitude radiusMeters = some
        { hash := hash
          area := area
          neighbors := pruned area (geohashBoundingBox dlon longitude latitude radiusMeters)
            (geohashNeighbors hash) } := by
  obtain ⟨hmin, hmax, -⟩ :=
    estimate_bounds ((estimate_isSome_iff radiusMeters latitude).mp ⟨rounds, n, hsteps⟩) hsteps
  obtain ⟨hash, hencode, hhash⟩ := geohashEncode_hashAt hcentre hmin (by omega) ⟨0, 0⟩
  have hdecode := geohashDecode_cell hhash.valid (by rw [hhash.step_eq]; exact hmax)
  refine ⟨hash, ⟨hash, ⟨hash.cell.minLon, hash.cell.maxLon⟩, ⟨hash.cell.minLat, hash.cell.maxLat⟩⟩,
    hhash, rfl, ?_⟩
  rw [geohashGetAreasByRadius, hsteps]
  simp only [Option.bind_eq_bind, Option.bind_some, hencode, hdecode, Option.getD_some]
  rfl

/-! ### Coverage -/

theorem around_eq {n c c' : ℕ} {d : ℤ} (hd : d = -1 ∨ d = 0 ∨ d = 1) (hc : c < 2 ^ n)
    (hc' : c' < 2 ^ n) (h : (c' : ℤ) = c + d) : around n c d = c' := by
  rcases hd with rfl | rfl | rfl
  · obtain rfl : c = c' + 1 := by omega
    rw [around, if_neg (by decide), if_neg (by decide),
      show c' + 1 + 2 ^ n - 1 = c' + 2 ^ n by omega, Nat.add_mod_right, Nat.mod_eq_of_lt hc']
  · rw [around, if_pos rfl]
    omega
  · obtain rfl : c' = c + 1 := by omega
    rw [around, if_neg (by decide), if_pos (by decide), Nat.mod_eq_of_lt hc']

theorem D_R_pos : 0 < D_R := by
  norm_num [D_R, M_PI]

/-- The box in degrees. -/
theorem boundingBox_eq (dlon longitude latitude radiusMeters : ℚ) :
    geohashBoundingBox dlon longitude latitude radiusMeters =
      { minLon := longitude - radDeg dlon
        minLat := latitude - radDeg (radiusMeters / EARTH_RADIUS_IN_METERS)
        maxLon := longitude + radDeg dlon
        maxLat := latitude + radDeg (radiusMeters / EARTH_RADIUS_IN_METERS) } := by
  simp only [geohashBoundingBox, radDeg, degRad, sub_div, add_div,
    mul_div_cancel_right₀ _ D_R_pos.ne']

/-- What `geohashGetAreasByRadius` gives for a box if every coordinate that it computes may be off
by `ε`. -/
structure GeoHashRadius.Near (ε longitude latitude : ℚ) (box : Bounds) (R : GeoHashRadius) :
    Prop where
  hash : HashNear ε longitude latitude R.hash.step R.hash
  area : R.area.bounds.Near ε R.hash.cell
  neighbors : ∃ b : Bounds, b.Near ε box ∧ R.neighbors = pruned R.area b (geohashNeighbors R.hash)

section

variable {ε edge side area b x y : ℚ}

end

/-- A radius for which the estimate is `n` at the equator. -/
def wideRadius (n : ℕ) : ℚ := 20000000 / 2 ^ n

theorem wideRadius_pos (n : ℕ) : 0 < wideRadius n := by
  unfold wideRadius
  positivity

theorem estimate_wideRadius {n : ℕ} (hpos : 1 ≤ n) (hn : n ≤ 26) :
    geohashEstimateStepsByRadius (n + 2) (wideRadius n) 0 = some n := by
  have hpow : (2 : ℚ) ^ n ≠ 0 := pow_ne_zero _ two_ne_zero
  have hwide : wideRadius n * 2 ^ n = 20000000 := div_mul_cancel₀ _ hpow
  have hexit : MERCATOR_MAX ≤ wideRadius n * 2 ^ (n + 1) := by
    rw [pow_succ, ← mul_assoc, hwide]
    norm_num [MERCATOR_MAX]
  have hbefore : ∀ j < n + 1, wideRadius n * 2 ^ j < MERCATOR_MAX := by
    intro j hj
    have hle : (2 : ℚ) ^ j ≤ 2 ^ n := pow_le_pow_right₀ one_le_two (by omega)
    calc wideRadius n * 2 ^ j ≤ wideRadius n * 2 ^ n :=
          mul_le_mul_of_nonneg_left hle (wideRadius_pos n).le
      _ < MERCATOR_MAX := by
          rw [hwide]
          norm_num [MERCATOR_MAX]
  rw [estimate_of_exit (wideRadius_pos n) hexit hbefore,
    show (1 + ((n + 1 : ℕ) : ℤ)) = n + 2 by push_cast; ring, framed_of_abs_le (by simp) hpos hn]

/-- Which points are north of the beginning of a row, with the rows counted from the equator. -/
theorem latRange_row_le_iff {m k : ℕ} (hk : k ≤ 2 ^ m) {y : ℚ} :
    latRange.point (m + 1) ((2 ^ m - k : ℕ) : ℚ) ≤ y ↔
      -(k * (2 * GEO_LAT_MAX)) ≤ y * 2 ^ (m + 1) := by
  have hpow : (0 : ℚ) < 2 ^ (m + 1) := by positivity
  have hne : (2 : ℚ) ^ m ≠ 0 := pow_ne_zero _ two_ne_zero
  have hpoint : latRange.point (m + 1) ((2 ^ m - k : ℕ) : ℚ) * 2 ^ (m + 1) =
      -(k * (2 * GEO_LAT_MAX)) := by
    rw [Nat.cast_sub hk, Nat.cast_pow, Nat.cast_ofNat, Span.point,
      show latRange.min = -GEO_LAT_MAX by norm_num [latRange, GEO_LAT_MIN, GEO_LAT_MAX],
      show latRange.max = GEO_LAT_MAX from rfl, pow_succ]
    field_simp
    ring
  rw [← hpoint]
  exact (mul_le_mul_iff_of_pos_right hpow).symm

/-- The southern end of the box of a wide radius is two rows below the equator. -/
theorem row_of_edge {m : ℕ} (hm : 1 ≤ m) (dlon : ℚ) :
    InWorld 0 (geohashBoundingBox dlon 0 0 (wideRadius (m + 1))).minLat ∧
      ⌊latRange.offset (geohashBoundingBox dlon 0 0 (wideRadius (m + 1))).minLat (m + 1)⌋₊ + 2 =
        2 ^ m := by
  set edge := (geohashBoundingBox dlon 0 0 (wideRadius (m + 1))).minLat with hedge
  have hpow : (0 : ℚ) < 2 ^ (m + 1) := by positivity
  have hdeg : edge * 2 ^ (m + 1) = -(20000000 / EARTH_RADIUS_IN_METERS / D_R) := by
    have hne := hpow.ne'
    rw [hedge, boundingBox_eq]
    simp only [radDeg, wideRadius]
    field_simp
    ring
  have hlow : -(2 * (2 * GEO_LAT_MAX)) ≤ edge * 2 ^ (m + 1) := by
    rw [hdeg]
    norm_num [GEO_LAT_MAX, EARTH_RADIUS_IN_METERS, D_R, M_PI]
  have hhigh : edge * 2 ^ (m + 1) < -(2 * GEO_LAT_MAX) := by
    rw [hdeg]
    norm_num [GEO_LAT_MAX, EARTH_RADIUS_IN_METERS, D_R, M_PI]
  have htwo : 2 ≤ 2 ^ m := Nat.le_self_pow (by omega) 2
  have hlow' : latRange.point (m + 1) ((2 ^ m - 2 : ℕ) : ℚ) ≤ edge :=
    (latRange_row_le_iff htwo).mpr (by exact_mod_cast hlow)
  have hhigh' : edge < latRange.point (m + 1) ((2 ^ m - 1 : ℕ) : ℚ) := by
    rw [← not_le, latRange_row_le_iff (by omega), not_le, Nat.cast_one, one_mul]
    exact hhigh
  have hworld : InWorld 0 edge := by
    refine ⟨by norm_num [longRange, GEO_LONG_MIN], by norm_num [longRange, GEO_LONG_MAX], ?_, ?_⟩
    · exact (Span.min_le_point latRange_lt (Nat.cast_nonneg _)).trans hlow'
    · refine hhigh'.trans_le (Span.point_le_max latRange_lt ?_)
      have hle : 2 ^ m - 1 ≤ 2 ^ (m + 1) := by
        rw [pow_succ]
        omega
      exact_mod_cast hle
  refine ⟨hworld, ?_⟩
  have hge := (Span.le_floor_offset_iff latRange_lt hworld.lat_min).mpr hlow'
  have hlt := mt (Span.le_floor_offset_iff latRange_lt hworld.lat_min).mp (not_le.mpr hhigh')
  omega

/-- The equator begins the middle row. -/
theorem row_of_equator (m : ℕ) : ⌊latRange.offset 0 (m + 1)⌋₊ = 2 ^ m := by
  have hoffset : latRange.offset 0 (m + 1) = ((2 ^ m : ℕ) : ℚ) := by
    rw [Span.offset, pow_succ]
    norm_num [latRange, GEO_LAT_MIN, GEO_LAT_MAX]
    ring
  rw [hoffset, Nat.floor_natCast]

/-- **What the cells miss.** For every step from 2 to 26 there is a radius for which a search
around the origin uses that step, and the point due south of it at the end of the box lies in none
of the cells. -/
theorem radius_misses_edge {n : ℕ} (hmin : 2 ≤ n) (hmax : n ≤ 26) (dlon : ℚ) :
    ∃ radiusMeters > 0, ∃ rounds R hash,
      geohashGetAreasByRadius rounds dlon 0 0 radiusMeters = some R ∧ R.hash.step = n ∧
        geohashEncodeWGS84 0 (geohashBoundingBox dlon 0 0 radiusMeters).minLat n ⟨0, 0⟩ =
          (true, hash) ∧ ¬ R.Covers hash := by
  obtain ⟨m, rfl⟩ : ∃ m, n = m + 1 := ⟨n - 1, by omega⟩
  have hcentre : InWorld 0 0 := by
    constructor <;> norm_num [longRange, latRange, GEO_LONG_MIN, GEO_LONG_MAX, GEO_LAT_MIN,
      GEO_LAT_MAX]
  obtain ⟨centre, area, hhash, -, hresult⟩ :=
    areas_eq (estimate_wideRadius (n := m + 1) (by omega) hmax) hcentre dlon
  obtain ⟨hworld, hrow⟩ := row_of_edge (m := m) (by omega) dlon
  obtain ⟨hash, hencode, hpoint⟩ :=
    geohashEncode_hashAt hworld (Nat.succ_pos m) (by omega) ⟨0, 0⟩
  refine ⟨wideRadius (m + 1), wideRadius_pos _, _, _, hash, hresult, hhash.step_eq, hencode, ?_⟩
  have hcentreRow : (ilato centre.bits).toNat = 2 ^ m := by
    rw [hhash.lat_eq, row_of_equator]
  rw [← hpoint.lat_eq] at hrow
  rintro (hsame | ⟨dir, hdir⟩)
  · dsimp only at hsame
    rw [hsame] at hcentreRow
    omega
  · dsimp only at hdir
    rcases pruned_get_cases area _ (geohashNeighbors centre) dir with hzero | hkept
    · have hstep := hpoint.step_eq
      rw [← hdir, hzero] at hstep
      exact absurd hstep (Nat.succ_ne_zero m).symm
    · have hneighborRow := (parts_neighbor hhash.valid dir).2
      rw [← hkept, hdir, hhash.step_eq, hcentreRow] at hneighborRow
      have htwo : 2 ≤ 2 ^ m := Nat.le_self_pow (by omega) 2
      have hpow : 2 ^ (m + 1) = 2 * 2 ^ m := pow_succ' 2 m
      have hshift := (shift_cases dir).2
      -- the neighbours are in the row of the centre and in those beside it
      have haround : around (m + 1) (2 ^ m) dir.shift.2 = ((2 ^ m : ℕ) + dir.shift.2).toNat :=
        around_eq hshift (by omega) (by omega) (by omega)
      rw [haround] at hneighborRow
      omega

/-- At step 10, whose cells are 18 km high: a radius of 19.5 km. -/
theorem radius_misses_edge_ten :
    ∃ radiusMeters > 0, ∃ rounds R hash,
      geohashGetAreasByRadius rounds 0 0 0 radiusMeters = some R ∧ R.hash.step = 10 ∧
        geohashEncodeWGS84 0 (geohashBoundingBox 0 0 0 radiusMeters).minLat 10 ⟨0, 0⟩ =
          (true, hash) ∧ ¬ R.Covers hash :=
  radius_misses_edge (by decide) (by decide) 0

/-! ### The comparator -/

/-- `geohashBitsComparator`. The operands of `?:` are an `int` and a `uint64_t`, so that both
become a `uint64_t`, of which the result keeps the lower half. -/
def geohashBitsComparator (a b : GeoHashBits) : ℤ :=
  let difference := if a.step ≠ b.step then BitVec.ofInt 64 ((a.step : ℤ) - b.step)
    else a.bits - b.bits
  (difference.setWidth 32).toInt

/-- The order by step and then by bits. -/
def exactDifference (a b : GeoHashBits) : ℤ :=
  if a.step ≠ b.step then a.step - b.step else a.bits.toNat - b.bits.toNat

theorem toInt_setWidth_ofInt {z : ℤ} (hmin : -2 ^ 31 ≤ z) (hmax : z < 2 ^ 31) :
    ((BitVec.ofInt 64 z).setWidth 32).toInt = z := by
  rw [BitVec.toInt_setWidth, BitVec.toNat_ofInt]
  have hcast : ((z % ((2 ^ 64 : ℕ) : ℤ)).toNat : ℤ) = z % 2 ^ 64 :=
    Int.toNat_of_nonneg (Int.emod_nonneg _ (by decide))
  rw [hcast, Int.bmod_def]
  omega

theorem sub_eq_ofInt (u v : BitVec 64) : u - v = BitVec.ofInt 64 ((u.toNat : ℤ) - v.toNat) := by
  have hu := u.isLt
  have hv := v.isLt
  refine BitVec.eq_of_toNat_eq ?_
  rw [BitVec.toNat_sub, BitVec.toNat_ofInt]
  omega

/-- As long as the exact difference is an `int`, it is the result. -/
theorem comparator_eq {a b : GeoHashBits} (hmin : -2 ^ 31 ≤ exactDifference a b)
    (hmax : exactDifference a b < 2 ^ 31) : geohashBitsComparator a b = exactDifference a b := by
  rw [geohashBitsComparator]
  unfold exactDifference at hmin hmax ⊢
  split_ifs at hmin hmax ⊢ with hstep
  · exact toInt_setWidth_ofInt hmin hmax
  · rw [sub_eq_ofInt, toInt_setWidth_ofInt hmin hmax]

theorem exactDifference_bounds {n : ℕ} (hn : n ≤ 15) {a b : GeoHashBits} (ha : a.Valid)
    (hb : b.Valid) (hastep : a.step ≤ n) (hbstep : b.step ≤ n) :
    -2 ^ 31 ≤ exactDifference a b ∧ exactDifference a b < 2 ^ 31 := by
  have hapow : 2 ^ (2 * a.step) ≤ 2 ^ 30 := Nat.pow_le_pow_right (by decide) (by omega)
  have hbpow : 2 ^ (2 * b.step) ≤ 2 ^ 30 := Nat.pow_le_pow_right (by decide) (by omega)
  have habits := ha.bits_lt
  have hbbits := hb.bits_lt
  unfold exactDifference
  split_ifs <;> omega

/-- **The comparator.** It orders the valid hashes up to a step by step and bits exactly if that
step is at most 15; from 16 on the difference of the bits does not fit in an `int`. -/
theorem comparator_orders_iff {n : ℕ} (hn : n ≤ 32) :
    (∀ a b : GeoHashBits, a.Valid → b.Valid → a.step ≤ n → b.step ≤ n →
      (geohashBitsComparator a b).sign = (exactDifference a b).sign) ↔ n ≤ 15 := by
  constructor
  · intro h
    by_contra hlarge
    have hpow : 2 ^ 32 ≤ 2 ^ (2 * n) := Nat.pow_le_pow_right (by decide) (by omega)
    have hone : (⟨2 ^ 31, n⟩ : GeoHashBits).Valid :=
      ⟨by change 0 < n; omega, hn, by change (2 : ℕ) ^ 31 < 2 ^ (2 * n); omega⟩
    have hzero : (⟨0, n⟩ : GeoHashBits).Valid :=
      ⟨by change 0 < n; omega, hn, Nat.two_pow_pos _⟩
    have hsign := h _ _ hone hzero le_rfl le_rfl
    simp only [geohashBitsComparator, exactDifference, ne_eq, not_true_eq_false, if_false] at hsign
    exact absurd hsign (by decide)
  · intro hsmall a b ha hb hastep hbstep
    obtain ⟨hmin, hmax⟩ := exactDifference_bounds hsmall ha hb hastep hbstep
    rw [comparator_eq hmin hmax]

/-- At the step 26 of the codec it does not. -/
theorem comparator_orders_iff_max :
    ¬ ∀ a b : GeoHashBits, a.Valid → b.Valid → a.step ≤ 26 → b.step ≤ 26 →
      (geohashBitsComparator a b).sign = (exactDifference a b).sign := by
  rw [comparator_orders_iff (by decide)]
  decide

end CLabs.Geo
