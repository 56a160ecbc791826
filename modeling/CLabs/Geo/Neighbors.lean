import CLabs.Geo.Geohash
import CLabs.Lib.Deposit

/-!
# CLabs.Geo.Neighbors

`geohash_move_x`, `geohash_move_y` and `geohashNeighbors` of `geohash.c`: from a cell to the cells
around it, by arithmetic on the interleaved bits.

The shifts by `64 - hash->step * 2` are defined in C for the steps from 1 to 32. A hash is `Valid`
if its step is one of these and it has no bit beyond the cells of that step.

The abstract level is a walk on a torus of `2 ^ step` times `2 ^ step` cells: each direction has a
displacement, and a walk ends at the sum of its displacements (`cellOf_walk`). The map wraps around
at the poles as it does at the antimeridian.
-/

namespace CLabs.Geo

open CLabs.Lib

/-! ### The moves -/

/-- `geohash_move_x`. -/
def geohashMoveX (hash : GeoHashBits) (d : ℤ) : GeoHashBits :=
  if d = 0 then hash
  else
    let x := hash.bits &&& 0xaaaaaaaaaaaaaaaa
    let y := hash.bits &&& 0x5555555555555555
    let zz := (0x5555555555555555 : BitVec 64) >>> (64 - hash.step * 2)
    let x := if d > 0 then x + (zz + 1) else (x ||| zz) - (zz + 1)
    let x := x &&& ((0xaaaaaaaaaaaaaaaa : BitVec 64) >>> (64 - hash.step * 2))
    { hash with bits := x ||| y }

/-- `geohash_move_y`. -/
def geohashMoveY (hash : GeoHashBits) (d : ℤ) : GeoHashBits :=
  if d = 0 then hash
  else
    let x := hash.bits &&& 0xaaaaaaaaaaaaaaaa
    let y := hash.bits &&& 0x5555555555555555
    let zz := (0xaaaaaaaaaaaaaaaa : BitVec 64) >>> (64 - hash.step * 2)
    let y := if d > 0 then y + (zz + 1) else (y ||| zz) - (zz + 1)
    let y := y &&& ((0x5555555555555555 : BitVec 64) >>> (64 - hash.step * 2))
    { hash with bits := x ||| y }

/-- `GeoDirection`. -/
inductive GeoDirection
  | north | east | west | south | southWest | southEast | nortWest | nortEast
  deriving Repr, DecidableEq

/-- `GeoHashNeighbors`. -/
structure GeoHashNeighbors where
  north : GeoHashBits
  east : GeoHashBits
  west : GeoHashBits
  south : GeoHashBits
  northEast : GeoHashBits
  southEast : GeoHashBits
  northWest : GeoHashBits
  southWest : GeoHashBits
  deriving Repr, DecidableEq

/-- `geohashNeighbors`. -/
def geohashNeighbors (hash : GeoHashBits) : GeoHashNeighbors where
  east := geohashMoveY (geohashMoveX hash 1) 0
  west := geohashMoveY (geohashMoveX hash (-1)) 0
  south := geohashMoveY (geohashMoveX hash 0) (-1)
  north := geohashMoveY (geohashMoveX hash 0) 1
  northWest := geohashMoveY (geohashMoveX hash (-1)) 1
  northEast := geohashMoveY (geohashMoveX hash 1) 1
  southEast := geohashMoveY (geohashMoveX hash 1) (-1)
  southWest := geohashMoveY (geohashMoveX hash (-1)) (-1)

/-- The neighbour in a direction. -/
def GeoHashNeighbors.get (n : GeoHashNeighbors) : GeoDirection → GeoHashBits
  | .north => n.north
  | .east => n.east
  | .west => n.west
  | .south => n.south
  | .southWest => n.southWest
  | .southEast => n.southEast
  | .nortWest => n.northWest
  | .nortEast => n.northEast

/-! ### The two halves of a word -/

theorem toNat_odd_half (v : BitVec 64) :
    (v &&& 0xaaaaaaaaaaaaaaaa).toNat = deposit (odds 32) (ilono v).toNat := by
  have hmask : ∀ j < 32, (0xaaaaaaaaaaaaaaaa : BitVec 64).getLsbD (2 * j) = false ∧
      (0xaaaaaaaaaaaaaaaa : BitVec 64).getLsbD (2 * j + 1) = true := by decide
  refine Nat.eq_of_testBit_eq fun p => ?_
  obtain ⟨j, rfl | rfl⟩ := Nat.even_or_odd' p
  · rw [(testBit_deposit_odds 32 _ j).1, BitVec.testBit_toNat, BitVec.getLsbD_and]
    by_cases hj : j < 32
    · rw [(hmask j hj).1, Bool.and_false]
    · rw [BitVec.getLsbD_of_ge v _ (by omega), Bool.false_and]
  · rw [(testBit_deposit_odds 32 _ j).2, BitVec.testBit_toNat, BitVec.getLsbD_and]
    by_cases hj : j < 32
    · rw [(hmask j hj).2, testBit_ilono, BitVec.testBit_toNat, decide_eq_true hj, Bool.and_true,
        Bool.true_and]
    · rw [BitVec.getLsbD_of_ge v _ (by omega), decide_eq_false hj, Bool.false_and, Bool.false_and]

theorem toNat_even_half (v : BitVec 64) :
    (v &&& 0x5555555555555555).toNat = deposit (evens 32) (ilato v).toNat := by
  have hmask : ∀ j < 32, (0x5555555555555555 : BitVec 64).getLsbD (2 * j) = true ∧
      (0x5555555555555555 : BitVec 64).getLsbD (2 * j + 1) = false := by decide
  refine Nat.eq_of_testBit_eq fun p => ?_
  obtain ⟨j, rfl | rfl⟩ := Nat.even_or_odd' p
  · rw [(testBit_deposit_evens 32 _ j).1, BitVec.testBit_toNat, BitVec.getLsbD_and]
    by_cases hj : j < 32
    · rw [(hmask j hj).1, testBit_ilato, BitVec.testBit_toNat, decide_eq_true hj, Bool.and_true,
        Bool.true_and]
    · rw [BitVec.getLsbD_of_ge v _ (by omega), decide_eq_false hj, Bool.false_and, Bool.false_and]
  · rw [(testBit_deposit_evens 32 _ j).2, BitVec.testBit_toNat, BitVec.getLsbD_and]
    by_cases hj : j < 32
    · rw [(hmask j hj).2, Bool.and_false]
    · rw [BitVec.getLsbD_of_ge v _ (by omega), Bool.false_and]

/-- The masks of the moves. -/
theorem toNat_masks : ∀ n ≤ 32,
    ((0xaaaaaaaaaaaaaaaa : BitVec 64) >>> (64 - n * 2)).toNat = ones (odds n) ∧
    ((0x5555555555555555 : BitVec 64) >>> (64 - n * 2)).toNat = gaps (odds n) ∧
    ((0x5555555555555555 : BitVec 64) >>> (64 - n * 2)).toNat = ones (evens n) ∧
    ((0xaaaaaaaaaaaaaaaa : BitVec 64) >>> (64 - n * 2)).toNat = gaps (evens n) := by
  decide

/-- A word put together of its two halves. -/
theorem parts_or {u v : BitVec 64} {n k a b : ℕ} (hu : u.toNat = deposit (odds n) a)
    (hv : v.toNat = deposit (evens k) b) :
    (ilono (u ||| v)).toNat = a % 2 ^ n ∧ (ilato (u ||| v)).toNat = b % 2 ^ k := by
  constructor
  · refine Nat.eq_of_testBit_eq fun j => ?_
    rw [testBit_ilono, BitVec.toNat_or, Nat.testBit_or, hu, hv, (testBit_deposit_odds n a j).2,
      (testBit_deposit_evens k b j).2, Bool.or_false, Nat.testBit_mod_two_pow]
  · refine Nat.eq_of_testBit_eq fun j => ?_
    rw [testBit_ilato, BitVec.toNat_or, Nat.testBit_or, hu, hv, (testBit_deposit_odds n a j).1,
      (testBit_deposit_evens k b j).1, Bool.false_or, Nat.testBit_mod_two_pow]

/-! ### What the moves do -/

/-- `c + d` cells around, for a `d` of -1, 0 or 1 by its sign. -/
def around (n c : ℕ) (d : ℤ) : ℕ :=
  if d = 0 then c else if d > 0 then (c + 1) % 2 ^ n else (c + 2 ^ n - 1) % 2 ^ n

section

variable {hash : GeoHashBits} (hstep : hash.step ≤ 32) (d : ℤ)

include hstep

theorem parts_moveX :
    (ilono (geohashMoveX hash d).bits).toNat = around hash.step (ilono hash.bits).toNat d ∧
      (ilato (geohashMoveX hash d).bits).toNat = (ilato hash.bits).toNat := by
  obtain ⟨hmask, hzz, -, -⟩ := toNat_masks hash.step hstep
  have hx : (hash.bits &&& 0xaaaaaaaaaaaaaaaa).toNat =
      deposit (odds hash.step ++ odds (32 - hash.step)) (ilono hash.bits).toNat := by
    rw [← odds_add, Nat.add_sub_cancel' hstep, toNat_odd_half]
  have hlat : (ilato hash.bits).toNat % 2 ^ 32 = (ilato hash.bits).toNat :=
    Nat.mod_eq_of_lt (ilato hash.bits).isLt
  unfold geohashMoveX around
  by_cases hzero : d = 0
  · simp [hzero]
  · rw [if_neg hzero, if_neg hzero]
    dsimp only
    by_cases hpos : d > 0
    · rw [if_pos hpos, if_pos hpos]
      obtain ⟨hlon, hlat'⟩ := parts_or (toNat_countUp hx hzz hmask (by decide))
        (toNat_even_half hash.bits)
      exact ⟨hlon, hlat'.trans hlat⟩
    · rw [if_neg hpos, if_neg hpos]
      have hdown := toNat_countDown hx hzz hmask (by decide) (by rw [length_odds]; omega)
      rw [selected_odds] at hdown
      obtain ⟨hlon, hlat'⟩ := parts_or hdown (toNat_even_half hash.bits)
      exact ⟨hlon, hlat'.trans hlat⟩

theorem parts_moveY :
    (ilono (geohashMoveY hash d).bits).toNat = (ilono hash.bits).toNat ∧
      (ilato (geohashMoveY hash d).bits).toNat = around hash.step (ilato hash.bits).toNat d := by
  obtain ⟨-, -, hmask, hzz⟩ := toNat_masks hash.step hstep
  have hy : (hash.bits &&& 0x5555555555555555).toNat =
      deposit (evens hash.step ++ evens (32 - hash.step)) (ilato hash.bits).toNat := by
    rw [← evens_add, Nat.add_sub_cancel' hstep, toNat_even_half]
  have hlon : (ilono hash.bits).toNat % 2 ^ 32 = (ilono hash.bits).toNat :=
    Nat.mod_eq_of_lt (ilono hash.bits).isLt
  unfold geohashMoveY around
  by_cases hzero : d = 0
  · simp [hzero]
  · rw [if_neg hzero, if_neg hzero]
    dsimp only
    by_cases hpos : d > 0
    · rw [if_pos hpos, if_pos hpos]
      obtain ⟨hlon', hlat⟩ := parts_or (toNat_odd_half hash.bits)
        (toNat_countUp hy hzz hmask (by decide))
      exact ⟨hlon'.trans hlon, hlat⟩
    · rw [if_neg hpos, if_neg hpos]
      have hdown := toNat_countDown hy hzz hmask (by decide) (by rw [length_evens]; omega)
      rw [selected_evens] at hdown
      obtain ⟨hlon', hlat⟩ := parts_or (toNat_odd_half hash.bits) hdown
      exact ⟨hlon'.trans hlon, hlat⟩

end

theorem step_moveX (hash : GeoHashBits) (d : ℤ) : (geohashMoveX hash d).step = hash.step := by
  unfold geohashMoveX
  split <;> rfl

theorem step_moveY (hash : GeoHashBits) (d : ℤ) : (geohashMoveY hash d).step = hash.step := by
  unfold geohashMoveY
  split <;> rfl

theorem around_lt {n c : ℕ} (hc : c < 2 ^ n) (d : ℤ) : around n c d < 2 ^ n := by
  unfold around
  split_ifs
  · exact hc
  · exact Nat.mod_lt _ (Nat.two_pow_pos n)
  · exact Nat.mod_lt _ (Nat.two_pow_pos n)

/-! ### The torus -/

/-- A hash of the cells of its step. -/
structure GeoHashBits.Valid (hash : GeoHashBits) : Prop where
  step_pos : 0 < hash.step
  step_le : hash.step ≤ 32
  bits_lt : hash.bits.toNat < 2 ^ (2 * hash.step)

/-- The column and the row of a hash, among `2 ^ n` in a circle. -/
def cellOf (n : ℕ) (hash : GeoHashBits) : ZMod (2 ^ n) × ZMod (2 ^ n) :=
  ((ilono hash.bits).toNat, (ilato hash.bits).toNat)

/-- A displacement, in a circle. -/
def displaced (n : ℕ) (d : ℤ × ℤ) : ZMod (2 ^ n) × ZMod (2 ^ n) := (d.1, d.2)

theorem displaced_add (n : ℕ) (d d' : ℤ × ℤ) :
    displaced n (d + d') = displaced n d + displaced n d' := by
  simp [displaced]

/-- How many columns and rows on a direction leads. -/
def GeoDirection.shift : GeoDirection → ℤ × ℤ
  | north => (0, 1)
  | east => (1, 0)
  | west => (-1, 0)
  | south => (0, -1)
  | southWest => (-1, -1)
  | southEast => (1, -1)
  | nortWest => (-1, 1)
  | nortEast => (1, 1)

theorem neighbor_eq (hash : GeoHashBits) (dir : GeoDirection) :
    (geohashNeighbors hash).get dir =
      geohashMoveY (geohashMoveX hash dir.shift.1) dir.shift.2 := by
  cases dir <;> rfl

theorem around_cast (n c : ℕ) {d : ℤ} (hd : d = -1 ∨ d = 0 ∨ d = 1) :
    (around n c d : ZMod (2 ^ n)) = c + d := by
  have hself : ((2 ^ n : ℕ) : ZMod (2 ^ n)) = 0 := ZMod.natCast_self _
  rcases hd with rfl | rfl | rfl
  · have hpos : 1 ≤ c + 2 ^ n := (Nat.two_pow_pos n).trans_le (Nat.le_add_left _ _)
    rw [around, if_neg (by decide), if_neg (by decide), ZMod.natCast_mod, Nat.cast_sub hpos,
      Nat.cast_add, hself]
    push_cast
    ring
  · simp [around]
  · rw [around, if_neg (by decide), if_pos (by decide), ZMod.natCast_mod]
    push_cast
    ring

theorem shift_cases (dir : GeoDirection) :
    (dir.shift.1 = -1 ∨ dir.shift.1 = 0 ∨ dir.shift.1 = 1) ∧
      (dir.shift.2 = -1 ∨ dir.shift.2 = 0 ∨ dir.shift.2 = 1) := by
  cases dir <;> decide

theorem step_neighbor (hash : GeoHashBits) (dir : GeoDirection) :
    ((geohashNeighbors hash).get dir).step = hash.step := by
  rw [neighbor_eq, step_moveY, step_moveX]

section

variable {hash : GeoHashBits} (h : hash.Valid) (dir : GeoDirection)

include h

/-- The columns and rows of a neighbour. -/
theorem parts_neighbor :
    (ilono ((geohashNeighbors hash).get dir).bits).toNat =
        around hash.step (ilono hash.bits).toNat dir.shift.1 ∧
      (ilato ((geohashNeighbors hash).get dir).bits).toNat =
        around hash.step (ilato hash.bits).toNat dir.shift.2 := by
  obtain ⟨hlon, hlat⟩ := parts_moveX h.step_le dir.shift.1
  have hstep : (geohashMoveX hash dir.shift.1).step ≤ 32 := by
    rw [step_moveX]
    exact h.step_le
  obtain ⟨hlon', hlat'⟩ := parts_moveY hstep dir.shift.2
  rw [neighbor_eq]
  refine ⟨hlon'.trans hlon, hlat'.trans ?_⟩
  rw [step_moveX, hlat]

theorem valid_neighbor : ((geohashNeighbors hash).get dir).Valid := by
  obtain ⟨hlat, hlon⟩ := (toNat_lt_iff hash.bits hash.step).mp h.bits_lt
  obtain ⟨hlon', hlat'⟩ := parts_neighbor h dir
  have hstep := step_neighbor hash dir
  refine ⟨by rw [hstep]; exact h.step_pos, by rw [hstep]; exact h.step_le, ?_⟩
  rw [hstep, toNat_lt_iff, hlon', hlat']
  exact ⟨around_lt hlat _, around_lt hlon _⟩

theorem cellOf_neighbor :
    cellOf hash.step ((geohashNeighbors hash).get dir) =
      cellOf hash.step hash + displaced hash.step dir.shift := by
  obtain ⟨hlon, hlat⟩ := parts_neighbor h dir
  obtain ⟨hx, hy⟩ := shift_cases dir
  rw [cellOf, hlon, hlat, around_cast _ _ hx, around_cast _ _ hy]
  rfl

end

/-- From neighbour to neighbour. -/
def walk (hash : GeoHashBits) (dirs : List GeoDirection) : GeoHashBits :=
  dirs.foldl (fun hash dir => (geohashNeighbors hash).get dir) hash

/-- The columns and rows that a walk leads on, all in all. -/
def totalShift (dirs : List GeoDirection) : ℤ × ℤ := (dirs.map GeoDirection.shift).sum

/-- A walk ends in the cell that its displacements add up to. -/
theorem cellOf_walk {hash : GeoHashBits} (h : hash.Valid) (dirs : List GeoDirection) :
    (walk hash dirs).Valid ∧ (walk hash dirs).step = hash.step ∧
      cellOf hash.step (walk hash dirs) =
        cellOf hash.step hash + displaced hash.step (totalShift dirs) := by
  induction dirs generalizing hash with
  | nil =>
      refine ⟨h, rfl, ?_⟩
      simp [walk, totalShift, displaced]
  | cons dir dirs ih =>
      obtain ⟨hvalid, hstep, hcell⟩ := ih (valid_neighbor h dir)
      have hstep' := step_neighbor hash dir
      have htotal : totalShift (dir :: dirs) = dir.shift + totalShift dirs := by
        rw [totalShift, List.map_cons, List.sum_cons, totalShift]
      refine ⟨hvalid, hstep.trans hstep', ?_⟩
      rw [hstep', cellOf_neighbor h, add_assoc, ← displaced_add, ← htotal] at hcell
      exact hcell

/-- A number below `2 ^ n` that is the same in a circle. -/
theorem eq_emod_of_cast {n a b : ℕ} {d : ℤ} (ha : a < 2 ^ n)
    (h : (a : ZMod (2 ^ n)) = (b : ZMod (2 ^ n)) + (d : ZMod (2 ^ n))) :
    (a : ℤ) = (b + d) % 2 ^ n := by
  have hcast : ((a : ℤ) : ZMod (2 ^ n)) = ((b + d : ℤ) : ZMod (2 ^ n)) := by
    push_cast
    exact h
  have hmod := (ZMod.intCast_eq_intCast_iff' _ _ _).mp hcast
  push_cast at hmod
  rw [← hmod, Int.emod_eq_of_lt (by omega) (by exact_mod_cast ha)]

/-- **Walks.** From a valid hash, any walk over neighbours stays valid and of the same step, and
ends in the column and the row that the displacements lead to, around the map in both ways. -/
theorem walk_cells {hash : GeoHashBits} (h : hash.Valid) (dirs : List GeoDirection) :
    (walk hash dirs).Valid ∧ (walk hash dirs).step = hash.step ∧
      ((ilono (walk hash dirs).bits).toNat : ℤ) =
        ((ilono hash.bits).toNat + (totalShift dirs).1) % 2 ^ hash.step ∧
      ((ilato (walk hash dirs).bits).toNat : ℤ) =
        ((ilato hash.bits).toNat + (totalShift dirs).2) % 2 ^ hash.step := by
  obtain ⟨hvalid, hstep, hcell⟩ := cellOf_walk h dirs
  have hbits := hvalid.bits_lt
  rw [hstep] at hbits
  obtain ⟨hlat, hlon⟩ := (toNat_lt_iff _ hash.step).mp hbits
  obtain ⟨hcol, hrow⟩ := Prod.mk.inj hcell
  exact ⟨hvalid, hstep, eq_emod_of_cast hlon hcol, eq_emod_of_cast hlat hrow⟩

/-- Across the antimeridian and over the pole, from the last cell of step 3. -/
theorem walk_cells_corner :
    (⟨63, 3⟩ : GeoHashBits).Valid ∧
      ((ilono (walk ⟨63, 3⟩ [.east, .nortEast]).bits).toNat : ℤ) = (7 + 2) % 8 ∧
      ((ilato (walk ⟨63, 3⟩ [.east, .nortEast]).bits).toNat : ℤ) = (7 + 1) % 8 := by
  have hvalid : (⟨63, 3⟩ : GeoHashBits).Valid := ⟨by decide, by decide, by decide⟩
  obtain ⟨-, -, hlon, hlat⟩ := walk_cells hvalid [.east, .nortEast]
  exact ⟨hvalid, hlon, hlat⟩

end CLabs.Geo
