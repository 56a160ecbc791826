import CLabs.Hash.Store

/-!
# CLabs.Hash.Capacity

**How many keys of one hash fit.** The search for a key inspects few of the slots: those at
`n c + n (n - 1) / 2`, where `c` is one more than the hash. Keys of the same hash share them, and
when they are taken the next key of that hash leads `hget` out of the array, however empty the rest
of the table is.

`capacity` counts the slots. No run that stays inside the array gets more keys of a hash into the
table (`keys_of_hash_le`), and keys of one hash can be stored up to that number
(`colliding_keys_fit_iff`).
-/

namespace CLabs.Hash

open CLabs.Lib

/-! ### The slots of a hash -/

/-- The index of a slot, `c` being one more than the hash. -/
def slotIndex (c n : Nat) : Nat := n * c + n * (n - 1) / 2

/-- The slots that are inspected for keys with the hash `r`. -/
def slots (r : Nat) : Finset (Fin SIZE) :=
  Finset.univ.filter fun i => ∃ n ∈ Finset.range 46, i.val = slotIndex ((r + 1) % SIZE) n

def capacity (r : Nat) : Nat := (slots r).card

/-- Slots that come later are outside of the array. -/
theorem lt_of_slotIndex_lt {c n : Nat} (h : slotIndex c n < SIZE) : n < 46 := by
  by_contra hn
  have hprod : 46 * 45 ≤ n * (n - 1) := Nat.mul_le_mul (by omega) (by omega)
  have hhalf := Nat.div_le_div_right hprod (c := 2)
  unfold slotIndex SIZE at h
  omega

theorem mem_slots {r : Nat} {i : Fin SIZE} :
    i ∈ slots r ↔ ∃ n, i.val = slotIndex ((r + 1) % SIZE) n := by
  rw [slots, Finset.mem_filter, and_iff_right (Finset.mem_univ i)]
  constructor
  · exact fun ⟨n, _, hn⟩ => ⟨n, hn⟩
  · exact fun ⟨n, hn⟩ => ⟨n, Finset.mem_range.mpr (lt_of_slotIndex_lt (hn ▸ i.isLt)), hn⟩

theorem admits_iff {t : Table} {k : BitVec 32} :
    t.Admits k ↔ ∃ i ∈ slots (k.toNat % SIZE), ∀ entry, t i = some entry → entry.key = k := by
  have hmod : (k.toNat % SIZE + 1) % SIZE = (k.toNat + 1) % SIZE := Nat.mod_add_mod _ _ _
  simp only [mem_slots, hmod]
  constructor
  · exact fun ⟨n, i, hi, hstops⟩ => ⟨i, ⟨n, hi⟩, hstops⟩
  · exact fun ⟨i, ⟨n, hi⟩, hstops⟩ => ⟨n, i, hi, hstops⟩

/-- Never more than 45. -/
theorem capacity_le (r : Nat) : capacity r ≤ 45 := by
  generalize hc : (r + 1) % SIZE = c
  -- without a wrap the last one is `n = 44`; a counter that starts at 0 inspects the first slot twice
  let index (n : Nat) : Nat := if c = 0 then slotIndex c (n + 1) else slotIndex c n
  have hsubset : (slots r).image Fin.val ⊆ (Finset.range 45).image index := by
    intro pos hpos
    obtain ⟨i, hi, rfl⟩ := Finset.mem_image.mp hpos
    obtain ⟨n, hn⟩ := mem_slots.mp hi
    rw [hc] at hn
    have hlt : n < 46 := lt_of_slotIndex_lt (hn ▸ i.isLt)
    rw [Finset.mem_image, hn]
    by_cases hzero : c = 0
    · refine ⟨n - 1, Finset.mem_range.mpr (by omega), ?_⟩
      show (if c = 0 then _ else _) = _
      rw [if_pos hzero]
      cases n with
      | zero => simp [slotIndex, hzero]
      | succ n => rfl
    · have hne : n ≠ 45 := by
        rintro rfl
        have hpos := i.isLt
        rw [hn] at hpos
        unfold slotIndex SIZE at hpos
        omega
      exact ⟨n, Finset.mem_range.mpr (by omega), if_neg hzero⟩
  calc capacity r = ((slots r).image Fin.val).card :=
        (Finset.card_image_of_injective _ Fin.val_injective).symm
    _ ≤ ((Finset.range 45).image index).card := Finset.card_le_card hsubset
    _ ≤ (Finset.range 45).card := Finset.card_image_le
    _ = 45 := Finset.card_range 45

/-- Two for half of the hashes: the third slot is outside of the array. -/
theorem capacity_of_ge {r : Nat} (hlow : 511 ≤ r) (hhigh : r ≤ 1022) : capacity r = 2 := by
  have hc : (r + 1) % SIZE = r + 1 := Nat.mod_eq_of_lt (by unfold SIZE; omega)
  have hzero : 0 < SIZE := by decide
  have hone : r + 1 < SIZE := by unfold SIZE; omega
  refine Finset.card_eq_two.mpr ⟨⟨0, hzero⟩, ⟨r + 1, hone⟩, by simp, ?_⟩
  ext i
  rw [mem_slots, hc, Finset.mem_insert, Finset.mem_singleton, Fin.ext_iff, Fin.ext_iff]
  constructor
  · rintro ⟨n, hn⟩
    obtain rfl | rfl | hn2 : n = 0 ∨ n = 1 ∨ 2 ≤ n := by omega
    · exact .inl (by simpa [slotIndex] using hn)
    · exact .inr (by simpa [slotIndex] using hn)
    · have hpos := i.isLt
      have hprod : 2 * (r + 1) ≤ n * (r + 1) := Nat.mul_le_mul_right _ hn2
      rw [hn] at hpos
      unfold slotIndex SIZE at hpos
      omega
  · rintro (hi | hi)
    · exact ⟨0, by simpa [slotIndex] using hi⟩
    · exact ⟨1, by simpa [slotIndex] using hi⟩

/-! ### Tables -/

/-- The key in a slot that is not empty. -/
def Table.keyAt (t : Table) (i : Fin SIZE) : BitVec 32 := ((t i).map Entry.key).getD 0

theorem Table.keyAt_of_entry (t : Table) {i : Fin SIZE} {entry : Entry} (hi : t i = some entry) :
    t.keyAt i = entry.key := by
  rw [keyAt, hi]
  rfl

section

variable {t : Table} {m : BitVec 32 → Option Entry} (h : probing.Represents t.view m)

include h

/-- An entry lies in one of the slots of its hash. -/
theorem mem_slots_of_entry {i : Fin SIZE} {entry : Entry} (hi : t i = some entry) :
    i ∈ slots (entry.key.toNat % SIZE) := by
  obtain ⟨n, hpath, -⟩ := h.findable i.val entry ((t.view_val i).trans hi)
  obtain ⟨n', hn'⟩ := (probeIndex_lt_iff i.isLt).mp ⟨n, hpath⟩
  rw [freeIndex_eq] at hn'
  exact mem_slots.mpr ⟨n', hn'.symm⟩

/-- No key has two slots. -/
theorem slot_unique {i j : Fin SIZE} {entry entry' : Entry} (hi : t i = some entry)
    (hj : t j = some entry') (hkey : entry.key = entry'.key) : i = j := by
  have hget := hget_entry h hi
  rw [hkey, hget_entry h hj] at hget
  exact (Option.some.inj hget).symm

/-- Keys of one hash that are in the table. -/
theorem card_le_capacity {keys : Finset (BitVec 32)} {r : Nat}
    (hkeys : ∀ k ∈ keys, m k ≠ none ∧ k.toNat % SIZE = r) : keys.card ≤ capacity r := by
  refine Finset.card_le_card_of_surjOn t.keyAt fun k hk => ?_
  obtain ⟨hstored, hhash⟩ := hkeys k hk
  obtain ⟨entry, hentry⟩ := Option.ne_none_iff_exists'.mp hstored
  obtain ⟨i, -, hi⟩ := (found_iff h).mpr hentry
  have hkey : entry.key = k := ((h.content k entry).mp hentry).1
  have hmem := mem_slots_of_entry h hi
  rw [hkey, hhash] at hmem
  exact ⟨i, hmem, (t.keyAt_of_entry hi).trans hkey⟩

/-- A table whose keys are among fewer than the slots of a hash has one of these free. -/
theorem exists_free_slot {keys : List (BitVec 32)} {r : Nat} (hkeys : ∀ k, m k ≠ none → k ∈ keys)
    (hlt : keys.length < capacity r) : ∃ i ∈ slots r, t i = none := by
  by_contra hfull
  push Not at hfull
  have hentry : ∀ i ∈ slots r, ∃ entry, t i = some entry := fun i hi =>
    Option.ne_none_iff_exists'.mp (hfull i hi)
  have hle : (slots r).card ≤ keys.toFinset.card := by
    refine Finset.card_le_card_of_injOn t.keyAt (fun i hi => ?_) fun i hi j hj heq => ?_
    · obtain ⟨entry, hentry⟩ := hentry i hi
      rw [t.keyAt_of_entry hentry, Finset.mem_coe, List.mem_toFinset]
      exact hkeys _ fun hnone => (absent_iff h).mpr hnone i entry hentry rfl
    · obtain ⟨entry, hi⟩ := hentry i hi
      obtain ⟨entry', hj⟩ := hentry j hj
      rw [t.keyAt_of_entry hi, t.keyAt_of_entry hj] at heq
      exact slot_unique h hi hj heq
  exact absurd (hle.trans keys.toFinset_card_le) (not_le.mpr hlt)

end

/-! ### Runs -/

/-- **Keys of one hash in a table.** In every table reached by calls that stay inside the array
there are at most `capacity r` keys with the hash `r`; that is at most 45, and 2 for the hashes from
511 to 1022. -/
theorem keys_of_hash_le {calls : List Call} {t : Table} (h : calls.foldlM Call.exec hnew = some t)
    {keys : Finset (BitVec 32)} {r : Nat}
    (hkeys : ∀ k ∈ keys, (∃ v, Call.set k v true ∈ calls) ∧ k.toNat % SIZE = r) :
    keys.card ≤ capacity r ∧ capacity r ≤ 45 ∧ (511 ≤ r → r ≤ 1022 → capacity r = 2) := by
  refine ⟨card_le_capacity (represents_run h) fun k hk => ?_, capacity_le r, capacity_of_ge⟩
  obtain ⟨hset, hhash⟩ := hkeys k hk
  exact ⟨contents_ne_none_iff.mpr hset, hhash⟩

theorem keys_fit {keys : List (BitVec 32)} {r : Nat} (hhash : ∀ k ∈ keys, k.toNat % SIZE = r)
    (value : BitVec 32 → BitVec 32) (hlen : keys.length ≤ capacity r) :
    ((keys.map fun k => Call.set k (value k) true).foldlM Call.exec hnew).isSome := by
  induction keys using List.reverseRecOn with
  | nil => rfl
  | append_singleton keys k ih =>
      rw [List.length_append, List.length_singleton] at hlen
      have hbefore := ih (fun k' hk' => hhash k' (List.mem_append_left _ hk')) (by omega)
      obtain ⟨t, ht⟩ := Option.isSome_iff_exists.mp hbefore
      -- fewer keys than slots have been set
      obtain ⟨i, hi, hfree⟩ := exists_free_slot (represents_run ht) (fun k' hk' => by
        obtain ⟨v, hv⟩ := contents_ne_none_iff.mp hk'
        obtain ⟨k'', hmem, heq⟩ := List.mem_map.mp hv
        rwa [← (Call.set.inj heq).1]) (show keys.length < capacity r by omega)
      have hadmits : t.Admits k := by
        rw [admits_iff, hhash k (by simp)]
        exact ⟨i, hi, fun entry hentry => absurd (hfree.symm.trans hentry) (by simp)⟩
      rw [List.map_append, foldlM_append_of_some ht]
      obtain ⟨t', ht'⟩ := Option.isSome_iff_exists.mp
        ((Call.exec_isSome_iff t (.set k (value k) true)).mpr hadmits)
      rw [List.map_singleton, foldlM_cons_of_some ht']
      rfl

/-- **How many keys of one hash fit.** Different keys with the hash `r` can be set in a new table, one
after the other and with any values, exactly if they are at most `capacity r`. -/
theorem colliding_keys_fit_iff {keys : List (BitVec 32)} {r : Nat} (hnodup : keys.Nodup)
    (hhash : ∀ k ∈ keys, k.toNat % SIZE = r) (value : BitVec 32 → BitVec 32) :
    ((keys.map fun k => Call.set k (value k) true).foldlM Call.exec hnew).isSome ↔
      keys.length ≤ capacity r := by
  refine ⟨fun hsome => ?_, keys_fit hhash value⟩
  obtain ⟨t, ht⟩ := Option.isSome_iff_exists.mp hsome
  rw [← List.toFinset_card_of_nodup hnodup]
  refine card_le_capacity (represents_run ht) fun k hk => ?_
  have hmem := List.mem_toFinset.mp hk
  exact ⟨contents_ne_none_iff.mpr ⟨value k, List.mem_map.mpr ⟨k, hmem, rfl⟩⟩, hhash k hmem⟩

-- three keys with the hash 1000
example :
    (([1000, 2024, 3048].map fun k => Call.set k 0 true).foldlM Call.exec hnew).isSome = false := by
  have hfit := @colliding_keys_fit_iff [1000, 2024, 3048] 1000 (by simp) (by simp [SIZE]) fun _ => 0
  rw [capacity_of_ge (by simp) (by simp)] at hfit
  exact Bool.eq_false_iff.mpr fun hsome => absurd (hfit.mp hsome) (by simp)

end CLabs.Hash
