import Mathlib.Data.List.Lex
import Mathlib.Order.Defs.LinearOrder
import Mathlib.Tactic

/-!
# CLabs.Lib.OrdMap

An **ordered map with iterators**, in the manner of `std::map`: the entries are
kept strictly sorted by key, a position in the map is the key it points at, and
`none` is the position past the end.

Every map carries the proof that its entries are sorted, so no operation has a
well-formedness precondition. Clients reason through `find?` (`find?_insert`,
`find?_erase`, `OrdMap.ext`) and through the least key (`begin_eq_some_iff`);
the entry list itself is only looked at in this module.
-/

namespace CLabs.Lib

/-- A finite map whose entries are strictly sorted by key. -/
structure OrdMap (κ ν : Type*) [LinearOrder κ] where
  /-- The entries, in iteration order. -/
  entries : List (κ × ν)
  /-- Keys increase strictly along the iteration. -/
  sorted : entries.Pairwise fun a b => a.1 < b.1

namespace OrdMap

variable {κ ν : Type*} [LinearOrder κ]

instance [DecidableEq ν] : DecidableEq (OrdMap κ ν) := fun m m' =>
  decidable_of_iff (m.entries = m'.entries)
    ⟨fun h => by cases m; cases m'; simpa using h, fun h => by rw [h]⟩

/-! ### Operations -/

/-- The map with no entries. -/
def empty : OrdMap κ ν := ⟨[], List.Pairwise.nil⟩

instance : EmptyCollection (OrdMap κ ν) := ⟨empty⟩

instance : Inhabited (OrdMap κ ν) := ⟨empty⟩

/-- The value stored at `k`, if any. -/
def find? (m : OrdMap κ ν) (k : κ) : Option ν :=
  (m.entries.find? fun e => e.1 = k).map Prod.snd

/-- Number of entries. -/
def size (m : OrdMap κ ν) : Nat := m.entries.length

/-- Is the map empty? -/
def isEmpty (m : OrdMap κ ν) : Bool := m.entries.isEmpty

/-- Sorted insertion into an entry list, replacing an entry of the same key. -/
def insertEntry (k : κ) (v : ν) : List (κ × ν) → List (κ × ν)
  | [] => [(k, v)]
  | e :: rest =>
      if k < e.1 then (k, v) :: e :: rest
      else if k = e.1 then (k, v) :: rest
      else e :: insertEntry k v rest

theorem mem_insertEntry {k : κ} {v : ν} {e : κ × ν} {l : List (κ × ν)}
    (h : e ∈ insertEntry k v l) : e = (k, v) ∨ e ∈ l := by
  induction l with
  | nil => simpa [insertEntry] using h
  | cons a rest ih =>
      rw [insertEntry] at h
      split_ifs at h
      · simpa using h
      · rcases List.mem_cons.mp h with h | h
        · exact Or.inl h
        · exact Or.inr (List.mem_cons_of_mem _ h)
      · rcases List.mem_cons.mp h with rfl | h
        · exact Or.inr List.mem_cons_self
        · exact (ih h).imp_right (List.mem_cons_of_mem _)

theorem insertEntry_sorted {k : κ} {v : ν} {l : List (κ × ν)}
    (h : l.Pairwise fun a b => a.1 < b.1) :
    (insertEntry k v l).Pairwise fun a b => a.1 < b.1 := by
  induction l with
  | nil => simp [insertEntry]
  | cons a rest ih =>
      obtain ⟨ha, hrest⟩ := List.pairwise_cons.mp h
      rw [insertEntry]
      split_ifs with hlt heq
      · refine List.pairwise_cons.mpr ⟨fun e he => ?_, h⟩
        rcases List.mem_cons.mp he with rfl | he
        · exact hlt
        · exact hlt.trans (ha e he)
      · exact List.pairwise_cons.mpr ⟨fun e he => heq ▸ ha e he, hrest⟩
      · refine List.pairwise_cons.mpr ⟨fun e he => ?_, ih hrest⟩
        rcases mem_insertEntry he with rfl | he
        · exact lt_of_le_of_ne (not_lt.mp hlt) (Ne.symm heq)
        · exact ha e he

/-- Assign `v` to `k` (`m[k] = v`). -/
def insert (m : OrdMap κ ν) (k : κ) (v : ν) : OrdMap κ ν :=
  ⟨insertEntry k v m.entries, insertEntry_sorted m.sorted⟩

/-- Add an entry unless the key is present already (`m.insert`, `m.emplace`). -/
def emplace (m : OrdMap κ ν) (k : κ) (v : ν) : OrdMap κ ν :=
  match m.find? k with
  | some _ => m
  | none => m.insert k v

/-- Keep the entries that satisfy `p`. -/
def filter (m : OrdMap κ ν) (p : κ → ν → Bool) : OrdMap κ ν :=
  ⟨m.entries.filter fun e => p e.1 e.2, m.sorted.filter _⟩

/-- Remove the entry of `k`, if any. -/
def erase (m : OrdMap κ ν) (k : κ) : OrdMap κ ν := m.filter fun k' _ => k' ≠ k

/-- The first position: the least key, or past the end when the map is empty. -/
def begin (m : OrdMap κ ν) : Option κ := m.entries.head?.map Prod.fst

/-- The position after `k`: the least key above it, or past the end. -/
def next (m : OrdMap κ ν) (k : κ) : Option κ :=
  (m.entries.find? fun e => k < e.1).map Prod.fst

/-! ### Lookup -/

/-- Two entries of one sorted list with the same key are the same entry. -/
theorem eq_of_mem_sorted {l : List (κ × ν)} (h : l.Pairwise fun a b => a.1 < b.1)
    {a b : κ × ν} (ha : a ∈ l) (hb : b ∈ l) (hab : a.1 = b.1) : a = b := by
  induction l with
  | nil => simp at ha
  | cons c rest ih =>
      obtain ⟨hc, hrest⟩ := List.pairwise_cons.mp h
      rcases List.mem_cons.mp ha with rfl | ha' <;> rcases List.mem_cons.mp hb with rfl | hb'
      · rfl
      · exact absurd (hc b hb') (by rw [hab]; exact lt_irrefl _)
      · exact absurd (hc a ha') (by rw [hab]; exact lt_irrefl _)
      · exact ih hrest ha' hb'

theorem find?_eq_some_iff {m : OrdMap κ ν} {k : κ} {v : ν} :
    m.find? k = some v ↔ (k, v) ∈ m.entries := by
  unfold find?
  constructor
  · intro h
    obtain ⟨e, he, rfl⟩ := Option.map_eq_some_iff.mp h
    have hk : e.1 = k := by simpa using List.find?_some he
    rw [← hk]
    exact List.mem_of_find?_eq_some he
  · intro h
    cases hf : m.entries.find? (fun e => e.1 = k) with
    | none => simpa using List.find?_eq_none.mp hf _ h
    | some e =>
        have hk : e.1 = k := by simpa using List.find?_some hf
        rw [eq_of_mem_sorted m.sorted (List.mem_of_find?_eq_some hf) h hk]
        rfl

theorem nodup_entries (m : OrdMap κ ν) : m.entries.Nodup :=
  m.sorted.imp fun {a b} hab (he : a = b) => absurd hab (by rw [he]; exact lt_irrefl _)

/-- Maps with the same lookups are equal: the sorted entry list is canonical. -/
@[ext] theorem ext {m m' : OrdMap κ ν} (h : ∀ k, m.find? k = m'.find? k) : m = m' := by
  have hmem : ∀ e, e ∈ m.entries ↔ e ∈ m'.entries := fun e => by
    rw [← find?_eq_some_iff (m := m), ← find?_eq_some_iff (m := m'), h]
  have heq : m.entries = m'.entries := by
    refine List.Perm.eq_of_pairwise (fun a b _ _ hab hba => absurd hab hba.not_gt)
      m.sorted m'.sorted ?_
    exact (List.perm_ext_iff_of_nodup m.nodup_entries m'.nodup_entries).mpr hmem
  cases m; cases m'
  cases heq
  rfl

@[simp] theorem find?_empty (k : κ) : (∅ : OrdMap κ ν).find? k = none := rfl

theorem find?_filter (m : OrdMap κ ν) (p : κ → ν → Bool) (k : κ) :
    (m.filter p).find? k = (m.find? k).filter (p k) := by
  ext v
  rw [find?_eq_some_iff, Option.filter_eq_some_iff, find?_eq_some_iff]
  exact List.mem_filter

theorem find?_erase (m : OrdMap κ ν) (k k' : κ) :
    (m.erase k).find? k' = if k' = k then none else m.find? k' := by
  rw [erase, find?_filter]
  split_ifs with h
  · cases m.find? k' <;> simp [h]
  · cases m.find? k' <;> simp [h]

@[simp] theorem find?_erase_self (m : OrdMap κ ν) (k : κ) : (m.erase k).find? k = none := by
  rw [find?_erase, if_pos rfl]

theorem find?_erase_of_ne (m : OrdMap κ ν) {k k' : κ} (h : k' ≠ k) :
    (m.erase k).find? k' = m.find? k' := by
  rw [find?_erase, if_neg h]

theorem find?_of_find?_erase {m : OrdMap κ ν} {k k' : κ} {v : ν}
    (h : (m.erase k).find? k' = some v) : m.find? k' = some v := by
  rw [find?_erase] at h
  split_ifs at h
  exact h

theorem mem_insertEntry_iff {k : κ} {v : ν} {e : κ × ν} {l : List (κ × ν)}
    (h : l.Pairwise fun a b => a.1 < b.1) :
    e ∈ insertEntry k v l ↔ e = (k, v) ∨ (e ∈ l ∧ e.1 ≠ k) := by
  induction l with
  | nil => simp [insertEntry]
  | cons a rest ih =>
      obtain ⟨ha, hrest⟩ := List.pairwise_cons.mp h
      rw [insertEntry]
      split_ifs with hlt heq
      · have above : ∀ e ∈ a :: rest, e.1 ≠ k := by
          intro e he
          rcases List.mem_cons.mp he with rfl | he
          · exact hlt.ne'
          · exact (hlt.trans (ha e he)).ne'
        rw [List.mem_cons]
        exact or_congr_right ⟨fun he => ⟨he, above e he⟩, And.left⟩
      · subst heq
        rw [List.mem_cons, List.mem_cons]
        refine or_congr_right ⟨fun he => ⟨Or.inr he, (ha e he).ne'⟩, ?_⟩
        intro hcases
        rcases hcases with ⟨rfl | he, hne⟩
        · exact absurd rfl hne
        · exact he
      · rw [List.mem_cons, List.mem_cons, ih hrest]
        constructor
        · intro hcases
          rcases hcases with rfl | rfl | ⟨he, hne⟩
          · exact Or.inr ⟨Or.inl rfl, Ne.symm heq⟩
          · exact Or.inl rfl
          · exact Or.inr ⟨Or.inr he, hne⟩
        · intro hcases
          rcases hcases with rfl | ⟨rfl | he, hne⟩
          · exact Or.inr (Or.inl rfl)
          · exact Or.inl rfl
          · exact Or.inr (Or.inr ⟨he, hne⟩)

theorem find?_insert (m : OrdMap κ ν) (k k' : κ) (v : ν) :
    (m.insert k v).find? k' = if k' = k then some v else m.find? k' := by
  ext w
  rw [find?_eq_some_iff, insert, mem_insertEntry_iff m.sorted]
  split_ifs with h
  · subst h
    simp [eq_comm]
  · simp [h, find?_eq_some_iff]

@[simp] theorem find?_insert_self (m : OrdMap κ ν) (k : κ) (v : ν) :
    (m.insert k v).find? k = some v := by
  rw [find?_insert, if_pos rfl]

theorem find?_insert_of_ne (m : OrdMap κ ν) {k k' : κ} (v : ν) (h : k' ≠ k) :
    (m.insert k v).find? k' = m.find? k' := by
  rw [find?_insert, if_neg h]

/-- Storing what is there already changes nothing. -/
theorem insert_of_find? {m : OrdMap κ ν} {k : κ} {v : ν} (h : m.find? k = some v) :
    m.insert k v = m := by
  ext1 k'
  rw [find?_insert]
  split_ifs with hk
  · rw [hk, h]
  · rfl

theorem emplace_of_find?_eq_none {m : OrdMap κ ν} {k : κ} (h : m.find? k = none) (v : ν) :
    m.emplace k v = m.insert k v := by
  rw [emplace, h]

/-! ### Keys -/

instance : Membership κ (OrdMap κ ν) := ⟨fun m k => (m.find? k).isSome⟩

theorem mem_iff {m : OrdMap κ ν} {k : κ} : k ∈ m ↔ (m.find? k).isSome := Iff.rfl

theorem mem_iff_exists {m : OrdMap κ ν} {k : κ} : k ∈ m ↔ ∃ v, m.find? k = some v :=
  Option.isSome_iff_exists

instance (m : OrdMap κ ν) (k : κ) : Decidable (k ∈ m) :=
  inferInstanceAs (Decidable ((m.find? k).isSome = true))

theorem mem_of_mem_entries {m : OrdMap κ ν} {e : κ × ν} (h : e ∈ m.entries) : e.1 ∈ m :=
  mem_iff_exists.mpr ⟨e.2, find?_eq_some_iff.mpr h⟩

theorem mem_erase {m : OrdMap κ ν} {k k' : κ} : k' ∈ m.erase k ↔ k' ≠ k ∧ k' ∈ m := by
  rw [mem_iff, mem_iff, find?_erase]
  split_ifs with h <;> simp [h]

theorem mem_insert {m : OrdMap κ ν} {k k' : κ} {v : ν} :
    k' ∈ m.insert k v ↔ k' = k ∨ k' ∈ m := by
  rw [mem_iff, mem_iff, find?_insert]
  split_ifs with h <;> simp [h]

theorem isEmpty_iff {m : OrdMap κ ν} : m.isEmpty = true ↔ ∀ k, k ∉ m := by
  constructor
  · intro h k hk
    obtain ⟨v, hv⟩ := mem_iff_exists.mp hk
    rw [find?_eq_some_iff, List.isEmpty_iff.mp h] at hv
    exact List.not_mem_nil hv
  · intro h
    refine List.isEmpty_iff.mpr (List.eq_nil_iff_forall_not_mem.mpr fun e he => ?_)
    exact h e.1 (mem_of_mem_entries he)

/-! ### Sizes -/

theorem length_insertEntry_le (k : κ) (v : ν) (l : List (κ × ν)) :
    (insertEntry k v l).length ≤ l.length + 1 := by
  induction l with
  | nil => simp [insertEntry]
  | cons a rest ih =>
      rw [insertEntry]
      split_ifs <;> simp only [List.length_cons] <;> omega

theorem size_insert_le (m : OrdMap κ ν) (k : κ) (v : ν) : (m.insert k v).size ≤ m.size + 1 :=
  length_insertEntry_le k v m.entries

theorem length_insertEntry_of_mem {k : κ} {v w : ν} {l : List (κ × ν)}
    (h : l.Pairwise fun a b => a.1 < b.1) (hmem : (k, w) ∈ l) :
    (insertEntry k v l).length = l.length := by
  induction l with
  | nil => simp at hmem
  | cons a rest ih =>
      obtain ⟨ha, hrest⟩ := List.pairwise_cons.mp h
      rw [insertEntry]
      split_ifs with hlt heq
      · rcases List.mem_cons.mp hmem with rfl | hmem
        · exact absurd hlt (lt_irrefl _)
        · exact absurd (ha _ hmem) hlt.not_gt
      · rfl
      · rcases List.mem_cons.mp hmem with rfl | hmem
        · exact absurd rfl heq
        · rw [List.length_cons, List.length_cons, ih hrest hmem]

theorem size_insert_of_mem {m : OrdMap κ ν} {k : κ} (h : k ∈ m) (v : ν) :
    (m.insert k v).size = m.size := by
  obtain ⟨w, hw⟩ := mem_iff_exists.mp h
  exact length_insertEntry_of_mem m.sorted (find?_eq_some_iff.mp hw)

theorem size_erase_lt {m : OrdMap κ ν} {k : κ} (h : k ∈ m) : (m.erase k).size < m.size := by
  obtain ⟨v, hv⟩ := mem_iff_exists.mp h
  exact List.length_filter_lt_length_iff_exists.mpr
    ⟨(k, v), find?_eq_some_iff.mp hv, by simp⟩

theorem length_le_size {m : OrdMap κ ν} {l : List κ} (hl : l.Nodup) (hmem : ∀ k ∈ l, k ∈ m) :
    l.length ≤ m.size := by
  have hsub : l ⊆ m.entries.map Prod.fst := by
    intro k hk
    obtain ⟨v, hv⟩ := mem_iff_exists.mp (hmem k hk)
    exact List.mem_map.mpr ⟨(k, v), find?_eq_some_iff.mp hv, rfl⟩
  have hle := (hl.subperm hsub).length_le
  rwa [List.length_map] at hle

/-! ### Positions -/

theorem begin_eq_some_iff {m : OrdMap κ ν} {k : κ} :
    m.begin = some k ↔ k ∈ m ∧ ∀ k' ∈ m, k ≤ k' := by
  constructor
  · intro h
    obtain ⟨e, he, rfl⟩ := Option.map_eq_some_iff.mp h
    obtain ⟨rest, hrest⟩ := List.head?_eq_some_iff.mp he
    refine ⟨mem_of_mem_entries (by rw [hrest]; exact List.mem_cons_self), fun k' hk' => ?_⟩
    obtain ⟨v, hv⟩ := mem_iff_exists.mp hk'
    have hsorted := m.sorted
    rw [find?_eq_some_iff, hrest] at hv
    rw [hrest] at hsorted
    rcases List.mem_cons.mp hv with rfl | hv
    · exact le_rfl
    · exact ((List.pairwise_cons.mp hsorted).1 _ hv).le
  · intro ⟨hk, hleast⟩
    obtain ⟨v, hv⟩ := mem_iff_exists.mp hk
    rw [find?_eq_some_iff] at hv
    rw [begin]
    cases hm : m.entries with
    | nil => rw [hm] at hv; exact absurd hv List.not_mem_nil
    | cons e rest =>
        have hsorted := m.sorted
        rw [hm] at hsorted hv
        have hle : k ≤ e.1 := hleast e.1 (mem_of_mem_entries (by rw [hm]; exact List.mem_cons_self))
        rcases List.mem_cons.mp hv with rfl | hv
        · rfl
        · exact absurd ((List.pairwise_cons.mp hsorted).1 _ hv) hle.not_gt

theorem begin_eq_none_iff {m : OrdMap κ ν} : m.begin = none ↔ ∀ k, k ∉ m := by
  rw [← isEmpty_iff, begin, Option.map_eq_none_iff, List.head?_eq_none_iff, isEmpty,
    List.isEmpty_iff]

theorem next_mem {m : OrdMap κ ν} {k k' : κ} (h : m.next k = some k') : k' ∈ m ∧ k < k' := by
  obtain ⟨e, he, rfl⟩ := Option.map_eq_some_iff.mp h
  exact ⟨mem_of_mem_entries (List.mem_of_find?_eq_some he), by simpa using List.find?_some he⟩

theorem next_eq_none_iff {m : OrdMap κ ν} {k : κ} : m.next k = none ↔ ∀ k' ∈ m, k' ≤ k := by
  rw [next, Option.map_eq_none_iff, List.find?_eq_none]
  constructor
  · intro h k' hk'
    obtain ⟨v, hv⟩ := mem_iff_exists.mp hk'
    exact not_lt.mp (by simpa using h (k', v) (find?_eq_some_iff.mp hv))
  · intro h e he
    simpa using h e.1 (mem_of_mem_entries he)

/-- No position lies between one and the next. -/
theorem next_le {m : OrdMap κ ν} {k k' j : κ} (h : m.next k = some k') (hj : j ∈ m)
    (hlt : k < j) : k' ≤ j := by
  obtain ⟨e, he, rfl⟩ := Option.map_eq_some_iff.mp h
  obtain ⟨v, hv⟩ := mem_iff_exists.mp hj
  obtain ⟨-, before, after, heq, hbefore⟩ := List.find?_eq_some_iff_append.mp he
  have hmem := find?_eq_some_iff.mp hv
  rw [heq, List.mem_append, List.mem_cons] at hmem
  rcases hmem with hmem | rfl | hmem
  · exact absurd hlt (by simpa using hbefore _ hmem)
  · exact le_rfl
  · have hsorted := m.sorted
    rw [heq, List.pairwise_append, List.pairwise_cons] at hsorted
    exact (hsorted.2.1.1 _ hmem).le

/-- The position after the first one is the first one of the map without it. -/
theorem next_of_begin {m : OrdMap κ ν} {k : κ} (h : m.begin = some k) :
    m.next k = (m.erase k).begin := by
  obtain ⟨hk, hleast⟩ := begin_eq_some_iff.mp h
  have above : ∀ e ∈ m.entries, (decide (k < e.1)) = decide (e.1 ≠ k) := by
    intro e he
    have hle := hleast e.1 (mem_of_mem_entries he)
    exact decide_eq_decide.mpr ⟨ne_of_gt, fun hne => lt_of_le_of_ne hle (Ne.symm hne)⟩
  rw [next, begin, erase, filter, List.head?_filter]
  congr 1
  exact List.find?_congr above

/-! ### Values -/

/-- The values stored, each as often as it occurs. -/
def values (m : OrdMap κ ν) : Multiset ν := m.entries.map Prod.snd

@[simp] theorem values_empty : (∅ : OrdMap κ ν).values = 0 := rfl

/-- Erasing takes out the value that was there. -/
theorem values_of_find? {m : OrdMap κ ν} {k : κ} {v : ν} (h : m.find? k = some v) :
    m.values = v ::ₘ (m.erase k).values := by
  have hnew : (k, v) ∉ (m.erase k).entries := by
    intro hmem
    have hfind := find?_eq_some_iff.mpr hmem
    rw [find?_erase_self] at hfind
    exact absurd hfind (by simp)
  have hperm : m.entries.Perm ((k, v) :: (m.erase k).entries) := by
    refine (List.perm_ext_iff_of_nodup m.nodup_entries
      (List.nodup_cons.mpr ⟨hnew, (m.erase k).nodup_entries⟩)).mpr fun e => ?_
    rw [List.mem_cons, ← find?_eq_some_iff, ← find?_eq_some_iff, find?_erase]
    by_cases hk : e.1 = k
    · rw [if_pos hk, hk, h, Prod.ext_iff]
      simp [hk, eq_comm]
    · rw [if_neg hk, Prod.ext_iff]
      simp [hk]
  exact Multiset.coe_eq_coe.mpr (hperm.map Prod.snd)

theorem erase_of_find?_eq_none {m : OrdMap κ ν} {k : κ} (h : m.find? k = none) :
    m.erase k = m := by
  ext1 k'
  rw [find?_erase]
  split_ifs with hk
  · rw [hk, h]
  · rfl

/-- Assigning puts the new value in the place of the old one. -/
theorem values_insert (m : OrdMap κ ν) (k : κ) (v : ν) :
    (m.insert k v).values = v ::ₘ (m.erase k).values := by
  rw [values_of_find? (find?_insert_self m k v)]
  congr 2
  ext1 k'
  rw [find?_erase, find?_erase, find?_insert]
  split_ifs <;> rfl

/-! ### Values replaced -/

section

variable {ω : Type*} (f : ν → ω) (m : OrdMap κ ν) (k : κ)

/-- Apply `f` to every value. -/
def mapValues : OrdMap κ ω :=
  ⟨m.entries.map fun e => (e.1, f e.2), List.pairwise_map.mpr m.sorted⟩

theorem find?_mapValues : (m.mapValues f).find? k = (m.find? k).map f := by
  rw [find?, mapValues, List.find?_map, find?, Option.map_map, Option.map_map]
  rfl

@[simp] theorem mem_mapValues : k ∈ m.mapValues f ↔ k ∈ m := by
  rw [mem_iff, mem_iff, find?_mapValues, Option.isSome_map]

theorem mapValues_insert (v : ν) : (m.insert k v).mapValues f = (m.mapValues f).insert k (f v) := by
  ext1 k'
  rw [find?_mapValues, find?_insert, find?_insert, find?_mapValues]
  split_ifs <;> rfl

theorem mapValues_erase : (m.erase k).mapValues f = (m.mapValues f).erase k := by
  ext1 k'
  rw [find?_mapValues, find?_erase, find?_erase, find?_mapValues]
  split_ifs <;> rfl

theorem begin_mapValues : (m.mapValues f).begin = m.begin := by
  rw [begin, mapValues, List.head?_map, begin, Option.map_map]
  rfl

theorem next_mapValues : (m.mapValues f).next k = m.next k := by
  rw [next, mapValues, List.find?_map, next, Option.map_map]
  rfl

theorem isEmpty_mapValues : (m.mapValues f).isEmpty = m.isEmpty := List.isEmpty_map

end

/-- An entry that comes after all others is put at the end. -/
theorem entries_emplace_of_lt {m : OrdMap κ ν} {k : κ} (v : ν) (h : ∀ e ∈ m.entries, e.1 < k) :
    (m.emplace k v).entries = m.entries ++ [(k, v)] := by
  have hnone : m.find? k = none := by
    rw [Option.eq_none_iff_forall_ne_some]
    intro w hw
    exact lt_irrefl k (h (k, w) (find?_eq_some_iff.mp hw))
  rw [emplace_of_find?_eq_none hnone]
  show insertEntry k v m.entries = _
  generalize m.entries = l at h
  induction l with
  | nil => rfl
  | cons e rest ih =>
      have he := h e List.mem_cons_self
      rw [insertEntry, if_neg he.not_gt, if_neg he.ne', ih fun e' he' => h e' (by simp [he'])]
      rfl

end OrdMap

end CLabs.Lib
