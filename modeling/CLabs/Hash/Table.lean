import CLabs.Lib.Loop
import CLabs.Lib.Run
import Mathlib.Algebra.BigOperators.Intervals

/-!
# CLabs.Hash.Table

The model of `hashtable.c`: an array of `SIZE` pointers to pairs of a key and a value, and
`hget`, which looks for the slot of a key.

`hget` does not index the array by the hash of the key. It starts at the first slot and
advances its pointer by a counter that starts at the hash and grows, so the `n`-th slot
it inspects is a sum of `n` terms, and the pointer is never brought back into the array.
The model stops where the source would leave the array, and answers `none`.
`probes_inRange_iff` says when this does not happen: a slot that ends the search has to lie among
the few indices of the sum that are below `SIZE`.
-/

namespace CLabs.Hash

open CLabs.Lib

/-! ### The table -/

/-- `SIZE`. -/
def SIZE : Nat := 1024

/-- What a slot points at: `int[2]`. -/
structure Entry where
  key : BitVec 32
  value : BitVec 32
  deriving Repr, DecidableEq

/-- The array of pointers; `none` is the null pointer. -/
def Table : Type := Fin SIZE → Option Entry

/-- `hnew`. -/
def hnew : Table := fun _ => none

/-- The slot at a position: `none` outside of the array. -/
def Table.slot? (t : Table) (pos : Nat) : Option (Option Entry) :=
  if h : pos < SIZE then some (t ⟨pos, h⟩) else none

/-- The variables of the loop of `hget`. -/
structure Probe where
  h : Nat
  /-- The index of the slot `t` points at. -/
  pos : Nat
  deriving Repr, DecidableEq

/-- One round of the loop, its condition included. -/
def probeBody (t : Table) (k : BitVec 32) (p : Probe) : ForInStep Probe :=
  match t.slot? p.pos with
  -- the source goes on with whatever lies behind the array
  | none => .done p
  | some none => .done p
  | some (some entry) =>
      if entry.key ≠ k then
        let h := (p.h + 1) &&& (SIZE - 1)
        .yield ⟨h, p.pos + h⟩
      else .done p

theorem Table.slot?_eq_some {t : Table} {pos : Nat} {slot : Option Entry}
    (h : t.slot? pos = some slot) : pos < SIZE := by
  unfold Table.slot? at h
  split_ifs at h with hlt
  exact hlt

theorem probeBody_yield {t : Table} {k : BitVec 32} {p p' : Probe}
    (h : probeBody t k p = .yield p') :
    (∃ entry, t.slot? p.pos = some (some entry) ∧ entry.key ≠ k) ∧
      p' = ⟨(p.h + 1) % SIZE, p.pos + (p.h + 1) % SIZE⟩ := by
  have hmask : (p.h + 1) &&& (SIZE - 1) = (p.h + 1) % SIZE := Nat.and_two_pow_sub_one_eq_mod _ 10
  unfold probeBody at h
  rw [hmask] at h
  cases hslot : t.slot? p.pos with
  | none => simp [hslot] at h
  | some slot =>
      cases slot with
      | none => simp [hslot] at h
      | some entry =>
          simp only [hslot] at h
          by_cases hkey : entry.key ≠ k
          · rw [if_pos hkey] at h
            exact ⟨⟨entry, rfl, hkey⟩, (ForInStep.yield.inj h).symm⟩
          · rw [if_neg hkey] at h
            exact absurd h (by simp)

/-- The round ends the search at the slot it looks at. -/
theorem probeBody_done {t : Table} {k : BitVec 32} {p p' : Probe}
    (h : probeBody t k p = .done p') :
    p' = p ∧ ∀ entry, t.slot? p.pos = some (some entry) → entry.key = k := by
  unfold probeBody at h
  cases hslot : t.slot? p.pos with
  | none =>
      simp only [hslot, ForInStep.done.injEq] at h
      exact ⟨h.symm, fun entry hentry => absurd hentry (by simp)⟩
  | some slot =>
      cases slot with
      | none =>
          simp only [hslot, ForInStep.done.injEq] at h
          exact ⟨h.symm, fun entry hentry => absurd hentry (by simp)⟩
      | some entry =>
          simp only [hslot] at h
          by_cases hkey : entry.key ≠ k
          · rw [if_pos hkey] at h
            exact absurd h (by simp)
          · rw [if_neg hkey] at h
            refine ⟨(ForInStep.done.inj h).symm, fun entry' hentry' => ?_⟩
            obtain rfl := Option.some.inj (Option.some.inj hentry')
            exact not_not.mp hkey

/-- The pointer advances in every round but those in which the counter wraps, and these
do not follow each other. -/
def probeMeasure (p : Probe) : Nat := 2 * (SIZE - p.pos) + if (p.h + 1) % SIZE = 0 then 1 else 0

theorem probeBody_decreases (t : Table) (k : BitVec 32) :
    Decreases (probeBody t k) probeMeasure := by
  intro p p' h
  obtain ⟨⟨entry, hslot, -⟩, rfl⟩ := probeBody_yield h
  have hpos := Table.slot?_eq_some hslot
  unfold probeMeasure
  dsimp only
  generalize (p.h + 1) % SIZE = h'
  by_cases hwrap : h' = 0
  · rw [if_pos hwrap, hwrap, if_neg (by decide)]
    omega
  · rw [if_neg hwrap]
    split_ifs <;> omega

/-- Where the loop of `hget` ends. -/
def probe (t : Table) (k : BitVec 32) : Probe :=
  whileLoop (probeBody t k) probeMeasure (probeBody_decreases t k) ⟨(k &&& 1023).toNat, 0⟩

/-- `hget`: the slot that holds the key, or an empty one; `none` when a slot outside of the
array would be inspected. -/
def hget (t : Table) (k : BitVec 32) : Option (Fin SIZE) :=
  if h : (probe t k).pos < SIZE then some ⟨(probe t k).pos, h⟩ else none

/-- `hset`, where `malloc` says whether the memory for an entry is there. A slot that holds
the key already is left alone. -/
def hset (t : Table) (k v : BitVec 32) (malloc : Bool) : Option Table :=
  match hget t k with
  | none => none
  | some a =>
      match t a with
      | some _ => some t
      | none => if malloc then some (Function.update t a (some ⟨k, v⟩)) else some t

/-- A call on the table. -/
inductive Call
  | set (k v : BitVec 32) (malloc : Bool)
  | get (k : BitVec 32)
  deriving Repr, DecidableEq

/-- The key a call is about. -/
def Call.key : Call → BitVec 32
  | set k _ _ => k
  | get k => k

/-- The table after a call; `none` when the call inspects a slot outside of the array. -/
def Call.exec (t : Table) : Call → Option Table
  | set k v malloc => hset t k v malloc
  | get k => (hget t k).map fun _ => t

/-! ### The slots inspected -/

/-- The index of the `n`-th slot inspected for a key whose hash is `r`: what the counter was
in the rounds before, added up. -/
def probeIndex (r n : Nat) : Nat := ∑ j ∈ Finset.range n, (r + 1 + j) % SIZE

theorem probeIndex_succ (r n : Nat) :
    probeIndex r (n + 1) = probeIndex r n + (r + 1 + n) % SIZE :=
  Finset.sum_range_succ _ _

theorem probeIndex_mono (r : Nat) : Monotone (probeIndex r) :=
  monotone_nat_of_le_succ fun n => by
    rw [probeIndex_succ]
    exact Nat.le_add_right _ _

/-- The search ends at the position: it lies outside of the array, or the slot is empty or
holds the key. -/
def Table.Stops (t : Table) (k : BitVec 32) (pos : Nat) : Prop :=
  ∀ entry, t.slot? pos = some (some entry) → entry.key = k

/-- `hget` ends at the first slot, in the order it inspects them, that ends the search. -/
theorem probe_spec (t : Table) (k : BitVec 32) :
    ∃ n, (probe t k).pos = probeIndex (k.toNat % SIZE) n ∧
      t.Stops k (probeIndex (k.toNat % SIZE) n) ∧
      ∀ m < n, ¬ t.Stops k (probeIndex (k.toNat % SIZE) m) := by
  let r := k.toNat % SIZE
  have hstart : (k &&& 1023).toNat = r := by
    rw [BitVec.toNat_and]
    exact Nat.and_two_pow_sub_one_eq_mod _ 10
  -- after `n` rounds without a stop the variables are those of the `n`-th slot
  let inv (p : Probe) : Prop := ∃ n, p = ⟨(r + n) % SIZE, probeIndex r n⟩ ∧
    ∀ m < n, ¬ t.Stops k (probeIndex r m)
  let exit (p : Probe) : Prop := ∃ n, p.pos = probeIndex r n ∧ t.Stops k (probeIndex r n) ∧
    ∀ m < n, ¬ t.Stops k (probeIndex r m)
  refine whileLoop_rule (probeBody_decreases t k) inv exit ?_ ?_ ⟨0, ?_, by simp⟩
  · intro p p' ⟨n, hp, hbefore⟩ hbody
    obtain ⟨⟨entry, hslot, hkey⟩, rfl⟩ := probeBody_yield hbody
    subst hp
    have hcount : ((r + n) % SIZE + 1) % SIZE = (r + 1 + n) % SIZE := by
      simp only [SIZE]
      omega
    refine ⟨n + 1, ?_, fun m hm => ?_⟩
    · dsimp only
      rw [hcount, probeIndex_succ]
      congr 2
      omega
    · rcases Nat.lt_succ_iff_lt_or_eq.mp hm with hlt | rfl
      · exact hbefore m hlt
      · exact fun hstops => hkey (hstops entry hslot)
  · intro p p' ⟨n, hp, hbefore⟩ hbody
    obtain ⟨rfl, hstops⟩ := probeBody_done hbody
    subst hp
    exact ⟨n, rfl, hstops, hbefore⟩
  · show (⟨(k &&& 1023).toNat, 0⟩ : Probe) = _
    rw [hstart]
    show (⟨r, 0⟩ : Probe) = ⟨(r + 0) % SIZE, 0⟩
    rw [Nat.add_zero, Nat.mod_mod]

/-- `hget` stays inside the array iff one of the slots in it that it may inspect ends the
search. -/
theorem hget_isSome_iff (t : Table) (k : BitVec 32) :
    (hget t k).isSome ↔
      ∃ n, probeIndex (k.toNat % SIZE) n < SIZE ∧ t.Stops k (probeIndex (k.toNat % SIZE) n) := by
  obtain ⟨n, hpos, hstops, hbefore⟩ := probe_spec t k
  have hsome : (hget t k).isSome ↔ (probe t k).pos < SIZE := by
    unfold hget
    split_ifs with hlt <;> simp [hlt]
  rw [hsome, hpos]
  constructor
  · exact fun hlt => ⟨n, hlt, hstops⟩
  · intro ⟨n', hlt, hstops'⟩
    have hle : n ≤ n' := not_lt.mp fun hbetween => hbefore n' hbetween hstops'
    exact lt_of_le_of_lt (probeIndex_mono _ hle) hlt

/-! ### The indices in closed form -/

/-- What the counter would add up to if it did not wrap, `c` being its value after the first
round. -/
def freeIndex (c n : Nat) : Nat := ∑ j ∈ Finset.range n, (c + j)

theorem freeIndex_succ (c n : Nat) : freeIndex c (n + 1) = freeIndex c n + (c + n) :=
  Finset.sum_range_succ _ _

theorem freeIndex_eq (c n : Nat) : freeIndex c n = n * c + n * (n - 1) / 2 := by
  rw [freeIndex, Finset.sum_add_distrib, Finset.sum_const, Finset.card_range, smul_eq_mul,
    Finset.sum_range_id]

/-- Up to the wrap the two agree. -/
theorem probeIndex_eq_freeIndex {r n : Nat} (h : (r + 1) % SIZE + n ≤ SIZE) :
    probeIndex r n = freeIndex ((r + 1) % SIZE) n := by
  refine Finset.sum_congr rfl fun j hj => ?_
  have hlt := Finset.mem_range.mp hj
  simp only [SIZE] at h ⊢
  omega

/-- The indices below `SIZE` are the same: the counter wraps only once the pointer has left
the array, or at its very last slot, where it then stays for a round. -/
theorem probeIndex_lt_iff {r i : Nat} (hi : i < SIZE) :
    (∃ n, probeIndex r n = i) ↔ ∃ n, freeIndex ((r + 1) % SIZE) n = i := by
  have hc : (r + 1) % SIZE < SIZE := Nat.mod_lt _ (by decide)
  have hagree := fun n => probeIndex_eq_freeIndex (r := r) (n := n)
  have hSIZE : SIZE = 1024 := rfl
  generalize (r + 1) % SIZE = c at hc hagree ⊢
  constructor
  · intro ⟨n, hn⟩
    by_cases hwrap : c + n ≤ SIZE
    · exact ⟨n, by rw [← hagree n hwrap, hn]⟩
    · -- the slot inspected before the wrap is the last one of the array
      have hle : freeIndex c (SIZE - c) ≤ i := by
        rw [← hagree _ (by omega), ← hn]
        exact probeIndex_mono r (by omega)
      obtain ⟨m, hm⟩ : ∃ m, SIZE - c = m + 1 := ⟨SIZE - c - 1, by omega⟩
      rw [hm, freeIndex_succ] at hle
      cases m with
      | zero =>
          refine ⟨1, ?_⟩
          rw [freeIndex_succ]
          omega
      | succ m =>
          rw [freeIndex_succ] at hle
          omega
  · intro ⟨n, hn⟩
    have hwrap : c + n ≤ SIZE := by
      cases n with
      | zero => exact hc.le
      | succ n =>
          rw [freeIndex_succ] at hn
          omega
    exact ⟨n, by rw [hagree n hwrap, hn]⟩

/-! ### Runs -/

/-- A slot of the table at one of the indices `n c + n (n - 1) / 2`, with `c` one more than
the key modulo `SIZE`, is empty or holds the key. -/
def Table.Admits (t : Table) (k : BitVec 32) : Prop :=
  ∃ (n : Nat) (i : Fin SIZE),
    i.val = n * ((k.toNat + 1) % SIZE) + n * (n - 1) / 2 ∧
      ∀ entry, t i = some entry → entry.key = k

theorem Table.stops_iff {t : Table} {k : BitVec 32} (i : Fin SIZE) :
    t.Stops k i.val ↔ ∀ entry, t i = some entry → entry.key = k := by
  have hslot : t.slot? i.val = some (t i) := dif_pos i.isLt
  unfold Table.Stops
  rw [hslot]
  simp only [Option.some.injEq]

theorem hget_isSome_iff_admits (t : Table) (k : BitVec 32) : (hget t k).isSome ↔ t.Admits k := by
  have hmod : (k.toNat % SIZE + 1) % SIZE = (k.toNat + 1) % SIZE := Nat.mod_add_mod _ _ _
  rw [hget_isSome_iff]
  constructor
  · intro ⟨n, hlt, hstops⟩
    obtain ⟨n', hn'⟩ := (probeIndex_lt_iff hlt).mp ⟨n, rfl⟩
    rw [freeIndex_eq, hmod] at hn'
    exact ⟨n', ⟨_, hlt⟩, hn'.symm, (Table.stops_iff ⟨_, hlt⟩).mp hstops⟩
  · intro ⟨n, i, hi, hstops⟩
    rw [← hmod, ← freeIndex_eq] at hi
    obtain ⟨n', hn'⟩ := (probeIndex_lt_iff i.isLt).mpr ⟨n, hi.symm⟩
    rw [← Table.stops_iff, ← hn'] at hstops
    exact ⟨n', hn' ▸ i.isLt, hstops⟩

theorem Call.exec_isSome_iff (t : Table) (call : Call) :
    (call.exec t).isSome ↔ t.Admits call.key := by
  rw [← hget_isSome_iff_admits]
  cases call with
  | get k => exact iff_of_eq (congrArg (· = true) Option.isSome_map)
  | set k v malloc =>
      show (hset t k v malloc).isSome ↔ (hget t k).isSome
      unfold hset
      cases hget t k with
      | none => rfl
      | some a =>
          dsimp only
          cases t a with
          | some entry => rfl
          | none => cases malloc <;> rfl

/-- **Probing stays inside the array.** For every sequence of calls on a new table: no call
inspects a slot outside of the array, iff each call finds, in the table it is made on, a
slot that is empty or holds its key at one of the indices of its key. -/
theorem probes_inRange_iff (calls : List Call) :
    (calls.foldlM Call.exec hnew).isSome ↔
      ∀ past call rest t, calls = past ++ call :: rest → past.foldlM Call.exec hnew = some t →
        t.Admits call.key := by
  rw [foldlM_isSome_iff]
  simp only [Call.exec_isSome_iff]

/-- Three keys. The slot of the second is the only one besides the first that its hash leads
to, and the third has the same hash. -/
theorem probe_leaves_array :
    ([Call.set 0 1 true, .set 1000 2 true].foldlM Call.exec hnew).map (fun t => t ⟨1, by decide⟩) =
        some none ∧
      ([Call.set 0 1 true, .set 1000 2 true, .set 2024 3 true].foldlM Call.exec hnew).isSome =
        false := by
  decide

end CLabs.Hash
