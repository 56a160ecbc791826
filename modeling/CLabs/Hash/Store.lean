import CLabs.Hash.Table
import CLabs.Lib.Probing

/-!
# CLabs.Hash.Store

**The table as a map from keys to entries.** The search of `hget` is an instance of
`CLabs.Lib.Probing`, whose invariant carries the results: every entry lies where the search for its
key ends. A table reached by calls that stay inside the array therefore represents a map
(`represents_run`), and no key is lost or stored twice (`keys_kept`).

The map is not the one that the name of `hset` suggests. The loop of `hset` writes while the
slot is empty, so a key that is there keeps its first value (`Call.record`), and what `hset`
promises is kept for new keys only (`hset_updates_iff`).
-/

namespace CLabs.Hash

open CLabs.Lib

/-! ### The search -/

/-- The slots by their positions; outside of the array all are empty. -/
def Table.view (t : Table) (pos : Nat) : Option Entry := (t.slot? pos).join

/-- The search of `hget`. -/
def probing : Probing (BitVec 32) Entry Nat where
  key := Entry.key
  path k n := probeIndex (k.toNat % SIZE) n

theorem Table.view_val (t : Table) (i : Fin SIZE) : t.view i.val = t i := by
  rw [view, slot?, dif_pos i.isLt]
  rfl

theorem Table.view_eq_some {t : Table} {pos : Nat} {entry : Entry} (h : t.view pos = some entry) :
    ∃ i : Fin SIZE, i.val = pos ∧ t i = some entry := by
  have hpos : pos < SIZE := by
    by_contra hpos
    rw [view, slot?, dif_neg hpos] at h
    exact absurd h (by simp)
  exact ⟨⟨pos, hpos⟩, rfl, by rw [← t.view_val, h]⟩

/-- The table with an entry stored in a slot. -/
def Table.put (t : Table) (i : Fin SIZE) (entry : Entry) : Table := Function.update t i (some entry)

theorem Table.put_self (t : Table) (i : Fin SIZE) (entry : Entry) : t.put i entry i = some entry :=
  Function.update_self i _ _

theorem Table.put_of_ne (t : Table) {i j : Fin SIZE} (h : j ≠ i) (entry : Entry) :
    t.put i entry j = t j :=
  Function.update_of_ne h _ _

theorem Table.view_put (t : Table) (i : Fin SIZE) (entry : Entry) :
    (t.put i entry).view = Function.update t.view i.val (some entry) := by
  funext pos
  by_cases hpos : pos < SIZE
  · show (t.put i entry).view (⟨pos, hpos⟩ : Fin SIZE).val = _
    rw [view_val]
    by_cases hi : ⟨pos, hpos⟩ = i
    · subst hi
      rw [put_self, Function.update_self]
    · have hne : pos ≠ i.val := fun heq => hi (Fin.ext heq)
      rw [put_of_ne t hi, Function.update_of_ne hne]
      exact (t.view_val ⟨pos, hpos⟩).symm
  · have hne : pos ≠ i.val := fun heq => hpos (heq ▸ i.isLt)
    rw [Function.update_of_ne hne]
    simp [view, slot?, hpos]

theorem Table.stops_view {t : Table} {k : BitVec 32} {pos : Nat} :
    probing.Stops t.view k pos ↔ t.Stops k pos := by
  have hslot : ∀ entry, t.view pos = some entry ↔ t.slot? pos = some (some entry) := fun entry =>
    Option.join_eq_some_iff
  simp only [Probing.Stops, Table.Stops, hslot]
  exact Iff.rfl

theorem probe_endsAt (t : Table) (k : BitVec 32) : probing.EndsAt t.view k (probe t k).pos := by
  obtain ⟨n, hpos, hstops, hbefore⟩ := probe_spec t k
  rw [hpos]
  exact ⟨n, rfl, Table.stops_view.mpr hstops, fun m hm => mt Table.stops_view.mp (hbefore m hm)⟩

theorem hget_eq_some_iff {t : Table} {k : BitVec 32} {i : Fin SIZE} :
    hget t k = some i ↔ probing.EndsAt t.view k i.val := by
  unfold hget
  constructor
  · intro h
    split_ifs at h with hlt
    obtain rfl := Option.some.inj h
    exact probe_endsAt t k
  · intro h
    have hpos : (probe t k).pos = i.val := (probe_endsAt t k).unique h
    rw [dif_pos (hpos ▸ i.isLt)]
    exact congrArg some (Fin.ext hpos)

/-! ### One call -/

/-- `hset` either leaves the table as it is, or fills the slot where the search for the key
ends. -/
theorem hset_cases {t t' : Table} {k v : BitVec 32} {malloc : Bool}
    (h : hset t k v malloc = some t') :
    ∃ i, hget t k = some i ∧
      ((t i ≠ none ∨ malloc = false) ∧ t' = t ∨
        t i = none ∧ malloc = true ∧ t' = t.put i ⟨k, v⟩) := by
  unfold hset at h
  cases hget : hget t k with
  | none =>
      simp only [hget] at h
      exact absurd h (by simp)
  | some i =>
      simp only [hget] at h
      refine ⟨i, rfl, ?_⟩
      cases hi : t i with
      | some entry =>
          simp only [hi] at h
          exact .inl ⟨.inl (by simp), (Option.some.inj h).symm⟩
      | none =>
          simp only [hi] at h
          cases malloc with
          | false => exact .inl ⟨.inr rfl, (Option.some.inj h).symm⟩
          | true => exact .inr ⟨rfl, rfl, (Option.some.inj h).symm⟩

theorem hset_keeps {t t' : Table} {k v : BitVec 32} {malloc : Bool}
    (h : hset t k v malloc = some t') {i : Fin SIZE} {entry : Entry} (hi : t i = some entry) :
    t' i = some entry := by
  obtain ⟨j, -, ⟨-, rfl⟩ | ⟨hempty, -, rfl⟩⟩ := hset_cases h
  · exact hi
  · have hne : i ≠ j := Probing.ne_of_occupied hempty hi
    rw [t.put_of_ne hne, hi]

theorem Call.exec_get {t t' : Table} {k : BitVec 32} (h : (get k).exec t = some t') : t' = t := by
  obtain ⟨i, -, rfl⟩ := Option.map_eq_some_iff.mp h
  rfl

theorem Call.exec_keeps {t t' : Table} {call : Call} (h : call.exec t = some t') {i : Fin SIZE}
    {entry : Entry} (hi : t i = some entry) : t' i = some entry := by
  cases call with
  | set k v malloc => exact hset_keeps h hi
  | get k => rwa [exec_get h]

/-! ### The map of a table -/

/-- What a call does to the map: the first value of a key stays. -/
def Call.record (m : BitVec 32 → Option Entry) : Call → BitVec 32 → Option Entry
  | set k v malloc =>
      if malloc = true ∧ m k = none then Function.update m k (some ⟨k, v⟩) else m
  | get _ => m

/-- The map after a sequence of calls. -/
def contents (calls : List Call) : BitVec 32 → Option Entry :=
  calls.foldl Call.record fun _ => none

section

variable {t t' : Table} {m : BitVec 32 → Option Entry} (h : probing.Represents t.view m)

include h

/-- What `hget` finds for a key is its entry in the map. -/
theorem lookup_eq {k : BitVec 32} {i : Fin SIZE} (hi : hget t k = some i) : m k = t i :=
  (h.lookup (hget_eq_some_iff.mp hi)).trans (t.view_val i)

theorem hget_entry {i : Fin SIZE} {entry : Entry} (hi : t i = some entry) :
    hget t entry.key = some i :=
  hget_eq_some_iff.mpr (h.findable i.val entry ((t.view_val i).trans hi))

theorem found_iff {k : BitVec 32} {entry : Entry} :
    (∃ i, hget t k = some i ∧ t i = some entry) ↔ m k = some entry := by
  constructor
  · rintro ⟨i, hi, hentry⟩
    rw [lookup_eq h hi, hentry]
  · intro hk
    obtain ⟨pos, hend, hentry⟩ := h.endsAt hk
    obtain ⟨i, rfl, hi⟩ := Table.view_eq_some hentry
    exact ⟨i, hget_eq_some_iff.mpr hend, hi⟩

theorem stored_iff {entry : Entry} : (∃ i, t i = some entry) ↔ m entry.key = some entry := by
  rw [h.content]
  constructor
  · rintro ⟨i, hi⟩
    exact ⟨rfl, i.val, by rw [t.view_val, hi]⟩
  · rintro ⟨-, pos, hpos⟩
    obtain ⟨i, -, hi⟩ := Table.view_eq_some hpos
    exact ⟨i, hi⟩

theorem absent_iff {k : BitVec 32} :
    (∀ i entry, t i = some entry → entry.key ≠ k) ↔ m k = none := by
  rw [Option.eq_none_iff_forall_ne_some]
  constructor
  · intro hall entry hk
    obtain ⟨i, -, hi⟩ := (found_iff h).mpr hk
    exact hall i entry hi ((h.content k entry).mp hk).1
  · rintro hnone i entry hi rfl
    exact hnone entry ((stored_iff h).mp ⟨i, hi⟩)

theorem represents_hset {k v : BitVec 32} {malloc : Bool} (hset : hset t k v malloc = some t') :
    probing.Represents t'.view ((Call.set k v malloc).record m) := by
  obtain ⟨i, hget, hcases⟩ := hset_cases hset
  have hlookup := lookup_eq h hget
  rw [Call.record]
  rcases hcases with ⟨hleft, rfl⟩ | ⟨hempty, hmalloc, rfl⟩
  · rw [if_neg]
    · exact h
    · rintro ⟨hmalloc, hnone⟩
      rw [hlookup] at hnone
      exact hleft.elim (fun hne => hne hnone) (by simp [hmalloc])
  · rw [if_pos ⟨hmalloc, hlookup.trans hempty⟩, Table.view_put]
    have hend : probing.EndsAt t.view (probing.key ⟨k, v⟩) i.val := hget_eq_some_iff.mp hget
    exact h.store hend ((t.view_val i).trans hempty)

theorem represents_exec {call : Call} (hcall : call.exec t = some t') :
    probing.Represents t'.view (call.record m) := by
  cases call with
  | set k v malloc => exact represents_hset h hcall
  | get k =>
      rw [Call.exec_get hcall]
      exact h

end

/-- **A table reached from `hnew` represents a map.** -/
theorem represents_run {calls : List Call} {t : Table}
    (h : calls.foldlM Call.exec hnew = some t) : probing.Represents t.view (contents calls) := by
  refine foldlM_refines (fun t m => probing.Represents (Table.view t) m) ?_ ?_ h
  · exact fun t m call t' hrep hcall => represents_exec hrep hcall
  have hempty : Table.view hnew = fun _ => none := by
    funext pos
    by_cases hpos : pos < SIZE <;> simp [Table.view, Table.slot?, hnew, hpos]
  rw [hempty]
  exact .empty

/-- The keys of the map are those set. -/
theorem contents_ne_none_iff {calls : List Call} {k : BitVec 32} :
    contents calls k ≠ none ↔ ∃ v, Call.set k v true ∈ calls := by
  induction calls using List.reverseRecOn with
  | nil => simp [contents]
  | append_singleton calls call ih =>
      rw [contents, List.foldl_append, List.foldl_cons, List.foldl_nil, ← contents]
      simp only [List.mem_append, List.mem_singleton]
      cases call with
      | get k' =>
          simp only [Call.record, ih]
          simp
      | set k' v malloc =>
          rw [Call.record]
          by_cases hnew : malloc = true ∧ contents calls k' = none
          · rw [if_pos hnew]
            by_cases hk : k = k'
            · subst hk
              rw [Function.update_self]
              exact iff_of_true (by simp) ⟨v, .inr (by rw [hnew.1])⟩
            · rw [Function.update_of_ne hk, ih]
              simp [hk]
          · rw [if_neg hnew, ih]
            constructor
            · rintro ⟨v', hmem⟩
              exact ⟨v', .inl hmem⟩
            · rintro ⟨v', hmem | heq⟩
              · exact ⟨v', hmem⟩
              · obtain ⟨rfl, -, rfl⟩ := Call.set.inj heq
                exact ih.mp fun hnone => hnew ⟨rfl, hnone⟩

/-! ### Runs -/

theorem run_keeps {calls : List Call} {t t' : Table} (h : calls.foldlM Call.exec t = some t')
    {i : Fin SIZE} {entry : Entry} (hi : t i = some entry) : t' i = some entry := by
  refine foldlM_invariant (fun t : Table => t i = some entry) ?_ hi h
  exact fun s call s' hs hcall => Call.exec_keeps hcall hs

/-- **Keys are neither lost nor duplicated.** In every table reached from `hnew` a key that was set
lies in one slot, which `hget` returns, and `hget` returns an empty slot for any other key. Later
calls do not change a slot that is filled, and setting a key does not change what `hget` gives for
another one. -/
theorem keys_kept {calls : List Call} {t : Table} (h : calls.foldlM Call.exec hnew = some t) :
    (∀ k, (∃ v, Call.set k v true ∈ calls) →
      ∃ i, hget t k = some i ∧ ∀ j, (∃ v, t j = some ⟨k, v⟩) ↔ j = i) ∧
    (∀ k i, (∀ v, Call.set k v true ∉ calls) → hget t k = some i → t i = none) ∧
    (∀ (more : List Call) t', more.foldlM Call.exec t = some t' →
      ∀ i entry, t i = some entry → t' i = some entry) ∧
    ∀ k v malloc t', hset t k v malloc = some t' → ∀ i entry, t i = some entry → entry.key ≠ k →
      hget t entry.key = some i ∧ hget t' entry.key = some i ∧ t' i = some entry := by
  have hrep := represents_run h
  refine ⟨fun k hset => ?_, fun k i hset hget => ?_,
    fun more t' hmore i entry hi => run_keeps hmore hi, fun k v malloc t' hset i entry hi _ => ?_⟩
  · obtain ⟨⟨k', v⟩, hk⟩ := Option.ne_none_iff_exists'.mp (contents_ne_none_iff.mpr hset)
    obtain ⟨i, hget, hi⟩ := (found_iff hrep).mpr hk
    obtain rfl : k' = k := ((hrep.content k _).mp hk).1
    refine ⟨i, hget, fun j => ⟨fun ⟨v', hj⟩ => ?_, fun hj => ⟨v, hj ▸ hi⟩⟩⟩
    have hgetj := hget_entry hrep hj
    rw [hget] at hgetj
    exact (Option.some.inj hgetj).symm
  · have hk : contents calls k = none := by
      by_contra hne
      obtain ⟨v, hv⟩ := contents_ne_none_iff.mp hne
      exact hset v hv
    rw [← lookup_eq hrep hget, hk]
  · have hi' := hset_keeps hset hi
    exact ⟨hget_entry hrep hi, hget_entry (represents_hset hrep hset) hi', hi'⟩

/-- The hypotheses can be met: the calls of the test driver. -/
theorem keys_kept_driver :
    ∃ t, [Call.set 10 20 true, .set 20 30 true, .set 30 40 true].foldlM Call.exec hnew = some t ∧
      ∃ i, hget t 20 = some i ∧ ∀ j, (∃ v, t j = some ⟨20, v⟩) ↔ j = i := by
  obtain ⟨t, ht⟩ := Option.isSome_iff_exists.mp
    (show ([Call.set 10 20 true, .set 20 30 true, .set 30 40 true].foldlM Call.exec hnew).isSome by
      decide)
  exact ⟨t, ht, (keys_kept ht).1 20 ⟨30, by simp⟩⟩

/-- **When `hset` is an update.** After `hset` for a key and a value, the slot that `hget` returns
holds them exactly if the table held them before, or did not hold the key and there was memory. -/
theorem hset_updates_iff {calls : List Call} {t t' : Table} {k v : BitVec 32} {malloc : Bool}
    (h : calls.foldlM Call.exec hnew = some t) (hset : hset t k v malloc = some t') :
    (∃ i, hget t' k = some i ∧ t' i = some ⟨k, v⟩) ↔
      (∃ i, t i = some ⟨k, v⟩) ∨ malloc = true ∧ ∀ i entry, t i = some entry → entry.key ≠ k := by
  have hrep := represents_run h
  rw [found_iff (represents_hset hrep hset), stored_iff hrep, absent_iff hrep, Call.record]
  by_cases hstore : malloc = true ∧ contents calls k = none
  · rw [if_pos hstore, Function.update_self]
    exact iff_of_true rfl (.inr hstore)
  · rw [if_neg hstore]
    exact (or_iff_left hstore).symm

/-- A fourth key, after those of the test driver. -/
theorem hset_updates_iff_fourth :
    ∃ t t', [Call.set 10 20 true, .set 20 30 true, .set 30 40 true].foldlM Call.exec hnew = some t ∧
      hset t 40 50 true = some t' ∧ ∃ i, hget t' 40 = some i ∧ t' i = some ⟨40, 50⟩ := by
  obtain ⟨t, ht⟩ := Option.isSome_iff_exists.mp
    (show ([Call.set 10 20 true, .set 20 30 true, .set 30 40 true].foldlM Call.exec hnew).isSome by
      decide)
  have hfour : (([Call.set 10 20 true, .set 20 30 true, .set 30 40 true] ++
      [Call.set 40 50 true]).foldlM Call.exec hnew).isSome := by decide
  rw [foldlM_append_of_some ht, foldlM_isSome_iff] at hfour
  obtain ⟨t', ht'⟩ := Option.isSome_iff_exists.mp (hfour [] _ [] t rfl rfl)
  have habsent := (absent_iff (k := 40) (represents_run ht)).mpr (by decide)
  exact ⟨t, t', ht, ht', (hset_updates_iff ht ht').mpr (.inr ⟨rfl, habsent⟩)⟩

/-- **The second value of a key is dropped.** -/
theorem hset_keeps_first_value :
    ([Call.set 1 10 true, .set 1 20 true].foldlM Call.exec hnew).map
      (fun t => (hget t 1).map fun i => t i) = some (some (some ⟨1, 10⟩)) := by
  decide

end CLabs.Hash
