import CLabs.Lib.Slice
import CLabs.Tcp.Stream

/-!
# CLabs.Tcp.Reassembly

Reassembly of one direction: what `generic_process` does with the segments of a
byte string `S` whose first byte has sequence number `s0`, as long as the string
is shorter than half of the sequence space and does not reach its end
(`Window`).

The abstract receiver is a **set of positions**: the sequence numbers it has been
handed a byte for. `Reassembly` is the relation between that set and the state of
a direction. It says that every pending fragment is a slice of `S` in its place
and that the bytes before `my_seq` together with the pending fragments are exactly
the positions received; `my_seq` itself is then the frontier of the set
(`Reassembled.seq_eq_frontier`). Each branch of the drain loop keeps the relation,
because it only moves positions from the fragments to the payload.
-/

namespace CLabs.Tcp

open CLabs.Lib

/-- The byte string `S` sent from `s0` on neither wraps nor spans half of the
sequence space. -/
structure Window (s0 : UInt32) (S : List UInt8) : Prop where
  short : S.length < 2147483648
  noWrap : s0.toNat + S.length < 4294967295

/-- `n` is a sequence number of the window, its end included. -/
def InWindow (s0 : UInt32) (S : List UInt8) (n : UInt32) : Prop :=
  s0.toNat ≤ n.toNat ∧ n.toNat ≤ s0.toNat + S.length

/-- `bytes` is the part of `S` that starts at sequence number `seq`. -/
structure IsSlice (s0 : UInt32) (S : List UInt8) (seq : UInt32) (bytes : List UInt8) : Prop where
  start_le : s0.toNat ≤ seq.toNat
  end_le : seq.toNat + bytes.length ≤ s0.toNat + S.length
  bytes_eq : bytes = slice S (seq.toNat - s0.toNat) (seq.toNat - s0.toNat + bytes.length)

/-- The positions a segment holds. -/
def extent (seq : UInt32) (bytes : List UInt8) : Set ℕ :=
  Set.Ico seq.toNat (seq.toNat + bytes.length)

/-- The positions the pending fragments hold. -/
def held (frags : OrdMap UInt32 RawPDU) : Set ℕ :=
  {p | ∃ key raw, frags.find? key = some raw ∧ p ∈ extent key raw.payload}

/-! ### Arithmetic inside the window -/

section

variable {s0 : UInt32} {S : List UInt8}

theorem Window.compare_lt_iff (hw : Window s0 S) {a b : UInt32} (ha : InWindow s0 S a)
    (hb : InWindow s0 S b) : compareSeqNumbers a b < 0 ↔ a.toNat < b.toNat := by
  have hshort := hw.short
  obtain ⟨ha, ha'⟩ := ha
  obtain ⟨hb, hb'⟩ := hb
  exact compareSeqNumbers_lt_zero_iff_lt (by omega) (by omega)

theorem Window.compare_le_iff (hw : Window s0 S) {a b : UInt32} (ha : InWindow s0 S a)
    (hb : InWindow s0 S b) : compareSeqNumbers a b ≤ 0 ↔ a.toNat ≤ b.toNat := by
  have hshort := hw.short
  obtain ⟨ha, ha'⟩ := ha
  obtain ⟨hb, hb'⟩ := hb
  exact compareSeqNumbers_le_zero_iff_le (by omega) (by omega)

namespace IsSlice

variable {seq : UInt32}

theorem inWindow {bytes : List UInt8} (h : IsSlice s0 S seq bytes) : InWindow s0 S seq :=
  ⟨h.start_le, by have := h.end_le; omega⟩

theorem length_lt {bytes : List UInt8} (h : IsSlice s0 S seq bytes) (hw : Window s0 S) :
    bytes.length < 4294967296 := by
  have hwrap := hw.noWrap
  have hend := h.end_le
  omega

theorem size_toNat {raw : RawPDU} (h : IsSlice s0 S seq raw.payload) (hw : Window s0 S) :
    raw.payloadSize.toNat = raw.payload.length :=
  payloadSize_toNat (h.length_lt hw)

/-- The end of a slice as `add_sequence_numbers` computes it. -/
theorem end_toNat {raw : RawPDU} (h : IsSlice s0 S seq raw.payload) (hw : Window s0 S) :
    (addSequenceNumbers seq raw.payloadSize).toNat = seq.toNat + raw.payload.length := by
  have hwrap := hw.noWrap
  have hend := h.end_le
  have hsize := h.size_toNat hw
  rw [addSequenceNumbers_of_lt (by omega), hsize]

theorem end_inWindow {raw : RawPDU} (h : IsSlice s0 S seq raw.payload) (hw : Window s0 S) :
    InWindow s0 S (addSequenceNumbers seq raw.payloadSize) := by
  have hstart := h.start_le
  have hend := h.end_le
  have hnat := h.end_toNat hw
  constructor <;> omega

/-- The test by which `generic_process` drops a segment as old. -/
theorem ends_before_iff {raw : RawPDU} (h : IsSlice s0 S seq raw.payload) (hw : Window s0 S)
    {mySeq : UInt32} (hmy : InWindow s0 S mySeq) :
    compareSeqNumbers (addSequenceNumbers seq raw.payloadSize) mySeq < 0 ↔
      seq.toNat + raw.payload.length < mySeq.toNat := by
  rw [hw.compare_lt_iff (h.end_inWindow hw) hmy, h.end_toNat hw]

/-- Cutting a slice at a later position leaves the slice from there. -/
theorem drop {bytes : List UInt8} (h : IsSlice s0 S seq bytes) {cut : UInt32}
    (hle : seq.toNat ≤ cut.toNat) (hcut : cut.toNat ≤ seq.toNat + bytes.length) :
    IsSlice s0 S cut (bytes.drop (cut.toNat - seq.toNat)) := by
  have hstart := h.start_le
  have hend := h.end_le
  have hlen : (bytes.drop (cut.toNat - seq.toNat)).length =
      bytes.length - (cut.toNat - seq.toNat) := List.length_drop
  refine ⟨by omega, by omega, ?_⟩
  rw [hlen]
  conv_lhs => rw [h.bytes_eq, drop_slice]
  congr 1 <;> omega

end IsSlice

/-- The slice the source takes when `seq` lies before `cut`. -/
theorem erasePrefix_payload (raw : RawPDU) {seq cut : UInt32} (h : seq.toNat ≤ cut.toNat) :
    (raw.erasePrefix (subtractSequenceNumbers cut seq)).payload =
      raw.payload.drop (cut.toNat - seq.toNat) := by
  have hcut := cut.toNat_lt
  have hseq := seq.toNat_lt
  have hdiff : (subtractSequenceNumbers cut seq).toNat = cut.toNat - seq.toNat := by
    rw [subtractSequenceNumbers_eq_sub, UInt32.toNat_sub]
    omega
  show raw.payload.drop (subtractSequenceNumbers cut seq).toNat = _
  rw [hdiff]

end

/-! ### Positions held by a fragment map -/

theorem held_empty : held ∅ = ∅ := by
  ext p
  simp [held]

theorem held_erase {frags : OrdMap UInt32 RawPDU} {key : UInt32} {raw : RawPDU}
    (h : frags.find? key = some raw) :
    held frags = held (frags.erase key) ∪ extent key raw.payload := by
  ext p
  constructor
  · intro ⟨key', raw', hfind, hp⟩
    by_cases hkey : key' = key
    · subst hkey
      rw [h] at hfind
      obtain rfl := Option.some.inj hfind
      exact Or.inr hp
    · exact Or.inl ⟨key', raw', by rw [OrdMap.find?_erase_of_ne _ hkey, hfind], hp⟩
  · intro hp
    rcases hp with ⟨key', raw', hfind, hp⟩ | hp
    · by_cases hkey : key' = key
      · subst hkey
        simp at hfind
      · exact ⟨key', raw', by rw [← OrdMap.find?_erase_of_ne _ hkey, hfind], hp⟩
    · exact ⟨key, raw, h, hp⟩

/-- Of two segments at one position the longer one is kept, so no position of
either is given up. -/
theorem extent_kept {stored? : Option RawPDU} (seq : UInt32) {raw : RawPDU}
    (hraw : raw.payload.length < 4294967296)
    (hstored : ∀ stored, stored? = some stored → stored.payload.length < 4294967296) :
    extent seq (kept stored? raw).payload =
      (⋃ stored ∈ stored?, extent seq stored.payload) ∪ extent seq raw.payload := by
  cases stored? with
  | none => simp [kept]
  | some stored =>
      have hsize := payloadSize_toNat hraw
      have hsize' := payloadSize_toNat (hstored stored rfl)
      simp only [Option.mem_def, Option.some.injEq, Set.iUnion_iUnion_eq_right]
      unfold kept
      dsimp only
      by_cases hlt : stored.payloadSize > raw.payloadSize
      · rw [if_pos hlt]
        have hlt := UInt32.lt_iff_toNat_lt.mp hlt
        symm
        apply Set.union_eq_left.mpr
        apply Set.Ico_subset_Ico_right
        omega
      · rw [if_neg hlt]
        have hle := mt UInt32.lt_iff_toNat_lt.mpr hlt
        symm
        apply Set.union_eq_right.mpr
        apply Set.Ico_subset_Ico_right
        omega

theorem held_safeInsert {frags : OrdMap UInt32 RawPDU} {seq : UInt32} {raw : RawPDU}
    (hraw : raw.payload.length < 4294967296)
    (hfrags : ∀ key stored, frags.find? key = some stored → stored.payload.length < 4294967296) :
    held (safeInsert frags seq raw).1 = held frags ∪ extent seq raw.payload := by
  have hkept := extent_kept seq hraw (fun stored h => hfrags seq stored h)
  ext p
  have hp : p ∈ extent seq (kept (frags.find? seq) raw).payload ↔
      (∃ stored, frags.find? seq = some stored ∧ p ∈ extent seq stored.payload) ∨
        p ∈ extent seq raw.payload := by
    rw [hkept]
    simp
  constructor
  · intro ⟨key, raw', hfind, hmem⟩
    rw [find?_safeInsert] at hfind
    by_cases hkey : key = seq
    · rw [if_pos hkey] at hfind
      obtain rfl := Option.some.inj hfind
      rw [hkey] at hmem
      rcases hp.mp hmem with ⟨stored, hstored, hmem⟩ | hmem
      · exact Or.inl ⟨seq, stored, hstored, hmem⟩
      · exact Or.inr hmem
    · rw [if_neg hkey] at hfind
      exact Or.inl ⟨key, raw', hfind, hmem⟩
  · intro hmem
    rcases hmem with ⟨key, raw', hfind, hmem⟩ | hmem
    · by_cases hkey : key = seq
      · rw [hkey] at hfind hmem
        refine ⟨seq, _, by rw [find?_safeInsert, if_pos rfl], hp.mpr ?_⟩
        exact Or.inl ⟨raw', hfind, hmem⟩
      · exact ⟨key, raw', by rw [find?_safeInsert, if_neg hkey, hfind], hmem⟩
    · exact ⟨seq, _, by rw [find?_safeInsert, if_pos rfl], hp.mpr (Or.inr hmem)⟩

/-- Inserting at one position and erasing at another do not interfere. -/
theorem erase_safeInsert {frags : OrdMap UInt32 RawPDU} {seq key : UInt32} (h : seq ≠ key)
    (raw : RawPDU) :
    (safeInsert frags seq raw).1.erase key = (safeInsert (frags.erase key) seq raw).1 := by
  ext1 k
  rw [OrdMap.find?_erase, find?_safeInsert, find?_safeInsert, OrdMap.find?_erase_of_ne _ h,
    OrdMap.find?_erase]
  by_cases hk : k = key
  · rw [if_pos hk, if_pos hk, if_neg (hk ▸ Ne.symm h)]
  · rw [if_neg hk, if_neg hk]

/-! ### The relation to the set of positions received -/

/-- The state `(seq, payload, frags)` of a direction has reassembled the positions
`R` of `S`: the payload is `pre` followed by the bytes from index `base` on. -/
structure Reassembly (s0 : UInt32) (S pre : List UInt8) (base : ℕ) (R : Set ℕ)
    (seq : UInt32) (payload : List UInt8) (frags : OrdMap UInt32 RawPDU) : Prop where
  base_le : s0.toNat + base ≤ seq.toNat
  seq_le : seq.toNat ≤ s0.toNat + S.length
  payload_eq : payload = pre ++ slice S base (seq.toNat - s0.toNat)
  frag_slice : ∀ key raw, frags.find? key = some raw → IsSlice s0 S key raw.payload
  received : Set.Ico s0.toNat seq.toNat ∪ held frags = R

section

variable {s0 : UInt32} {S pre : List UInt8} {base : ℕ} {R : Set ℕ}

namespace Reassembly

variable {seq : UInt32} {payload : List UInt8} {frags : OrdMap UInt32 RawPDU}

theorem inWindow (h : Reassembly s0 S pre base R seq payload frags) : InWindow s0 S seq :=
  ⟨by have := h.base_le; omega, h.seq_le⟩

theorem frag_length_lt (h : Reassembly s0 S pre base R seq payload frags) (hw : Window s0 S)
    (key : UInt32) (raw : RawPDU) (hraw : frags.find? key = some raw) :
    raw.payload.length < 4294967296 :=
  (h.frag_slice key raw hraw).length_lt hw

/-- Adding a slice of `S` to the fragments. -/
theorem insert (h : Reassembly s0 S pre base R seq payload frags) (hw : Window s0 S)
    {key : UInt32} {raw : RawPDU} (hraw : IsSlice s0 S key raw.payload) :
    Reassembly s0 S pre base (R ∪ extent key raw.payload) seq payload
      (safeInsert frags key raw).1 where
  base_le := h.base_le
  seq_le := h.seq_le
  payload_eq := h.payload_eq
  frag_slice := by
    intro key' raw' hfind
    exact forall_safeInsert (P := fun key raw => IsSlice s0 S key raw.payload) h.frag_slice hraw
      hfind
  received := by
    rw [held_safeInsert (hraw.length_lt hw) (h.frag_length_lt hw), ← Set.union_assoc, h.received]

/-- Fragments that keep the received positions may be exchanged. -/
theorem replace_frags (h : Reassembly s0 S pre base R seq payload frags)
    {frags' : OrdMap UInt32 RawPDU}
    (hslice : ∀ key raw, frags'.find? key = some raw → IsSlice s0 S key raw.payload)
    (hheld : Set.Ico s0.toNat seq.toNat ∪ held frags' = Set.Ico s0.toNat seq.toNat ∪ held frags) :
    Reassembly s0 S pre base R seq payload frags' :=
  ⟨h.base_le, h.seq_le, h.payload_eq, hslice, hheld.trans h.received⟩

theorem erase_slice (h : Reassembly s0 S pre base R seq payload frags) (key : UInt32) :
    ∀ key' raw', (frags.erase key).find? key' = some raw' → IsSlice s0 S key' raw'.payload := by
  intro key' raw' hfind
  exact h.frag_slice key' raw' (OrdMap.find?_of_find?_erase hfind)

end Reassembly

/-! ### The branches of the drain loop -/

/-- `Reassembly` of the state of the drain loop. -/
def Drain.Reassembles (s0 : UInt32) (S pre : List UInt8) (base : ℕ) (R : Set ℕ) (d : Drain) :
    Prop :=
  Reassembly s0 S pre base R d.mySeq d.pload d.frags

section

variable {d : Drain} {key : UInt32} {raw : RawPDU}

/-- The slice branch: the positions before `my_seq` are given up, but they are in
the payload already. -/
theorem sliceFragment_reassembles (hw : Window s0 S) (h : d.Reassembles s0 S pre base R)
    (hfind : d.frags.find? key = some raw) (hlt : key.toNat < d.mySeq.toNat)
    (hend : d.mySeq.toNat < key.toNat + raw.payload.length) :
    (sliceFragment d key raw).Reassembles s0 S pre base R := by
  have hslice := h.frag_slice key raw hfind
  have hstart := hslice.start_le
  have hcut := erasePrefix_payload raw hlt.le
  have hne : d.mySeq ≠ key := fun heq => by rw [heq] at hlt; omega
  set sliced := raw.erasePrefix (subtractSequenceNumbers d.mySeq key)
  have hsliced : IsSlice s0 S d.mySeq sliced.payload := hcut ▸ hslice.drop hlt.le hend.le
  have herased : (sliceFragment d key raw).frags =
      (safeInsert (d.frags.erase key) d.mySeq sliced).1 := by
    rw [← erase_safeInsert hne]
    exact eraseIterator_snd key _
  -- the entry without the fragment, then with its rest at `my_seq`
  have hwithout : Reassembly s0 S pre base
      (Set.Ico s0.toNat d.mySeq.toNat ∪ held (d.frags.erase key)) d.mySeq d.pload
      (d.frags.erase key) :=
    ⟨h.base_le, h.seq_le, h.payload_eq, h.erase_slice key, rfl⟩
  have hwith := hwithout.insert hw hsliced
  show Reassembly s0 S pre base R d.mySeq d.pload (sliceFragment d key raw).frags
  rw [herased]
  have hlen : sliced.payload.length = raw.payload.length - (d.mySeq.toNat - key.toNat) := by
    rw [hcut, List.length_drop]
  have hR : Set.Ico s0.toNat d.mySeq.toNat ∪ held (d.frags.erase key) ∪
      extent d.mySeq sliced.payload = R := by
    rw [← h.received, held_erase hfind]
    ext p
    simp only [extent, Set.mem_union, Set.mem_Ico, hlen]
    by_cases hp : p ∈ held (d.frags.erase key)
    · simp [hp]
    · simp only [hp, or_false, false_or]
      omega
  rw [← hR]
  exact hwith

/-- The drop branch: every position of the fragment is in the payload already. -/
theorem dropFragment_reassembles (h : d.Reassembles s0 S pre base R)
    (hfind : d.frags.find? key = some raw)
    (hend : key.toNat + raw.payload.length ≤ d.mySeq.toNat) :
    (dropFragment d key raw).Reassembles s0 S pre base R := by
  have hstart := (h.frag_slice key raw hfind).start_le
  show Reassembly s0 S pre base R d.mySeq d.pload (eraseIterator key d.frags).2
  rw [eraseIterator_snd]
  apply h.replace_frags (h.erase_slice key)
  rw [held_erase hfind]
  ext p
  simp only [extent, Set.mem_union, Set.mem_Ico]
  by_cases hp : p ∈ held (d.frags.erase key)
  · simp [hp]
  · simp only [hp, or_false, false_or]
    omega

/-- The take branch: the fragment's positions move to the payload. -/
theorem takeFragment_reassembles (hw : Window s0 S) (h : d.Reassembles s0 S pre base R)
    (hfind : d.frags.find? d.mySeq = some raw) :
    (takeFragment d d.mySeq raw).Reassembles s0 S pre base R := by
  have hslice := h.frag_slice _ raw hfind
  have hstart := hslice.start_le
  have hend := hslice.end_le
  have hbase := h.base_le
  have hwrap := hw.noWrap
  have hseq : (d.mySeq + raw.payloadSize).toNat = d.mySeq.toNat + raw.payload.length := by
    rw [UInt32.toNat_add, hslice.size_toNat hw]
    omega
  show Reassembly s0 S pre base R (d.mySeq + raw.payloadSize) (d.pload ++ raw.payload)
    (eraseIterator d.mySeq d.frags).2
  rw [eraseIterator_snd]
  refine ⟨by omega, by omega, ?_, h.erase_slice d.mySeq, ?_⟩
  · rw [h.payload_eq, hslice.bytes_eq, List.append_assoc,
      slice_append_slice S (by omega) (by omega), hseq]
    congr 2
    omega
  · rw [← h.received, held_erase hfind, hseq]
    ext p
    simp only [extent, Set.mem_union, Set.mem_Ico]
    by_cases hp : p ∈ held (d.frags.erase d.mySeq)
    · simp [hp]
    · simp only [hp, or_false, false_or]
      omega

end

/-! ### The drain loop

Inside the window the iterator never meets the wrap: the loop starts at the least
key, or is not entered at all, and each round erases the least key. -/

/-- Invariant of the drain loop. -/
structure DrainInv (s0 : UInt32) (S pre : List UInt8) (base : ℕ) (R : Set ℕ) (d : Drain) :
    Prop where
  reassembles : d.Reassembles s0 S pre base R
  atBegin : d.AtBegin

/-- What holds when the loop is left. -/
structure Drained (s0 : UInt32) (S pre : List UInt8) (base : ℕ) (R : Set ℕ) (d : Drain) :
    Prop where
  reassembles : d.Reassembles s0 S pre base R
  after : ∀ key ∈ d.frags, d.mySeq < key

variable {d : Drain}

theorem DrainInv.begin_eq (h : DrainInv s0 S pre base R d) {key : UInt32} {raw : RawPDU}
    (hit : d.it = some key) (hfind : d.frags.find? key = some raw)
    (hle : key.toNat ≤ d.mySeq.toNat) : d.frags.begin = some key :=
  h.atBegin.begin_eq hit hfind (UInt32.le_iff_toNat_le.mpr hle)

theorem drainInv_take (hw : Window s0 S) (h : DrainInv s0 S pre base R d) {raw : RawPDU}
    (hit : d.it = some d.mySeq) (hfind : d.frags.find? d.mySeq = some raw) :
    DrainInv s0 S pre base R (takeFragment d d.mySeq raw) :=
  ⟨takeFragment_reassembles hw h.reassembles hfind,
    takeFragment_atBegin (h.begin_eq hit hfind le_rfl)⟩

theorem drainInv_yield (hw : Window s0 S) {d' : Drain} (h : DrainInv s0 S pre base R d)
    (hb : drainBody d = .yield d') : DrainInv s0 S pre base R d' := by
  obtain ⟨key, raw, hit, hfind, hcases⟩ := drainBody_yield hb
  have hslice := h.reassembles.frag_slice key raw hfind
  have hmy := h.reassembles.inWindow
  have hlt_iff := hw.compare_lt_iff hslice.inWindow hmy
  have hend_iff := hw.compare_le_iff (hslice.end_inWindow hw) hmy
  rw [hslice.end_toNat hw] at hend_iff
  rcases hcases with ⟨hlt, hend, rfl⟩ | ⟨hlt, hend, rfl⟩ | ⟨rfl, rfl⟩
  · have hlt := hlt_iff.mp hlt
    have hend := not_le.mp (mt hend_iff.mpr (not_le.mpr hend))
    exact ⟨sliceFragment_reassembles hw h.reassembles hfind hlt hend,
      sliceFragment_atBegin (h.begin_eq hit hfind hlt.le) (UInt32.lt_iff_toNat_lt.mpr hlt)⟩
  · have hlt := hlt_iff.mp hlt
    exact ⟨dropFragment_reassembles h.reassembles hfind (hend_iff.mp hend),
      dropFragment_atBegin (h.begin_eq hit hfind hlt.le)⟩
  · exact drainInv_take hw h hit hfind

theorem drainInv_done (hw : Window s0 S) {d' : Drain} (h : DrainInv s0 S pre base R d)
    (hb : drainBody d = .done d') : Drained s0 S pre base R d' := by
  rcases drainBody_done hb with ⟨rfl, hexit⟩ | ⟨raw, hit, hfind, rfl, hempty⟩
  · refine ⟨h.reassembles, h.atBegin.after fun key raw hit hraw => ?_⟩
    have hle_iff := hw.compare_le_iff (h.reassembles.frag_slice key raw hraw).inWindow
      h.reassembles.inWindow
    have hlt := not_le.mp (mt hle_iff.mpr (not_le.mpr (hexit key raw hit hraw)))
    exact UInt32.lt_iff_toNat_lt.mpr hlt
  · have hnone := OrdMap.isEmpty_iff.mp hempty
    exact ⟨(drainInv_take hw h hit hfind).reassembles, fun key hkey => absurd hkey (hnone key)⟩

/-- The whole loop. -/
theorem drain_drained (hw : Window s0 S) (h : DrainInv s0 S pre base R d) :
    Drained s0 S pre base R (drain d) :=
  whileLoop_rule drainBody_decreases (DrainInv s0 S pre base R) (Drained s0 S pre base R)
    (fun _ _ hd hb => drainInv_yield hw hd hb) (fun _ _ hd hb => drainInv_done hw hd hb) h

end

/-! ### Without a taken fragment nothing moves -/

/-- As long as the flag is down, `my_seq` and the payload are those of the start. -/
theorem drain_unchanged {d : Drain} (h : (drain d).addedSome = false) :
    (drain d).mySeq = d.mySeq ∧ (drain d).pload = d.pload := by
  let inv (d' : Drain) : Prop := d'.addedSome = false → d'.mySeq = d.mySeq ∧ d'.pload = d.pload
  refine drain_rule inv ?_ ?_ ?_ (fun _ => ⟨rfl, rfl⟩) h
  · exact fun d₁ key raw h₁ _ _ _ => h₁
  · exact fun d₁ key raw h₁ _ => h₁
  · intro d₁ raw _ _ hflag
    exact absurd hflag (by simp [takeFragment])

/-- A loop that starts at `my_seq` takes a fragment. -/
theorem drain_addedSome {d : Drain} (hit : d.it = some d.mySeq) (hmem : d.mySeq ∈ d.frags) :
    (drain d).addedSome = true := by
  let inv (d' : Drain) : Prop :=
    d'.addedSome = true ∨ (d'.it = some d'.mySeq ∧ d'.mySeq ∈ d'.frags)
  refine whileLoop_rule drainBody_decreases inv (fun d' => d'.addedSome = true) ?_ ?_
    (Or.inr ⟨hit, hmem⟩)
  · intro d₁ d₂ h₁ hb
    obtain ⟨key, raw, hkey, -, hcases⟩ := drainBody_yield hb
    rcases h₁ with hflag | ⟨hit₁, -⟩
    · obtain ⟨-, -, rfl⟩ | ⟨-, -, rfl⟩ | ⟨-, rfl⟩ := hcases
      · exact Or.inl hflag
      · exact Or.inl hflag
      · exact Or.inl rfl
    · obtain rfl : d₁.mySeq = key := Option.some.inj (hit₁.symm.trans hkey)
      rw [compareSeqNumbers_self] at hcases
      obtain ⟨hlt, -⟩ | ⟨hlt, -⟩ | ⟨-, rfl⟩ := hcases
      · exact absurd hlt (lt_irrefl _)
      · exact absurd hlt (lt_irrefl _)
      · exact Or.inl rfl
  · intro d₁ d₂ h₁ hb
    rcases drainBody_done hb with ⟨rfl, hend⟩ | ⟨raw, -, -, rfl, -⟩
    · rcases h₁ with hflag | ⟨hit₁, hmem₁⟩
      · exact hflag
      · obtain ⟨raw, hraw⟩ := OrdMap.mem_iff_exists.mp hmem₁
        have hpos := hend _ raw hit₁ hraw
        rw [compareSeqNumbers_self] at hpos
        exact absurd hpos (lt_irrefl _)
    · rfl

/-- A loop that starts at the end of the map is not entered. -/
theorem drain_of_end {d : Drain} (h : d.it = none) : drain d = d := by
  apply whileLoop_of_done
  unfold drainBody
  rw [h]

/-! ### One segment -/

/-- A direction has reassembled the positions `R` of `S`, and whatever is pending
lies after a gap. -/
structure Reassembled (s0 : UInt32) (S pre : List UInt8) (base : ℕ) (R : Set ℕ) (my : Half) :
    Prop extends Reassembly s0 S pre base R my.seq my.payload my.frags where
  after : ∀ key ∈ my.frags, my.seq < key

/-- The positions a TCP segment carries. -/
def TCP.extent (tcp : TCP) : Set ℕ :=
  match tcp.innerPdu with
  | none => ∅
  | some raw => CLabs.Tcp.extent tcp.seq raw.payload

theorem TCP.extent_of_none (tcp : TCP) (h : tcp.innerPdu = none) : tcp.extent = ∅ := by
  rw [TCP.extent, h]

theorem TCP.extent_of_some (tcp : TCP) {raw : RawPDU} (h : tcp.innerPdu = some raw) :
    tcp.extent = CLabs.Tcp.extent tcp.seq raw.payload := by
  rw [TCP.extent, h]

section

variable {s0 : UInt32} {S pre : List UInt8} {base : ℕ} {R : Set ℕ} {my : Half}

theorem Reassembled.not_mem (h : Reassembled s0 S pre base R my) : my.seq.toNat ∉ R := by
  rw [← h.received]
  intro hmem
  rcases hmem with hmem | ⟨key, raw, hfind, hmem⟩
  · exact absurd hmem.2 (lt_irrefl _)
  · have hafter := h.after key (OrdMap.mem_iff_exists.mpr ⟨raw, hfind⟩)
    exact absurd hmem.1 (not_le.mpr (UInt32.lt_iff_toNat_lt.mp hafter))

/-- **Refinement.** `my_seq` is the first position not received yet. -/
theorem Reassembled.seq_eq_frontier (h : Reassembled s0 S pre base R my) :
    my.seq.toNat = frontier s0.toNat R := by
  refine (frontier_eq h.inWindow.1 ?_ h.not_mem).symm
  rw [← h.received]
  exact Set.subset_union_left

/-- The entry slice, in terms of positions. -/
theorem entrySegment_spec (hw : Window s0 S) (hmy : InWindow s0 S my.seq) {seq : UInt32}
    {raw : RawPDU} (hslice : IsSlice s0 S seq raw.payload)
    (hend : my.seq.toNat ≤ seq.toNat + raw.payload.length) :
    IsSlice s0 S (entrySegment my.seq seq raw).1 (entrySegment my.seq seq raw).2.1.payload ∧
      (entrySegment my.seq seq raw).1.toNat = max my.seq.toNat seq.toNat ∧
      Set.Ico s0.toNat my.seq.toNat ∪
          extent (entrySegment my.seq seq raw).1 (entrySegment my.seq seq raw).2.1.payload =
        Set.Ico s0.toNat my.seq.toNat ∪ extent seq raw.payload := by
  have hlt_iff := hw.compare_lt_iff hslice.inWindow hmy
  have hstart := hslice.start_le
  unfold entrySegment
  by_cases hlt : compareSeqNumbers seq my.seq < 0
  · have hlt' := hlt_iff.mp hlt
    have hcut := erasePrefix_payload raw hlt'.le
    rw [if_pos hlt]
    dsimp only
    refine ⟨hcut ▸ hslice.drop hlt'.le hend, by omega, ?_⟩
    ext p
    simp only [extent, hcut, List.length_drop, Set.mem_union, Set.mem_Ico]
    omega
  · have hge := mt hlt_iff.mpr hlt
    rw [if_neg hlt]
    exact ⟨hslice, by dsimp only; omega, rfl⟩

/-- The loop of a segment that reaches `my_seq` starts in its invariant. -/
theorem startDrain_inv (hw : Window s0 S) (h : Reassembled s0 S pre base R my) {seq : UInt32}
    {raw : RawPDU} (hslice : IsSlice s0 S seq raw.payload)
    (hend : my.seq.toNat ≤ seq.toNat + raw.payload.length) :
    DrainInv s0 S pre base (R ∪ extent seq raw.payload) (startDrain my seq raw) := by
  obtain ⟨hentry, hkey, hextent⟩ := entrySegment_spec hw h.inWindow hslice hend
  have hle : my.seq ≤ (entrySegment my.seq seq raw).1 := UInt32.le_iff_toNat_le.mpr (by omega)
  have hbegin := startDrain_atBegin h.after hle
  unfold startDrain at hbegin ⊢
  generalize entrySegment my.seq seq raw = entry at hentry hkey hextent hbegin
  have hins := h.toReassembly.insert hw hentry
  have hR : R ∪ extent entry.1 entry.2.1.payload = R ∪ extent seq raw.payload := by
    rw [← h.received, Set.union_right_comm, hextent, Set.union_right_comm]
  rw [hR] at hins
  exact ⟨hins, hbegin⟩

/-- What one call of `generic_process` does to the positions received. -/
theorem genericProcess_reassembled (hw : Window s0 S) (h : Reassembled s0 S pre base R my)
    (finSent : Bool) {tcp : TCP}
    (htcp : ∀ raw, tcp.innerPdu = some raw → IsSlice s0 S tcp.seq raw.payload) :
    Reassembled s0 S pre base (R ∪ tcp.extent) (genericProcess finSent my tcp).half := by
  rcases genericProcess_cases finSent my tcp with
    ⟨raw, d, hraw, hge, rfl, hhalf, -⟩ | ⟨hbefore, hhalf, -⟩
  · have hslice := htcp raw hraw
    have hend := not_lt.mp (mt (hslice.ends_before_iff hw h.inWindow).mpr (not_lt.mpr hge))
    have hdone := drain_drained hw (startDrain_inv hw h hslice hend)
    rw [hhalf, tcp.extent_of_some hraw]
    exact { toReassembly := hdone.reassembles, after := hdone.after }
  · -- a segment that ends before `my_seq` holds only positions received before
    have hsub : tcp.extent ⊆ R := by
      cases hraw : tcp.innerPdu with
      | none =>
          rw [tcp.extent_of_none hraw]
          exact Set.empty_subset R
      | some raw =>
          have hslice := htcp raw hraw
          have hend := (hslice.ends_before_iff hw h.inWindow).mp (hbefore raw hraw)
          rw [tcp.extent_of_some hraw, ← h.received]
          exact fun p hp => Or.inl ⟨le_trans hslice.start_le hp.1, lt_trans hp.2 hend⟩
    rw [hhalf, Set.union_eq_left.mpr hsub]
    exact h

/-- The flag goes up only for a segment that reaches `my_seq` without a gap. -/
theorem genericProcess_addedSome (hw : Window s0 S) (h : Reassembled s0 S pre base R my)
    {finSent : Bool} {tcp : TCP}
    (htcp : ∀ raw, tcp.innerPdu = some raw → IsSlice s0 S tcp.seq raw.payload)
    (hadded : (genericProcess finSent my tcp).addedSome = true) :
    ∃ raw, tcp.innerPdu = some raw ∧ tcp.seq.toNat ≤ my.seq.toNat ∧
      my.seq.toNat ≤ tcp.seq.toNat + raw.payload.length := by
  rcases genericProcess_cases finSent my tcp with
    ⟨raw, d, hraw, hge, rfl, -, hflag, -⟩ | ⟨-, -, hflag, -⟩
  · have hslice := htcp raw hraw
    have hend := not_lt.mp (mt (hslice.ends_before_iff hw h.inWindow).mpr (not_lt.mpr hge))
    refine ⟨raw, hraw, ?_, hend⟩
    by_contra hgap
    -- beyond a gap nothing is stored at `my_seq`, and the loop is not entered
    have hkey := (entrySegment_spec hw h.inWindow hslice hend).2.1
    have hstart : (startDrain my tcp.seq raw).it = none := by
      refine if_neg fun hmem => ?_
      rcases mem_safeInsert.mp hmem with heq | hmem
      · rw [← heq] at hkey
        omega
      · exact absurd (h.after _ hmem) (lt_irrefl _)
    rw [hflag, drain_of_end hstart] at hadded
    exact absurd hadded Bool.false_ne_true
  · rw [hflag] at hadded
    exact absurd hadded Bool.false_ne_true

/-- And for every such segment. -/
theorem genericProcess_addedSome_of_le (hw : Window s0 S) (h : Reassembled s0 S pre base R my)
    {finSent : Bool} {tcp : TCP} {raw : RawPDU} (hraw : tcp.innerPdu = some raw)
    (hslice : IsSlice s0 S tcp.seq raw.payload) (hle : tcp.seq.toNat ≤ my.seq.toNat)
    (hend : my.seq.toNat ≤ tcp.seq.toNat + raw.payload.length) :
    (genericProcess finSent my tcp).addedSome = true := by
  have hentry : (entrySegment my.seq tcp.seq raw).1 = my.seq := by
    have := (entrySegment_spec hw h.inWindow hslice hend).2.1
    exact UInt32.toNat_inj.mp (by omega)
  have hmem : my.seq ∈ (startDrain my tcp.seq raw).frags :=
    mem_safeInsert.mpr (Or.inl hentry.symm)
  rcases genericProcess_cases finSent my tcp with
    ⟨raw', d, hraw', -, rfl, -, hflag, -⟩ | ⟨hbefore, -⟩
  · obtain rfl := Option.some.inj (hraw.symm.trans hraw')
    rw [hflag]
    exact drain_addedSome (if_pos hmem) hmem
  · have hlt := (hslice.ends_before_iff hw h.inWindow).mp (hbefore raw hraw)
    exact absurd hlt (not_lt.mpr hend)

end

/-- While the flag stays down, the payload and `my_seq` stay as they are. -/
theorem genericProcess_unchanged {finSent : Bool} {my : Half} {tcp : TCP}
    (h : (genericProcess finSent my tcp).addedSome = false) :
    (genericProcess finSent my tcp).half.seq = my.seq ∧
      (genericProcess finSent my tcp).half.payload = my.payload := by
  rcases genericProcess_cases finSent my tcp with
    ⟨raw, d, -, -, rfl, hhalf, hflag, -⟩ | ⟨-, hhalf, -⟩
  · rw [hhalf]
    exact drain_unchanged (hflag.symm.trans h)
  · rw [hhalf]
    exact ⟨rfl, rfl⟩

/-! ### Any sequence of segments -/

/-- `tcp` carries `S[i..j)` at sequence number `s0 + i`. -/
def Carries (s0 : UInt32) (S : List UInt8) (tcp : TCP) (i j : ℕ) : Prop :=
  i ≤ j ∧ j ≤ S.length ∧ tcp.seq = s0 + UInt32.ofNat i ∧
    ∃ raw, tcp.innerPdu = some raw ∧ raw.payload = slice S i j

/-- `tcp` carries some slice of `S` in its place, or no data. -/
def SegmentOf (s0 : UInt32) (S : List UInt8) (tcp : TCP) : Prop :=
  tcp.innerPdu = none ∨ ∃ i j, Carries s0 S tcp i j

/-- Every index of `S` is in some segment of the list. -/
def Covers (s0 : UInt32) (S : List UInt8) (tcps : List TCP) : Prop :=
  ∀ x < S.length, ∃ tcp ∈ tcps, ∃ i j, Carries s0 S tcp i j ∧ i ≤ x ∧ x < j

/-- Successive calls of `generic_process` for one direction, without `cap`. -/
def processAll (st : Bool × Half) (tcps : List TCP) : Bool × Half :=
  tcps.foldl (fun st tcp =>
    let p := genericProcess st.1 st.2 tcp
    (p.finSent, p.half)) st

section

variable {s0 : UInt32} {S : List UInt8}

theorem Carries.seq_toNat {tcp : TCP} {i j : ℕ} (h : Carries s0 S tcp i j) (hw : Window s0 S) :
    tcp.seq.toNat = s0.toNat + i := by
  obtain ⟨hij, hj, hseq, -⟩ := h
  have hwrap := hw.noWrap
  rw [hseq, UInt32.toNat_add, UInt32.toNat_ofNat_of_lt' (show i < 4294967296 by omega)]
  omega

theorem Carries.extent_eq {tcp : TCP} {i j : ℕ} (h : Carries s0 S tcp i j) (hw : Window s0 S) :
    tcp.extent = Set.Ico (s0.toNat + i) (s0.toNat + j) := by
  have hseq := h.seq_toNat hw
  obtain ⟨hij, hj, -, raw, hraw, hbytes⟩ := h
  simp only [TCP.extent, hraw, extent, hseq, hbytes, slice_length hj]
  congr 1
  omega

theorem SegmentOf.isSlice {tcp : TCP} (h : SegmentOf s0 S tcp) (hw : Window s0 S) :
    ∀ raw, tcp.innerPdu = some raw → IsSlice s0 S tcp.seq raw.payload := by
  intro raw hraw
  rcases h with hnone | ⟨i, j, hcarries⟩
  · rw [hnone] at hraw
    exact absurd hraw (by simp)
  · have hseq := hcarries.seq_toNat hw
    obtain ⟨hij, hj, -, raw', hraw', hbytes⟩ := hcarries
    obtain rfl : raw' = raw := Option.some.inj (hraw'.symm.trans hraw)
    have hlen : raw'.payload.length = j - i := by rw [hbytes, slice_length hj]
    refine ⟨by omega, by omega, ?_⟩
    rw [hlen, hseq, hbytes]
    congr 1 <;> omega

/-- The positions of a list of segments. -/
def extents (tcps : List TCP) : Set ℕ := {p | ∃ tcp ∈ tcps, p ∈ tcp.extent}

theorem extents_cons (tcp : TCP) (tcps : List TCP) :
    extents (tcp :: tcps) = tcp.extent ∪ extents tcps := by
  ext p
  simp [extents]

theorem Covers.subset {tcps : List TCP} (h : Covers s0 S tcps) (hw : Window s0 S) :
    Set.Ico s0.toNat (s0.toNat + S.length) ⊆ extents tcps := by
  intro p hp
  obtain ⟨tcp, htcp, i, j, hcarries, hi, hj⟩ := h (p - s0.toNat) (by have := hp.1; have := hp.2; omega)
  refine ⟨tcp, htcp, ?_⟩
  rw [hcarries.extent_eq hw]
  have := hp.1
  exact ⟨by omega, by omega⟩

/-- The run lemma: the positions of all segments are received, in whatever order
they came. -/
theorem processAll_reassembled (hw : Window s0 S) {pre : List UInt8} {base : ℕ} :
    ∀ {tcps : List TCP} (st : Bool × Half) {R : Set ℕ}, Reassembled s0 S pre base R st.2 →
      (∀ tcp ∈ tcps, SegmentOf s0 S tcp) →
      Reassembled s0 S pre base (R ∪ extents tcps) (processAll st tcps).2 := by
  intro tcps
  induction tcps with
  | nil =>
      intro st R h _
      simpa [extents, processAll] using h
  | cons tcp tcps ih =>
      intro st R h hsegs
      have hstep := genericProcess_reassembled hw h st.1
        ((hsegs tcp List.mem_cons_self).isSlice hw)
      have hrest := ih ((genericProcess st.1 st.2 tcp).finSent,
        (genericProcess st.1 st.2 tcp).half) hstep
        (fun tcp' htcp' => hsegs tcp' (List.mem_cons_of_mem _ htcp'))
      rw [extents_cons, ← Set.union_assoc]
      exact hrest

/-- Once every position of `S` is received, everything has been passed on. -/
theorem Reassembled.complete {pre : List UInt8} {base : ℕ} {R : Set ℕ} {my : Half}
    (h : Reassembled s0 S pre base R my)
    (hR : Set.Ico s0.toNat (s0.toNat + S.length) ⊆ R) :
    my.seq.toNat = s0.toNat + S.length := by
  have hle := h.seq_le
  by_contra hne
  exact h.not_mem (hR ⟨h.inWindow.1, by omega⟩)

/-- **Reassembly without `cap` is complete and independent of the order.** The
direction expects `s0` and has stored `P`; fragments may be pending already, as
slices of `S` beyond a gap. Whatever segments of `S` follow, in any order and with
any duplication and overlap: once they cover `S`, the payload is `P ++ S`. -/
theorem genericProcess_complete (hw : Window s0 S) {P : List UInt8} {finSent : Bool} {my : Half}
    (hseq : my.seq = s0) (hpayload : my.payload = P)
    (hfrags : ∀ key raw, my.frags.find? key = some raw →
      s0 < key ∧ IsSlice s0 S key raw.payload)
    {tcps : List TCP} (hsegs : ∀ tcp ∈ tcps, SegmentOf s0 S tcp)
    (hcover : Covers s0 S tcps) :
    (processAll (finSent, my) tcps).2.payload = P ++ S ∧
      (processAll (finSent, my) tcps).2.seq.toNat = s0.toNat + S.length ∧
      (∀ key ∈ (processAll (finSent, my) tcps).2.frags,
        (processAll (finSent, my) tcps).2.seq < key) ∧
      ∀ n, ∀ key ∈ (processAll (finSent, my) (tcps.take n)).2.frags,
        (processAll (finSent, my) (tcps.take n)).2.seq < key := by
  have hinit : Reassembled s0 S P 0 (held my.frags) my := by
    refine ⟨⟨by rw [hseq]; omega, by rw [hseq]; omega, ?_, fun key raw h => (hfrags key raw h).2, ?_⟩,
      ?_⟩
    · rw [hpayload, hseq, Nat.sub_self, slice_self, List.append_nil]
    · rw [hseq, Set.Ico_self, Set.empty_union]
    · intro key hkey
      obtain ⟨raw, hraw⟩ := OrdMap.mem_iff_exists.mp hkey
      rw [hseq]
      exact (hfrags key raw hraw).1
  have hfinal := processAll_reassembled hw (finSent, my) hinit hsegs
  have hlast := hfinal.complete (Set.subset_union_of_subset_right (hcover.subset hw) _)
  refine ⟨?_, hlast, hfinal.after, fun n => ?_⟩
  · rw [hfinal.payload_eq, hlast, Nat.add_sub_cancel_left, slice_zero_length]
  · exact (processAll_reassembled hw (finSent, my) hinit
      (fun tcp htcp => hsegs tcp (List.mem_of_mem_take htcp))).after

/-- Two overlapping segments, the later one first. -/
theorem genericProcess_complete_swapped :
    (processAll (false, ⟨100, [7], ∅⟩)
      [⟨5000, 80, 101, 0, 0x10, some ⟨0, [2, 3]⟩⟩,
        ⟨5000, 80, 100, 0, 0x10, some ⟨1, [1, 2]⟩⟩]).2.payload = [7] ++ [1, 2, 3] := by
  have hlate : Carries 100 [1, 2, 3] ⟨5000, 80, 101, 0, 0x10, some ⟨0, [2, 3]⟩⟩ 1 3 :=
    ⟨by decide, by decide, by decide, _, rfl, by decide⟩
  have hearly : Carries 100 [1, 2, 3] ⟨5000, 80, 100, 0, 0x10, some ⟨1, [1, 2]⟩⟩ 0 2 :=
    ⟨by decide, by decide, by decide, _, rfl, by decide⟩
  refine (genericProcess_complete (S := [1, 2, 3]) ⟨by decide, by decide⟩ rfl rfl (by simp)
    ?_ ?_).1
  · intro tcp htcp
    simp only [List.mem_cons, List.not_mem_nil, or_false] at htcp
    rcases htcp with rfl | rfl
    · exact Or.inr ⟨1, 3, hlate⟩
    · exact Or.inr ⟨0, 2, hearly⟩
  · intro x hx
    by_cases hx0 : x = 0
    · exact ⟨_, List.mem_cons_of_mem _ List.mem_cons_self, 0, 2, hearly, by omega, by omega⟩
    · exact ⟨_, List.mem_cons_self, 1, 3, hlate, by omega, by simpa using hx⟩

end

end CLabs.Tcp
