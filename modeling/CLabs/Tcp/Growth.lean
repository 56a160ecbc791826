import CLabs.Tcp.EraseBounds
import CLabs.Tcp.Reassembly

/-!
# CLabs.Tcp.Growth

**What the result of `update` tells.** It is documented to say whether a stored payload has
changed. `generic_process` raises its flag whenever a fragment at `my_seq` is taken, and a
segment that ends exactly at `my_seq` is let through the entry test and becomes such a
fragment, with no bytes left in it (`TCP.EndsAt`). These segments, and those that overrun,
are the only ones whose result is wrong (`update_reports_iff`).

The result is about every segment, and about streams whose past segments do not wrap or have
payloads of a possible size. There each pending fragment lies ahead of `my_seq`, as the
comparison sees it (`run_ahead`), so that a round that adds no bytes is followed by no further
one. Nothing is said of the bytes, which may differ between retransmissions, nor of how far
the sequence numbers lie apart.
-/

namespace CLabs.Tcp

open CLabs.Lib

/-! ### The loop at `my_seq` -/

section

variable {d : Drain} {raw : RawPDU}

theorem drain_take (hit : d.it = some d.mySeq) (hfind : d.frags.find? d.mySeq = some raw) :
    drain d = if (takeFragment d d.mySeq raw).frags.isEmpty then takeFragment d d.mySeq raw
      else drain (takeFragment d d.mySeq raw) := by
  have hbody := drainBody_take hit hfind
  split_ifs with hempty
  · rw [if_pos hempty] at hbody
    exact whileLoop_of_done drainBody_decreases hbody
  · rw [if_neg hempty] at hbody
    exact whileLoop_of_yield drainBody_decreases hbody

/-- The loop only appends to the payload. -/
theorem drain_pload_prefix (d : Drain) : d.pload <+: (drain d).pload := by
  refine drain_rule (fun d' => d.pload <+: d'.pload) ?_ ?_ ?_ (List.prefix_refl _)
  · exact fun d₁ key raw h _ _ _ => h
  · exact fun d₁ key raw h _ => h
  · exact fun d₁ raw h _ => h.trans (List.prefix_append _ _)

/-- A loop that starts at `my_seq` lengthens the payload iff the fragment there has bytes:
after an empty one it is still at `my_seq`, and nothing else is. -/
theorem drain_grows_iff (hit : d.it = some d.mySeq) (hfind : d.frags.find? d.mySeq = some raw)
    (hahead : ∀ key ∈ d.frags, key ≠ d.mySeq → 0 < compareSeqNumbers key d.mySeq) :
    d.pload.length < (drain d).pload.length ↔ raw.payload ≠ [] := by
  have htaken : (takeFragment d d.mySeq raw).pload = d.pload ++ raw.payload := rfl
  by_cases hraw : raw.payload = []
  · refine iff_of_false ?_ (not_not.mpr hraw)
    have hseq : (takeFragment d d.mySeq raw).mySeq = d.mySeq := by
      show d.mySeq + UInt32.ofNat raw.payload.length = d.mySeq
      rw [hraw]
      exact UInt32.add_zero _
    have hstop : drain (takeFragment d d.mySeq raw) = takeFragment d d.mySeq raw := by
      refine whileLoop_of_done drainBody_decreases (drainBody_stop fun key _ hkey => ?_)
      rw [takeFragment, eraseIterator_snd] at hkey
      obtain ⟨hne, hmem⟩ := OrdMap.mem_erase.mp hkey
      rw [hseq]
      exact hahead key hmem hne
    rw [drain_take hit hfind, hstop, ite_self, htaken, hraw, List.append_nil]
    exact lt_irrefl _
  · refine iff_of_true ?_ hraw
    have hgrown : (takeFragment d d.mySeq raw).pload <+: (drain d).pload := by
      rw [drain_take hit hfind]
      split_ifs
      · exact List.prefix_refl _
      · exact drain_pload_prefix _
    have hlen := hgrown.length_le
    have hpos := List.length_pos_of_ne_nil hraw
    rw [htaken, List.length_append] at hlen
    omega

end

/-! ### One segment -/

/-- The segment ends exactly where the direction goes on: a retransmission of the bytes
received last, or a keep-alive probe. -/
def TCP.EndsAt (tcp : TCP) (mySeq : UInt32) : Prop :=
  ∃ raw, tcp.innerPdu = some raw ∧ raw.payload.length < 2147483648 ∧
    mySeq = tcp.seq + raw.payloadSize

section

variable {mySeq seq : UInt32} {raw : RawPDU}

theorem endsAt_iff : (raw.payload.length < 2147483648 ∧ mySeq = seq + raw.payloadSize) ↔
    raw.payload.length < 2147483648 ∧ (mySeq - seq).toNat = raw.payload.length := by
  have hseq := seq.toNat_lt
  have hmy := mySeq.toNat_lt
  refine and_congr_right fun hlen => ?_
  rw [← UInt32.toNat_inj, UInt32.toNat_sub, UInt32.toNat_add, payloadSize_toNat (by omega)]
  omega

/-- Of a segment that reaches `my_seq` and does not start after it, nothing is left behind
`my_seq` iff it ends there or overruns. -/
theorem length_le_iff
    (hend : 0 ≤ compareSeqNumbers (addSequenceNumbers seq raw.payloadSize) mySeq)
    (hstart : compareSeqNumbers seq mySeq ≤ 0) :
    raw.payload.length ≤ (mySeq - seq).toNat ↔
      (raw.payload.length < 2147483648 ∧ mySeq = seq + raw.payloadSize) ∨
        Overruns mySeq seq raw := by
  have hsize : raw.payloadSize.toNat = raw.payload.length % 4294967296 := UInt32.toNat_ofNat'
  have hsum := addSequenceNumbers_cases seq raw.payloadSize
  have hend := mt compareSeqNumbers_lt_zero_iff.mpr (not_lt.mpr hend)
  have hstart := mt compareSeqNumbers_pos_iff.mpr (not_lt.mpr hstart)
  have hcut := toNat_sub_cases mySeq seq
  have hrest := toNat_sub_cases mySeq (addSequenceNumbers seq raw.payloadSize)
  have hseq := seq.toNat_lt
  have hmy := mySeq.toNat_lt
  rw [endsAt_iff, overruns_iff]
  -- the sum wraps or does not, and so does the distance from the start
  rcases hsum with hsum | hsum
  · rcases hcut with hcut | hcut <;> omega
  · rcases hcut with hcut | hcut <;> omega

/-- A segment that ends at `my_seq` reaches it, and starts before it or at it. -/
theorem compare_of_endsAt (h : raw.payload.length < 2147483648 ∧ mySeq = seq + raw.payloadSize) :
    0 ≤ compareSeqNumbers (addSequenceNumbers seq raw.payloadSize) mySeq ∧
      compareSeqNumbers seq mySeq ≤ 0 := by
  have hsize := payloadSize_toNat (show raw.payload.length < 4294967296 by omega)
  have hsum := addSequenceNumbers_cases seq raw.payloadSize
  have hcut := toNat_sub_cases mySeq seq
  have hrest := toNat_sub_cases mySeq (addSequenceNumbers seq raw.payloadSize)
  have hseq := seq.toNat_lt
  have hmy := mySeq.toNat_lt
  have h := endsAt_iff.mp h
  rw [← not_lt, ← not_lt, compareSeqNumbers_lt_zero_iff, compareSeqNumbers_pos_iff]
  omega

theorem Overruns.starts_before (h : Overruns mySeq seq raw) :
    compareSeqNumbers seq mySeq ≤ 0 := by
  have h := overruns_iff.mp h
  rw [← not_lt, compareSeqNumbers_pos_iff]
  omega

/-- The entry slice of a segment that does not start after `my_seq`. -/
theorem entrySegment_of_le (raw : RawPDU) (h : compareSeqNumbers seq mySeq ≤ 0) :
    (entrySegment mySeq seq raw).1 = mySeq ∧
      (entrySegment mySeq seq raw).2.1.payload = raw.payload.drop (mySeq - seq).toNat := by
  unfold entrySegment
  by_cases hlt : compareSeqNumbers seq mySeq < 0
  · rw [if_pos hlt, ← subtractSequenceNumbers_eq_sub]
    exact ⟨rfl, rfl⟩
  · rw [if_neg hlt]
    obtain rfl := compareSeqNumbers_eq_zero_iff.mp (le_antisymm h (not_lt.mp hlt))
    rw [UInt32.sub_self]
    exact ⟨rfl, rfl⟩

end

/-- The fragments all lie after `my_seq`. -/
def Half.Ahead (my : Half) : Prop := ∀ key ∈ my.frags, 0 < compareSeqNumbers key my.seq

theorem Half.Ahead.find?_eq_none {my : Half} (h : my.Ahead) : my.frags.find? my.seq = none := by
  by_contra hsome
  have hpos := h my.seq (Option.isSome_iff_ne_none.mpr hsome)
  rw [compareSeqNumbers_self] at hpos
  exact absurd hpos (lt_irrefl _)

/-- A segment that starts after `my_seq` waits. -/
theorem drain_startDrain_of_pos {my : Half} (h : my.Ahead) {seq : UInt32} (raw : RawPDU)
    (hpos : 0 < compareSeqNumbers seq my.seq) :
    drain (startDrain my seq raw) = startDrain my seq raw := by
  apply drain_of_end
  unfold startDrain entrySegment
  rw [if_neg hpos.not_gt]
  dsimp only
  rw [if_neg]
  rw [OrdMap.mem_iff, find?_safeInsert, if_neg, h.find?_eq_none]
  · exact Bool.false_ne_true
  · intro heq
    rw [heq, compareSeqNumbers_self] at hpos
    exact absurd hpos (lt_irrefl _)

/-- One that does not goes into the payload with what it has from `my_seq` on. -/
theorem drain_startDrain_of_le {my : Half} (h : my.Ahead) {seq : UInt32} (raw : RawPDU)
    (hle : compareSeqNumbers seq my.seq ≤ 0) :
    (drain (startDrain my seq raw)).addedSome = true ∧
      (my.payload.length < (drain (startDrain my seq raw)).pload.length ↔
        (my.seq - seq).toNat < raw.payload.length) := by
  obtain ⟨hkey, hpayload⟩ := entrySegment_of_le raw hle
  have hfind : (startDrain my seq raw).frags.find? my.seq =
      some (entrySegment my.seq seq raw).2.1 := by
    show (safeInsert my.frags (entrySegment my.seq seq raw).1 _).1.find? my.seq = _
    rw [hkey, find?_safeInsert, if_pos rfl, h.find?_eq_none]
    rfl
  have hmem : my.seq ∈ (startDrain my seq raw).frags := OrdMap.mem_iff_exists.mpr ⟨_, hfind⟩
  have hit : (startDrain my seq raw).it = some my.seq := if_pos hmem
  refine ⟨drain_addedSome hit hmem, ?_⟩
  have hgrows := drain_grows_iff (d := startDrain my seq raw) hit hfind fun key hmem' hne => by
    change key ∈ (safeInsert my.frags (entrySegment my.seq seq raw).1 _).1 at hmem'
    rw [hkey] at hmem'
    rcases mem_safeInsert.mp hmem' with rfl | hmem'
    · exact absurd rfl hne
    · exact h key hmem'
  rw [hpayload, ne_eq, List.drop_eq_nil_iff, not_le] at hgrows
  exact hgrows

theorem TCP.endsAt_of_some (tcp : TCP) {mySeq : UInt32} {raw : RawPDU}
    (h : tcp.innerPdu = some raw) :
    tcp.EndsAt mySeq ↔ raw.payload.length < 2147483648 ∧ mySeq = tcp.seq + raw.payloadSize := by
  rw [TCP.EndsAt, h]
  constructor
  · intro ⟨raw', hraw', hends⟩
    rwa [Option.some.inj hraw']
  · exact fun hends => ⟨raw, rfl, hends⟩

/-- **One segment**: its result is right iff it neither ends at `my_seq` nor overruns. -/
theorem genericProcess_reports_iff {my : Half} (h : my.Ahead) (finSent : Bool) (tcp : TCP) :
    ((genericProcess finSent my tcp).addedSome = true ↔
        my.payload.length < (genericProcess finSent my tcp).half.payload.length) ↔
      ¬ tcp.EndsAt my.seq ∧ ¬ tcp.Overruns my.seq := by
  rcases genericProcess_cases finSent my tcp with
    ⟨raw, d, hraw, hend, rfl, hhalf, hadded, -⟩ | ⟨hbefore, hhalf, hadded, -⟩
  · rw [hhalf, hadded, tcp.endsAt_of_some hraw, tcp.overruns_of_some hraw]
    by_cases hpos : 0 < compareSeqNumbers tcp.seq my.seq
    · -- the segment waits: nothing is reported and nothing is added
      rw [drain_startDrain_of_pos h raw hpos]
      refine iff_of_true (iff_of_false Bool.false_ne_true (lt_irrefl _)) ⟨?_, ?_⟩
      · intro hends
        exact absurd hpos (compare_of_endsAt hends).2.not_gt
      · intro hover
        exact absurd hpos hover.starts_before.not_gt
    · obtain ⟨htrue, hgrows⟩ := drain_startDrain_of_le h raw (not_lt.mp hpos)
      rw [htrue, hgrows, ← not_or, ← length_le_iff hend (not_lt.mp hpos), not_le]
      simp
  · rw [hhalf, hadded]
    refine iff_of_true (iff_of_false Bool.false_ne_true (lt_irrefl _)) ⟨?_, ?_⟩
    · intro ⟨raw, hraw, hends⟩
      exact absurd (hbefore raw hraw) (compare_of_endsAt hends).1.not_gt
    · intro ⟨raw, hraw, hover⟩
      exact absurd hover.compare_eq (hbefore raw hraw).ne

/-! ### Where the loop stands

The comparison goes round the sequence space, and so does the iterator. A loop that starts at
`my_seq`, with everything else ahead, therefore meets the fragments it has passed in the order
in which they lie, the one farthest behind first. -/

/-- `erase_iterator` steps to the key that comes next when one goes up from `it`. -/
theorem eraseIterator_nearest {it key : UInt32} {cont : OrdMap UInt32 RawPDU}
    (hkey : key ∈ cont.erase it) :
    ∃ next, (eraseIterator it cont).1 = some next ∧ next ∈ cont.erase it ∧
      (next - it).toNat ≤ (key - it).toNat := by
  obtain ⟨hne, hmem⟩ := OrdMap.mem_erase.mp hkey
  have hcases := toNat_sub_cases key it
  have hne' : key.toNat ≠ it.toNat := fun heq => hne (UInt32.toNat_inj.mp heq)
  unfold eraseIterator
  cases hnext : cont.next it with
  | some next =>
      obtain ⟨hmem', hlt⟩ := OrdMap.next_mem hnext
      refine ⟨next, rfl, OrdMap.mem_erase.mpr ⟨hlt.ne', hmem'⟩, ?_⟩
      have hup := UInt32.lt_iff_toNat_lt.mp hlt
      have hnearest : it.toNat < key.toNat → next.toNat ≤ key.toNat := fun h =>
        UInt32.le_iff_toNat_le.mp (OrdMap.next_le hnext hmem (UInt32.lt_iff_toNat_lt.mpr h))
      have hnext := next.toNat_lt
      rcases toNat_sub_cases next it with hcases' | hcases' <;> omega
  | none =>
      have hlast : ∀ k ∈ cont.erase it, k.toNat < it.toNat := by
        intro k hk
        obtain ⟨hne, hmem⟩ := OrdMap.mem_erase.mp hk
        exact UInt32.lt_iff_toNat_lt.mp
          (lt_of_le_of_ne (OrdMap.next_eq_none_iff.mp hnext k hmem) hne)
      cases hbegin : (cont.erase it).begin with
      | none => exact absurd hkey (OrdMap.begin_eq_none_iff.mp hbegin key)
      | some first =>
          obtain ⟨hfirst, hleast⟩ := OrdMap.begin_eq_some_iff.mp hbegin
          refine ⟨first, rfl, hfirst, ?_⟩
          have hle := UInt32.le_iff_toNat_le.mp (hleast key hkey)
          have hlt := hlast first hfirst
          have hlt' := hlast key hkey
          rcases toNat_sub_cases first it with hcases' | hcases' <;> omega

/-- If a fragment is not ahead of `my_seq`, the loop is at the one farthest behind. -/
def Drain.AtFarthest (d : Drain) : Prop :=
  ∀ key ∈ d.frags, compareSeqNumbers key d.mySeq ≤ 0 →
    ∃ first, d.it = some first ∧ first ∈ d.frags ∧ compareSeqNumbers first d.mySeq ≤ 0 ∧
      (d.mySeq - key).toNat ≤ (d.mySeq - first).toNat

/-- The fragment at `first` is erased, and those that are not ahead now lie between it and
`my_seq`. -/
theorem atFarthest_of_erased {d : Drain} {first : UInt32} {cont : OrdMap UInt32 RawPDU}
    (hfrags : d.frags = cont.erase first) (hit : d.it = (eraseIterator first cont).1)
    (hdist : (d.mySeq - first).toNat ≤ 2147483648)
    (hbetween : ∀ key ∈ d.frags, compareSeqNumbers key d.mySeq ≤ 0 →
      (key - first).toNat ≤ (d.mySeq - first).toNat) : d.AtFarthest := by
  intro key hkey hle
  have hfar := hbetween key hkey hle
  rw [hfrags] at hkey
  obtain ⟨next, hnext, hmem, hnear⟩ := eraseIterator_nearest hkey
  refine ⟨next, hit.trans hnext, hfrags ▸ hmem, ?_⟩
  have hne : next.toNat ≠ first.toNat :=
    fun heq => (OrdMap.mem_erase.mp hmem).1 (UInt32.toNat_inj.mp heq)
  have hcut := toNat_sub_cases d.mySeq first
  have hcut₁ := toNat_sub_cases key first
  have hcut₂ := toNat_sub_cases next first
  have hcut₃ := toNat_sub_cases d.mySeq key
  have hcut₄ := toNat_sub_cases d.mySeq next
  have hkey := key.toNat_lt
  have hfirst := first.toNat_lt
  rw [compareSeqNumbers_le_zero_iff] at hle ⊢
  omega

section

variable {d : Drain} {first : UInt32} {raw : RawPDU}

/-- What a key that lies behind `my_seq`, and not farther than `first`, is to `first`. -/
theorem sub_le_sub_of_farther {mySeq key : UInt32}
    (h : (mySeq - key).toNat ≤ (mySeq - first).toNat) :
    (key - first).toNat ≤ (mySeq - first).toNat := by
  have hcut := toNat_sub_cases mySeq first
  have hcut₁ := toNat_sub_cases key first
  have hcut₂ := toNat_sub_cases mySeq key
  have hkey := key.toNat_lt
  have hfirst := first.toNat_lt
  omega

theorem Drain.AtFarthest.farther (h : d.AtFarthest) (hit : d.it = some first) {key : UInt32}
    (hmem : key ∈ d.frags) (hle : compareSeqNumbers key d.mySeq ≤ 0) :
    (d.mySeq - key).toNat ≤ (d.mySeq - first).toNat := by
  obtain ⟨first', hit', -, -, hfar⟩ := h key hmem hle
  obtain rfl := Option.some.inj (hit.symm.trans hit')
  exact hfar

theorem sliceFragment_atFarthest (h : d.AtFarthest) (hit : d.it = some first)
    (hlt : compareSeqNumbers first d.mySeq < 0) : (sliceFragment d first raw).AtFarthest := by
  have hdist := compareSeqNumbers_le_zero_iff.mp hlt.le
  refine atFarthest_of_erased (eraseIterator_snd _ _) rfl hdist.le fun key hkey hle => ?_
  simp only [sliceFragment, eraseIterator_snd] at hkey hle
  rcases mem_safeInsert.mp (OrdMap.mem_erase.mp hkey).2 with rfl | hmem
  · exact le_rfl
  · exact sub_le_sub_of_farther (h.farther hit hmem hle)

theorem dropFragment_atFarthest (h : d.AtFarthest) (hit : d.it = some first)
    (hlt : compareSeqNumbers first d.mySeq < 0) : (dropFragment d first raw).AtFarthest := by
  have hdist := compareSeqNumbers_le_zero_iff.mp hlt.le
  refine atFarthest_of_erased (eraseIterator_snd _ _) rfl hdist.le fun key hkey hle => ?_
  simp only [dropFragment, eraseIterator_snd] at hkey hle
  exact sub_le_sub_of_farther (h.farther hit (OrdMap.mem_erase.mp hkey).2 hle)

/-- At `my_seq` everything else is ahead, by half of the space at most, and a fragment of at
most that length passes over what lies in it. -/
theorem takeFragment_atFarthest (h : d.AtFarthest) (hit : d.it = some d.mySeq)
    (hlen : raw.payload.length ≤ 2147483648) : (takeFragment d d.mySeq raw).AtFarthest := by
  have hsize := payloadSize_toNat (show raw.payload.length < 4294967296 by omega)
  have hmy := d.mySeq.toNat_lt
  have hseq : (takeFragment d d.mySeq raw).mySeq = d.mySeq + raw.payloadSize := rfl
  have hdist : (d.mySeq + raw.payloadSize - d.mySeq).toNat = raw.payload.length := by
    rw [UInt32.toNat_sub, UInt32.toNat_add, hsize]
    omega
  refine atFarthest_of_erased (eraseIterator_snd _ _) rfl (hseq ▸ hdist.le.trans hlen)
    fun key hkey hle => ?_
  simp only [takeFragment, eraseIterator_snd] at hkey
  obtain ⟨hne, hmem⟩ := OrdMap.mem_erase.mp hkey
  have hahead : 2147483648 ≤ (d.mySeq - key).toNat := by
    by_contra hbehind
    have hfar := h.farther hit hmem (compareSeqNumbers_le_zero_iff.mpr (not_le.mp hbehind))
    rw [UInt32.sub_self] at hfar
    refine hne (UInt32.toNat_inj.mp ?_)
    have hkey := key.toNat_lt
    have hcut := toNat_sub_cases d.mySeq key
    have hzero : (0 : UInt32).toNat = 0 := rfl
    omega
  rw [hseq, compareSeqNumbers_le_zero_iff] at hle
  rw [hseq, hdist]
  have hkey := key.toNat_lt
  have hcut := toNat_sub_cases d.mySeq key
  have hcut₁ := toNat_sub_cases key d.mySeq
  rw [UInt32.toNat_sub, UInt32.toNat_add, hsize] at hle
  omega

/-- A loop that is left at a fragment ahead of `my_seq`, or at the end, leaves everything
ahead. -/
theorem Drain.AtFarthest.ahead (h : d.AtFarthest)
    (hexit : ∀ key raw, d.it = some key → d.frags.find? key = some raw →
      0 < compareSeqNumbers key d.mySeq) : Half.Ahead ⟨d.mySeq, d.pload, d.frags⟩ := by
  intro key hmem
  by_contra hbehind
  obtain ⟨first, hit, hfirst, hle, -⟩ := h key hmem (not_lt.mp hbehind)
  obtain ⟨raw, hraw⟩ := OrdMap.mem_iff_exists.mp hfirst
  exact absurd (hexit first raw hit hraw) hle.not_gt

end

/-! ### Fragments the loop can take

A taken fragment of more than half of the sequence space would put some of the others ahead
again. Payloads of at most that size are safe, and so are all payloads if no segment wraps:
one that is longer is then let in only if it lies so far below `my_seq` that the comparison
takes it for ahead, and it stays there. -/

/-- A pending fragment of `n` bytes at `key`; `w` says that no segment wraps. -/
structure Pending (w : Prop) (mySeq key : UInt32) (n : ℕ) : Prop where
  short : n ≤ 2147483648 ∨ (w ∧ key.toNat + 2147483648 ≤ mySeq.toNat)
  noWrap : w → key.toNat + n < 4294967296 ∧ key.toNat ≤ mySeq.toNat + 2147483648

/-- The segment may be processed: it does not wrap, or is not longer than half of the
sequence space. -/
def TCP.Fits (w : Prop) (tcp : TCP) : Prop :=
  ∀ raw ∈ tcp.innerPdu, (w → tcp.seq.toNat + raw.payload.length < 4294967295) ∧
    (¬ w → raw.payload.length ≤ 2147483648)

section

variable {w : Prop} {mySeq key : UInt32} {n : ℕ}

theorem Pending.length_le (h : Pending w mySeq key n) (hle : compareSeqNumbers key mySeq ≤ 0) :
    n ≤ 2147483648 := by
  rcases h.short with hshort | ⟨-, hfar⟩
  · exact hshort
  · have hdist := compareSeqNumbers_le_zero_iff.mp hle
    rcases toNat_sub_cases mySeq key with hcut | hcut <;> omega

theorem Pending.cut (h : Pending w mySeq key n) (hle : compareSeqNumbers key mySeq ≤ 0) :
    Pending w mySeq mySeq (n - (mySeq - key).toNat) := by
  have hlen := h.length_le hle
  refine ⟨Or.inl (by omega), fun hw => ?_⟩
  obtain ⟨hend, hnear⟩ := h.noWrap hw
  have hdist := compareSeqNumbers_le_zero_iff.mp hle
  have hmy := mySeq.toNat_lt
  rcases toNat_sub_cases mySeq key with hcut | hcut <;> omega

theorem Pending.advance (h : Pending w mySeq key n) {mySeq' : UInt32}
    (hmy : w → mySeq.toNat ≤ mySeq'.toNat) : Pending w mySeq' key n := by
  refine ⟨h.short.imp_right fun ⟨hw, hfar⟩ => ⟨hw, hfar.trans (hmy hw)⟩, fun hw => ?_⟩
  obtain ⟨hend, hnear⟩ := h.noWrap hw
  exact ⟨hend, hnear.trans (Nat.add_le_add_right (hmy hw) _)⟩

/-- Without wraps `my_seq` only grows. -/
theorem Pending.le_add {raw : RawPDU} (h : Pending w mySeq mySeq raw.payload.length) (hw : w) :
    mySeq.toNat ≤ (mySeq + raw.payloadSize).toNat := by
  obtain ⟨hend, -⟩ := h.noWrap hw
  rw [UInt32.toNat_add, payloadSize_toNat (by omega)]
  omega

/-- A segment that is let in, with what lies before `my_seq` cut off. -/
theorem pending_entrySegment {tcp : TCP} (htcp : tcp.Fits w) {raw : RawPDU}
    (hraw : tcp.innerPdu = some raw)
    (hend : 0 ≤ compareSeqNumbers (addSequenceNumbers tcp.seq raw.payloadSize) mySeq) :
    Pending w mySeq (entrySegment mySeq tcp.seq raw).1
      (entrySegment mySeq tcp.seq raw).2.1.payload.length := by
  obtain ⟨hwrap, hshort⟩ := htcp raw hraw
  have hmy := mySeq.toNat_lt
  have hcut := toNat_sub_cases mySeq tcp.seq
  have hreach : w → tcp.seq.toNat + raw.payload.length ≤ mySeq.toNat + 2147483648 ∧
      (mySeq.toNat ≤ tcp.seq.toNat + raw.payload.length ∨
        tcp.seq.toNat + raw.payload.length + 2147483648 ≤ mySeq.toNat) := by
    intro hw
    have hlt := hwrap hw
    have hsize := payloadSize_toNat (show raw.payload.length < 4294967296 by omega)
    have hsum := addSequenceNumbers_of_lt (a := tcp.seq) (b := raw.payloadSize) (by omega)
    rw [← not_lt, compareSeqNumbers_lt_zero_iff] at hend
    have hcut := toNat_sub_cases mySeq (addSequenceNumbers tcp.seq raw.payloadSize)
    omega
  unfold entrySegment
  by_cases hlt : compareSeqNumbers tcp.seq mySeq < 0
  · rw [if_pos hlt]
    dsimp only [RawPDU.erasePrefix]
    rw [subtractSequenceNumbers_eq_sub, List.length_drop]
    have hdist := compareSeqNumbers_le_zero_iff.mp hlt.le
    by_cases hw : w
    · have hreach := hreach hw
      have hlt := hwrap hw
      refine ⟨Or.inl ?_, fun _ => ?_⟩ <;> omega
    · exact ⟨Or.inl (by have := hshort hw; omega), fun h => absurd h hw⟩
  · rw [if_neg hlt]
    dsimp only
    rw [compareSeqNumbers_lt_zero_iff] at hlt
    by_cases hw : w
    · have hreach := hreach hw
      have hlt' := hwrap hw
      refine ⟨?_, fun _ => by omega⟩
      by_cases hfar : tcp.seq.toNat + 2147483648 ≤ mySeq.toNat
      · exact Or.inr ⟨hw, hfar⟩
      · exact Or.inl (by omega)
    · exact ⟨Or.inl (hshort hw), fun h => absurd h hw⟩

end

/-! ### One segment more -/

/-- A direction between two calls. -/
structure Half.Settled (w : Prop) (my : Half) : Prop where
  ahead : my.Ahead
  pending : ∀ key raw, my.frags.find? key = some raw → Pending w my.seq key raw.payload.length

/-- A direction in the loop. -/
structure Drain.Settling (w : Prop) (d : Drain) : Prop where
  atFarthest : d.AtFarthest
  pending : ∀ key raw, d.frags.find? key = some raw → Pending w d.mySeq key raw.payload.length

section

variable {w : Prop}

theorem Half.settled_of_empty {my : Half} (hempty : my.frags = ∅) : my.Settled w := by
  refine ⟨fun key hmem => ?_, fun key raw hraw => ?_⟩
  · rw [hempty] at hmem
    exact absurd hmem Bool.false_ne_true
  · rw [hempty, OrdMap.find?_empty] at hraw
    exact absurd hraw (by simp)

theorem takeFragment_pending {d : Drain} {raw : RawPDU} (h : d.Settling w)
    (hfind : d.frags.find? d.mySeq = some raw) (key : UInt32) (stored : RawPDU)
    (hkey : (takeFragment d d.mySeq raw).frags.find? key = some stored) :
    Pending w (takeFragment d d.mySeq raw).mySeq key stored.payload.length := by
  rw [takeFragment, eraseIterator_snd] at hkey
  exact (h.pending key stored (OrdMap.find?_of_find?_erase hkey)).advance
    (h.pending _ raw hfind).le_add

theorem drainBody_settling {d d' : Drain} (h : d.Settling w) (hb : drainBody d = .yield d') :
    d'.Settling w := by
  obtain ⟨key, raw, hit, hfind, hcases⟩ := drainBody_yield hb
  have hpending := h.pending key raw hfind
  rcases hcases with ⟨hlt, -, rfl⟩ | ⟨hlt, -, rfl⟩ | ⟨rfl, rfl⟩
  · refine ⟨sliceFragment_atFarthest h.atFarthest hit hlt, fun key' raw' hraw' => ?_⟩
    have hcut : Pending w d.mySeq d.mySeq
        (raw.erasePrefix (subtractSequenceNumbers d.mySeq key)).payload.length := by
      rw [RawPDU.erasePrefix, subtractSequenceNumbers_eq_sub, List.length_drop]
      exact hpending.cut hlt.le
    simp only [sliceFragment, eraseIterator_snd] at hraw'
    exact forall_safeInsert (P := fun key raw => Pending w d.mySeq key raw.payload.length)
      h.pending hcut (OrdMap.find?_of_find?_erase hraw')
  · refine ⟨dropFragment_atFarthest h.atFarthest hit hlt, fun key' raw' hraw' => ?_⟩
    rw [dropFragment, eraseIterator_snd] at hraw'
    exact h.pending key' raw' (OrdMap.find?_of_find?_erase hraw')
  · have hlen := hpending.length_le (compareSeqNumbers_self _).le
    exact ⟨takeFragment_atFarthest h.atFarthest hit hlen, takeFragment_pending h hfind⟩

theorem drainBody_settled {d d' : Drain} (h : d.Settling w) (hb : drainBody d = .done d') :
    Half.Settled w ⟨d'.mySeq, d'.pload, d'.frags⟩ := by
  rcases drainBody_done hb with ⟨rfl, hexit⟩ | ⟨raw, -, hfind, rfl, hempty⟩
  · exact ⟨h.atFarthest.ahead hexit, h.pending⟩
  · exact ⟨fun key hmem => absurd hmem (OrdMap.isEmpty_iff.mp hempty key),
      takeFragment_pending h hfind⟩

/-- The loop of a segment that does not start after `my_seq` starts at the segment. -/
theorem startDrain_settling {my : Half} (h : my.Settled w) {seq : UInt32} {raw : RawPDU}
    (hle : compareSeqNumbers seq my.seq ≤ 0)
    (hentry : Pending w my.seq (entrySegment my.seq seq raw).1
      (entrySegment my.seq seq raw).2.1.payload.length) : (startDrain my seq raw).Settling w := by
  have hkey := (entrySegment_of_le raw hle).1
  have hmem : my.seq ∈ (startDrain my seq raw).frags := mem_safeInsert.mpr (Or.inl hkey.symm)
  refine ⟨fun key hkey' hbehind => ?_, fun key stored hfind => ?_⟩
  · refine ⟨my.seq, if_pos hmem, hmem, (compareSeqNumbers_self _).le, ?_⟩
    rcases mem_safeInsert.mp hkey' with rfl | hkey'
    · rw [hkey]
    · exact absurd hbehind (h.ahead key hkey').not_ge
  · exact forall_safeInsert (P := fun key raw => Pending w my.seq key raw.payload.length)
      h.pending hentry hfind

/-- A segment that starts after `my_seq` is put among the fragments. -/
theorem startDrain_settled {my : Half} (h : my.Settled w) {seq : UInt32} {raw : RawPDU}
    (hpos : 0 < compareSeqNumbers seq my.seq)
    (hentry : Pending w my.seq (entrySegment my.seq seq raw).1
      (entrySegment my.seq seq raw).2.1.payload.length) :
    Half.Settled w ⟨my.seq, my.payload, (startDrain my seq raw).frags⟩ := by
  have hkey : (entrySegment my.seq seq raw).1 = seq := by
    rw [entrySegment, if_neg hpos.not_gt]
  refine ⟨fun key hmem => ?_, fun key stored hfind => ?_⟩
  · rcases mem_safeInsert.mp hmem with rfl | hmem
    · rw [hkey]
      exact hpos
    · exact h.ahead key hmem
  · exact forall_safeInsert (P := fun key raw => Pending w my.seq key raw.payload.length)
      h.pending hentry hfind

/-- **One segment.** -/
theorem genericProcess_settled {my : Half} (h : my.Settled w) (finSent : Bool) {tcp : TCP}
    (htcp : tcp.Fits w) : (genericProcess finSent my tcp).half.Settled w := by
  rcases genericProcess_cases finSent my tcp with
    ⟨raw, d, hraw, hend, rfl, hhalf, -⟩ | ⟨-, hhalf, -⟩
  · have hentry := pending_entrySegment htcp hraw hend
    rw [hhalf]
    by_cases hpos : 0 < compareSeqNumbers tcp.seq my.seq
    · rw [drain_startDrain_of_pos h.ahead raw hpos]
      exact startDrain_settled h hpos hentry
    · exact whileLoop_rule drainBody_decreases (Drain.Settling w)
        (fun d => Half.Settled w ⟨d.mySeq, d.pload, d.frags⟩)
        (fun _ _ hd hb => drainBody_settling hd hb) (fun _ _ hd hb => drainBody_settled hd hb)
        (startDrain_settling h (not_lt.mp hpos) hentry)
  · rw [hhalf]
    exact h

end

/-! ### Runs -/

/-- The segment of the call does not wrap. -/
def Call.NoWrap : Call → Prop
  | update _ tcp => ∀ raw ∈ tcp.innerPdu, tcp.seq.toNat + raw.payload.length < 4294967295
  | cap _ _ => True

/-- The payload of the call is not longer than half of the sequence space. -/
def Call.Short : Call → Prop
  | update _ tcp => ∀ raw ∈ tcp.innerPdu, raw.payload.length ≤ 2147483648
  | cap _ _ => True

instance : DecidablePred Call.NoWrap
  | .update _ tcp =>
      inferInstanceAs (Decidable (∀ raw ∈ tcp.innerPdu,
        tcp.seq.toNat + raw.payload.length < 4294967295))
  | .cap _ _ => inferInstanceAs (Decidable True)

/-- The invariant of a run: nothing is pending before the handshake, and what is pending later
is ahead. -/
def TCPCapStream.Settled (w : Prop) (s : TCPCapStream) : Prop :=
  ∀ side, (s.synAckSent = false → (s.half side).frags = ∅) ∧ (s.half side).Settled w

section

variable {w : Prop}

theorem TCPCapStream.settled_new (ip : IP) (tcp : TCP) (identifier : UInt64) :
    (TCPCapStream.new ip tcp identifier).Settled w := by
  intro side
  cases side <;> exact ⟨fun _ => rfl, Half.settled_of_empty rfl⟩

/-- Replacing one direction. -/
theorem TCPCapStream.Settled.setHalf {s : TCPCapStream} (h : s.Settled w) {side : Side}
    {my : Half} (hempty : s.synAckSent = false → my.frags = ∅) (hmy : my.Settled w) :
    (s.setHalf side my).Settled w := by
  intro side'
  rw [setHalf_synAckSent]
  by_cases hside : side' = side
  · subst hside
    rw [half_setHalf]
    exact ⟨hempty, hmy⟩
  · rw [half_setHalf_of_ne _ _ hside]
    exact h side'

/-- The step lemma. -/
theorem Call.exec_settled {s : TCPCapStream} (h : s.Settled w) {call : Call}
    (hcall : ∀ ip tcp, call = .update ip tcp → tcp.Fits w) : (call.exec s).1.Settled w := by
  cases call with
  | update ip tcp =>
      show (s.update ip tcp).1.Settled w
      cases hack : s.synAckSent with
      | false =>
          rw [TCPCapStream.update_opening hack]
          dsimp only
          split_ifs with hflags
          · intro side
            refine ⟨fun hfalse => absurd hfalse.symm Bool.false_ne_true, ?_⟩
            cases side with
            | client => exact Half.settled_of_empty ((h .client).1 hack)
            | server => exact Half.settled_of_empty ((h .server).1 hack)
          · exact h
      | true =>
          rw [TCPCapStream.update_established hack]
          refine TCPCapStream.Settled.setHalf (s := s) h (fun hfalse => ?_)
            (genericProcess_settled (h _).2 s.finSent (hcall ip tcp rfl))
          rw [hack] at hfalse
          exact absurd hfalse.symm Bool.false_ne_true
  | cap ip tcp =>
      show (s.cap ip tcp).1.Settled w
      rw [TCPCapStream.cap_eq]
      exact TCPCapStream.Settled.setHalf h (fun _ => rfl) (Half.settled_of_empty rfl)

/-- The run lemma. -/
theorem run_settled (ip : IP) (tcp : TCP) (identifier : UInt64) {calls : List Call}
    (hcalls : ∀ ip tcp, .update ip tcp ∈ calls → tcp.Fits w) :
    (run Call.exec (.new ip tcp identifier) calls).1.Settled w := by
  refine (run_invariant (TCPCapStream.Settled w) (· ∈ calls) (fun s call hcall h => ?_)
    (TCPCapStream.settled_new ip tcp identifier) fun _ h => h)
  exact Call.exec_settled h fun ip tcp heq => hcalls ip tcp (heq ▸ hcall)

end

/-- **Every run leaves what is pending ahead**, if no segment wraps or if none is longer than
half of the sequence space. -/
theorem run_ahead (ip : IP) (tcp : TCP) (identifier : UInt64) {calls : List Call}
    (hcalls : (∀ call ∈ calls, call.NoWrap) ∨ ∀ call ∈ calls, call.Short) (side : Side) :
    ((run Call.exec (.new ip tcp identifier) calls).1.half side).Ahead := by
  rcases hcalls with hcalls | hcalls
  · refine (run_settled (w := True) ip tcp identifier (fun ip tcp hmem raw hraw => ?_) side).2.ahead
    exact ⟨fun _ => hcalls _ hmem raw hraw, fun h => absurd trivial h⟩
  · refine (run_settled (w := False) ip tcp identifier (fun ip tcp hmem raw hraw => ?_) side).2.ahead
    exact ⟨fun h => h.elim, fun _ => hcalls _ hmem raw hraw⟩

/-- **What `update` reports.** The stream has come from its first packet by calls whose
segments do not wrap, or, wrap or not, have no more than half of the sequence space of
payload, and is established. Then for every segment: `update` answers `true` exactly when the
payload of the sender's direction has become longer, iff the segment neither ends at `my_seq`
nor overruns. -/
theorem update_reports_iff (ip : IP) (tcp : TCP) (identifier : UInt64) (calls : List Call)
    (hcalls : (∀ call ∈ calls, call.NoWrap) ∨ ∀ call ∈ calls, call.Short)
    (hack : (run Call.exec (.new ip tcp identifier) calls).1.synAckSent = true)
    (ip' : IP) (tcp' : TCP) :
    let s := (run Call.exec (.new ip tcp identifier) calls).1
    let side := s.sideOf ip' tcp'
    ((s.update ip' tcp').2.1 = true ↔
        (s.half side).payload.length < ((s.update ip' tcp').1.half side).payload.length) ↔
      ¬ tcp'.EndsAt (s.half side).seq ∧ ¬ tcp'.Overruns (s.half side).seq := by
  intro s side
  have hahead := run_ahead ip tcp identifier hcalls side
  have hhalf : ((s.update ip' tcp').1.half side) =
      (genericProcess s.finSent (s.half side) tcp').half := by
    rw [TCPCapStream.update_established hack]
    exact s.half_setHalf side _
  have hadded : (s.update ip' tcp').2.1 =
      (genericProcess s.finSent (s.half side) tcp').addedSome := by
    rw [TCPCapStream.update_established hack]
  rw [hhalf, hadded]
  exact genericProcess_reports_iff hahead s.finSent tcp'

/-- A handshake, two bytes of the client, and the `cap` that `callback` makes after them. -/
def deliveredCalls : List Call :=
  [.update ⟨2, 1⟩ ⟨80, 5000, 300, 101, 0x12, none⟩,
    .update ⟨1, 2⟩ ⟨5000, 80, 101, 301, 0x10, some ⟨1, [7, 8]⟩⟩,
    .cap ⟨1, 2⟩ ⟨5000, 80, 101, 301, 0x10, none⟩]

/-- A segment of the client far from what is expected of it. -/
def strayCall : Call := .update ⟨1, 2⟩ ⟨5000, 80, 3000000000, 301, 0x10, some ⟨2, [5]⟩⟩

/-- The client's next two bytes, after a stray segment. -/
theorem update_reports_iff_next :
    let s := (run Call.exec (.new ⟨1, 2⟩ ⟨5000, 80, 100, 0, 0x02, none⟩ 0)
      (deliveredCalls ++ [strayCall])).1
    let tcp : TCP := ⟨5000, 80, 103, 301, 0x10, some ⟨3, [9, 10]⟩⟩
    let side := s.sideOf ⟨1, 2⟩ tcp
    ((s.update ⟨1, 2⟩ tcp).2.1 = true ↔
        (s.half side).payload.length < ((s.update ⟨1, 2⟩ tcp).1.half side).payload.length) ↔
      ¬ tcp.EndsAt (s.half side).seq ∧ ¬ tcp.Overruns (s.half side).seq :=
  update_reports_iff _ _ _ (deliveredCalls ++ [strayCall]) (Or.inl (by decide)) (by decide) _ _

/-- The client's two bytes again: `update` reports a change, and there is none. -/
theorem update_reports_retransmission :
    let s := (run Call.exec (.new ⟨1, 2⟩ ⟨5000, 80, 100, 0, 0x02, none⟩ 0) deliveredCalls).1
    let tcp : TCP := ⟨5000, 80, 101, 301, 0x10, some ⟨2, [7, 8]⟩⟩
    (∀ call ∈ deliveredCalls, call.NoWrap) ∧
      s.synAckSent = true ∧ s.sideOf ⟨1, 2⟩ tcp = .client ∧
      ¬ ((s.update ⟨1, 2⟩ tcp).2.1 = true ↔
        s.client.payload.length < (s.update ⟨1, 2⟩ tcp).1.client.payload.length) := by
  decide

end CLabs.Tcp
