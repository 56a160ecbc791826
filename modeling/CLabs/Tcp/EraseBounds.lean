import CLabs.Lib.Run
import CLabs.Tcp.Stream

/-!
# CLabs.Tcp.EraseBounds

How many bytes `generic_process` erases from the front of a payload, over the
**whole** 32-bit sequence space: the numbers may wrap, and segments may carry any
sequence number.

The bound of an erase rests on `add_sequence_numbers`, which is one too large once
the end of a segment reaches `2 ^ 32 - 1`. Inside the drain loop this does no
harm: a fragment is only sliced when its end compares strictly greater than
`my_seq`, and that absorbs the excess. The entry slice is made for an end that
compares equal, too, so a stale segment that ends exactly one byte before
`my_seq` and crosses the wrap is sliced by one byte more than it has
(`Overruns`). These are the only segments for which an erase leaves its payload
(`erases_inRange_iff`).
-/

namespace CLabs.Tcp

open CLabs.Lib

/-- Every erase of the log stays inside its payload. -/
def ErasesInRange (mem : List MemOp) : Prop :=
  ∀ count size, MemOp.erase count size ∈ mem → count ≤ size

theorem erasesInRange_nil : ErasesInRange [] := by
  intro count size h
  exact absurd h List.not_mem_nil

theorem erasesInRange_append {mem mem' : List MemOp} :
    ErasesInRange (mem ++ mem') ↔ ErasesInRange mem ∧ ErasesInRange mem' := by
  constructor
  · intro h
    exact ⟨fun c n hm => h c n (List.mem_append_left _ hm),
      fun c n hm => h c n (List.mem_append_right _ hm)⟩
  · intro h c n hm
    rcases List.mem_append.mp hm with hm | hm
    · exact h.1 c n hm
    · exact h.2 c n hm

theorem erasesInRange_delete (raw : RawPDU) : ErasesInRange [.delete raw] := by
  intro count size h
  exact absurd h (by simp)

theorem erasesInRange_erase {count size : Nat} :
    ErasesInRange [.erase count size] ↔ count ≤ size := by
  constructor
  · intro h
    exact h count size List.mem_cons_self
  · intro h c n hm
    obtain ⟨rfl, rfl⟩ : c = count ∧ n = size := by simpa using hm
    exact h

theorem safeInsert_erasesInRange (frags : OrdMap UInt32 RawPDU) (seq : UInt32) (raw : RawPDU) :
    ErasesInRange (safeInsert frags seq raw).2 := by
  unfold safeInsert
  cases frags.find? seq with
  | none => exact erasesInRange_nil
  | some stored =>
      dsimp only
      split
      · exact erasesInRange_delete raw
      · exact erasesInRange_delete stored

/-! ### The two slices -/

theorem payloadSize_le (raw : RawPDU) : raw.payloadSize.toNat ≤ raw.payload.length := by
  show (UInt32.ofNat raw.payload.length).toNat ≤ _
  rw [UInt32.toNat_ofNat']
  exact Nat.mod_le _ _

/-- The slice in the loop: an end that compares strictly after `my_seq` leaves room
for the excess of `add_sequence_numbers`. -/
theorem slice_inRange {key mySeq : UInt32} {raw : RawPDU}
    (hlt : compareSeqNumbers key mySeq < 0)
    (hend : 0 < compareSeqNumbers (addSequenceNumbers key raw.payloadSize) mySeq) :
    (subtractSequenceNumbers mySeq key).toNat ≤ raw.payload.length := by
  have hsize := payloadSize_le raw
  have hsum := addSequenceNumbers_cases key raw.payloadSize
  have hlt := compareSeqNumbers_lt_zero_iff.mp hlt
  have hend := compareSeqNumbers_pos_iff.mp hend
  have hcut := toNat_sub_cases mySeq key
  have hrest := toNat_sub_cases mySeq (addSequenceNumbers key raw.payloadSize)
  have hkey := key.toNat_lt
  have hmy := mySeq.toNat_lt
  rw [subtractSequenceNumbers_eq_sub]
  omega

/-- A stale segment that crosses the wrap and ends one byte before `my_seq`.
(The bound on its length is no restriction for a packet, which has less than
`2 ^ 16` bytes.) -/
def Overruns (mySeq seq : UInt32) (raw : RawPDU) : Prop :=
  4294967295 ≤ seq.toNat + raw.payload.length ∧ raw.payload.length < 2147483647 ∧
    mySeq = seq + raw.payloadSize + 1

instance (mySeq seq : UInt32) (raw : RawPDU) : Decidable (Overruns mySeq seq raw) :=
  inferInstanceAs (Decidable (_ ∧ _))

/-- The distance by which such a segment is sliced. -/
theorem overruns_iff {mySeq seq : UInt32} {raw : RawPDU} :
    Overruns mySeq seq raw ↔ 4294967295 ≤ seq.toNat + raw.payload.length ∧
      raw.payload.length < 2147483647 ∧ (mySeq - seq).toNat = raw.payload.length + 1 := by
  have hseq := seq.toNat_lt
  have hmy := mySeq.toNat_lt
  refine and_congr_right fun _ => and_congr_right fun hlen => ?_
  rw [← UInt32.toNat_inj, UInt32.toNat_sub, UInt32.toNat_add, UInt32.toNat_add,
    payloadSize_toNat (by omega)]
  simp only [UInt32.reduceToNat]
  omega

/-- A segment that overruns is not discarded as old: its end compares equal. -/
theorem Overruns.compare_eq {mySeq seq : UInt32} {raw : RawPDU} (h : Overruns mySeq seq raw) :
    compareSeqNumbers (addSequenceNumbers seq raw.payloadSize) mySeq = 0 := by
  obtain ⟨hwrap, hlen, rfl⟩ := h
  have hsize := payloadSize_toNat (show raw.payload.length < 4294967296 by omega)
  rw [compareSeqNumbers_eq_zero_iff]
  exact addSequenceNumbers_of_le (by omega) (by omega)

/-- The entry slice leaves the payload exactly for the segments that overrun. -/
theorem entrySegment_inRange_iff {mySeq seq : UInt32} {raw : RawPDU}
    (hend : 0 ≤ compareSeqNumbers (addSequenceNumbers seq raw.payloadSize) mySeq) :
    ErasesInRange (entrySegment mySeq seq raw).2.2 ↔ ¬ Overruns mySeq seq raw := by
  have hsize : raw.payloadSize.toNat = raw.payload.length % 4294967296 := UInt32.toNat_ofNat'
  have hsum := addSequenceNumbers_cases seq raw.payloadSize
  have hend := mt compareSeqNumbers_lt_zero_iff.mpr (not_lt.mpr hend)
  have hcut := toNat_sub_cases mySeq seq
  have hrest := toNat_sub_cases mySeq (addSequenceNumbers seq raw.payloadSize)
  have hseq := seq.toNat_lt
  have hmy := mySeq.toNat_lt
  rw [overruns_iff]
  unfold entrySegment
  by_cases hlt : compareSeqNumbers seq mySeq < 0
  · rw [if_pos hlt]
    have hlt := compareSeqNumbers_lt_zero_iff.mp hlt
    show ErasesInRange [.erase _ _] ↔ _
    rw [erasesInRange_erase, subtractSequenceNumbers_eq_sub]
    -- the sum wraps or does not
    rcases hsum with hsum | hsum
    · rcases hcut with hcut | hcut <;> omega
    · rcases hcut with hcut | hcut <;> omega
  · rw [if_neg hlt]
    have hlt := mt compareSeqNumbers_lt_zero_iff.mpr hlt
    constructor
    · intro _ hover
      omega
    · intro _
      exact erasesInRange_nil

/-! ### One call of `generic_process` -/

/-- The loop adds no erase that is out of range. -/
theorem drain_erasesInRange {d : Drain} (h : ErasesInRange d.mem) :
    ErasesInRange (drain d).mem := by
  refine drain_rule (fun d => ErasesInRange d.mem) ?_ ?_ ?_ h
  · intro d key raw h _ hlt hend
    have hcut := erasesInRange_erase.mpr (slice_inRange hlt hend)
    simp only [sliceFragment]
    rw [← List.singleton_append]
    exact erasesInRange_append.mpr
      ⟨h, erasesInRange_append.mpr ⟨hcut, safeInsert_erasesInRange _ _ _⟩⟩
  · exact fun d key raw h _ => erasesInRange_append.mpr ⟨h, erasesInRange_delete raw⟩
  · exact fun d raw h _ => erasesInRange_append.mpr ⟨h, erasesInRange_delete raw⟩

/-- The loop only appends to the log. -/
theorem drain_mem_prefix (d : Drain) : d.mem <+: (drain d).mem := by
  refine drain_rule (fun d' => d.mem <+: d'.mem) ?_ ?_ ?_ (List.prefix_refl _)
  · exact fun d₁ key raw h _ _ _ => h.trans (List.prefix_append _ _)
  · exact fun d₁ key raw h _ => h.trans (List.prefix_append _ _)
  · exact fun d₁ raw h _ => h.trans (List.prefix_append _ _)

/-- The segment of `tcp` overruns in a direction that expects `mySeq`. -/
def TCP.Overruns (tcp : TCP) (mySeq : UInt32) : Prop :=
  ∃ raw, tcp.innerPdu = some raw ∧ CLabs.Tcp.Overruns mySeq tcp.seq raw

theorem TCP.overruns_of_some (tcp : TCP) {mySeq : UInt32} {raw : RawPDU}
    (h : tcp.innerPdu = some raw) : tcp.Overruns mySeq ↔ CLabs.Tcp.Overruns mySeq tcp.seq raw := by
  rw [TCP.Overruns, h]
  constructor
  · intro ⟨raw', hraw', hover⟩
    rwa [Option.some.inj hraw']
  · exact fun hover => ⟨raw, rfl, hover⟩

/-- **One segment**, in any state of the direction. -/
theorem genericProcess_erasesInRange_iff (finSent : Bool) (my : Half) (tcp : TCP) :
    ErasesInRange (genericProcess finSent my tcp).mem ↔ ¬ tcp.Overruns my.seq := by
  rcases genericProcess_cases finSent my tcp with
    ⟨raw, d, hraw, hge, rfl, -, -, hmem⟩ | ⟨hbefore, -, -, hmem⟩
  · rw [hmem, tcp.overruns_of_some hraw, ← entrySegment_inRange_iff hge]
    constructor
    · intro h
      -- what the entry slice logged is still in the log after the loop
      obtain ⟨rest, hrest⟩ := drain_mem_prefix (startDrain my tcp.seq raw)
      rw [← hrest] at h
      exact (erasesInRange_append.mp (erasesInRange_append.mp h).1).1
    · intro h
      exact drain_erasesInRange (d := startDrain my tcp.seq raw)
        (erasesInRange_append.mpr ⟨h, safeInsert_erasesInRange _ _ _⟩)
  · -- a dropped segment is not sliced, and none that overruns is dropped
    refine iff_of_true ?_ ?_
    · rw [hmem]
      cases tcp.innerPdu with
      | none => exact erasesInRange_nil
      | some raw => exact erasesInRange_delete raw
    · intro ⟨raw, hraw, hover⟩
      exact absurd hover.compare_eq (hbefore raw hraw).ne

/-! ### Runs of `update` and `cap` -/

/-- A call on a stream. -/
inductive Call
  | update (ip : IP) (tcp : TCP)
  | cap (ip : IP) (tcp : TCP)
  deriving Repr, DecidableEq

/-- The stream after a call, and the memory operations of the call. -/
def Call.exec (s : TCPCapStream) : Call → TCPCapStream × List MemOp
  | update ip tcp => ((s.update ip tcp).1, (s.update ip tcp).2.2)
  | cap ip tcp => s.cap ip tcp

/-- The call is an `update` of an established stream, and its segment overruns in
the direction of its sender. -/
def Call.Overruns (s : TCPCapStream) : Call → Prop
  | update ip tcp => s.synAckSent = true ∧ tcp.Overruns (s.half (s.sideOf ip tcp)).seq
  | cap _ _ => False

theorem freeFragments_erasesInRange (frags : OrdMap UInt32 RawPDU) :
    ErasesInRange (TCPCapStream.freeFragments frags).2 := by
  intro count size h
  simp [TCPCapStream.freeFragments] at h

/-- **One call**, on any stream. -/
theorem Call.exec_erasesInRange_iff (s : TCPCapStream) (call : Call) :
    ErasesInRange (call.exec s).2 ↔ ¬ call.Overruns s := by
  cases call with
  | update ip tcp =>
      show ErasesInRange (s.update ip tcp).2.2 ↔ ¬ (_ ∧ _)
      cases hack : s.synAckSent with
      | false =>
          rw [TCPCapStream.update_opening hack]
          simp [erasesInRange_nil]
      | true =>
          rw [TCPCapStream.update_established hack]
          simpa using genericProcess_erasesInRange_iff s.finSent (s.half (s.sideOf ip tcp)) tcp
  | cap ip tcp =>
      show ErasesInRange (s.cap ip tcp).2 ↔ ¬ False
      rw [TCPCapStream.cap_eq]
      simpa using freeFragments_erasesInRange _

/-- **When slicing stays inside the payloads.** From any stream, whatever its
sequence numbers, over any run of `update` and `cap`: all erases are in range
exactly when no call of the run overruns in the state it is made in. -/
theorem erases_inRange_iff (s : TCPCapStream) (calls : List Call) :
    ErasesInRange (run Call.exec s calls).2 ↔
      ∀ past call rest, calls = past ++ call :: rest →
        ¬ call.Overruns (run Call.exec s past).1 := by
  constructor
  · intro h past call rest hsplit
    rw [hsplit, run_append, run_cons] at h
    have hstep := (erasesInRange_append.mp (erasesInRange_append.mp h).2).1
    exact (Call.exec_erasesInRange_iff _ call).mp hstep
  · intro h
    -- the calls made so far never overran, so neither did their log
    have hlog : ∀ past rest, calls = past ++ rest → ErasesInRange (run Call.exec s past).2 := by
      intro past
      induction past using List.reverseRecOn with
      | nil => intro _ _; exact erasesInRange_nil
      | append_singleton past call ih =>
          intro rest hsplit
          have hsplit' : calls = past ++ call :: rest := by rw [hsplit]; simp
          rw [run_snoc]
          exact erasesInRange_append.mpr ⟨ih _ hsplit',
            (Call.exec_erasesInRange_iff _ call).mpr (h past call rest hsplit')⟩
    exact hlog calls [] (by simp)

/-- The handshake leaves the client at `my_seq = 1`; sixteen old bytes that end at
`2 ^ 32` are then sliced by seventeen. -/
theorem erases_out_of_range :
    ¬ ErasesInRange (run Call.exec
      (.new ⟨1, 2⟩ ⟨5000, 80, 0, 0, 0x02, none⟩ 0)
      [.update ⟨2, 1⟩ ⟨80, 5000, 7, 1, 0x12, none⟩,
        .update ⟨1, 2⟩ ⟨5000, 80, 4294967280, 8, 0x10, some ⟨0, List.replicate 16 0⟩⟩]).2 := by
  intro h
  exact absurd (h 17 16 (by decide)) (by decide)

end CLabs.Tcp
