import CLabs.Tcp.Follower

/-!
# CLabs.Tcp.InOrder

The common case of reassembly: a client that sends without loss or reordering, so that
each segment starts at `my_seq` and nothing is ever pending. Each of them is then handed
to `data_fun` by itself. There is no bound on how much is sent, so the sequence numbers
may wrap; `add_sequence_numbers` is off by one there, which makes no difference to a
segment that starts at `my_seq` (`genericProcess_inOrder`).
-/

namespace CLabs.Tcp

open CLabs.Lib

/-! ### One segment -/

/-- The loop starts with the segment as the only fragment. -/
theorem startDrain_inOrder (seq : UInt32) (payload : List UInt8) (raw : RawPDU) :
    startDrain ⟨seq, payload, ∅⟩ seq raw =
      ⟨seq, payload, OrdMap.insert ∅ seq raw, some seq, false, []⟩ := by
  have hentry : entrySegment seq seq raw = (seq, raw, []) := by
    unfold entrySegment
    rw [if_neg]
    rw [compareSeqNumbers_self]
    exact lt_irrefl _
  have hinsert : safeInsert ∅ seq raw = (OrdMap.insert ∅ seq raw, []) := by
    unfold safeInsert
    rw [OrdMap.find?_empty]
  unfold startDrain
  dsimp only
  rw [hentry]
  dsimp only
  rw [hinsert]
  dsimp only
  rw [if_pos (OrdMap.mem_insert.mpr (Or.inl rfl))]
  rfl

/-- And takes it in its only round. -/
theorem drain_inOrder (seq : UInt32) (payload : List UInt8) (raw : RawPDU) :
    drain ⟨seq, payload, OrdMap.insert ∅ seq raw, some seq, false, []⟩ =
      ⟨seq + raw.payloadSize, payload ++ raw.payload, ∅, none, true, [.delete raw]⟩ := by
  have hempty : (OrdMap.insert ∅ seq raw).erase seq = ∅ := by
    refine OrdMap.ext fun key => ?_
    rw [OrdMap.find?_erase, OrdMap.find?_insert, OrdMap.find?_empty]
    split_ifs <;> rfl
  have hnext : (OrdMap.insert (∅ : OrdMap UInt32 RawPDU) seq raw).next seq = none := by
    refine Option.eq_none_iff_forall_ne_some.mpr fun key hkey => ?_
    obtain ⟨hmem, hlt⟩ := OrdMap.next_mem hkey
    rcases OrdMap.mem_insert.mp hmem with rfl | hmem
    · exact absurd hlt (lt_irrefl _)
    · rw [OrdMap.mem_iff] at hmem
      exact absurd hmem (by simp)
  apply whileLoop_of_done
  rw [drainBody_take rfl (OrdMap.find?_insert_self _ _ _)]
  unfold takeFragment eraseIterator
  dsimp only
  rw [hnext]
  dsimp only
  rw [hempty]
  rfl

/-- A segment at `my_seq` with nothing pending is passed on at once. -/
theorem genericProcess_inOrder (finSent : Bool) {seq : UInt32} (payload : List UInt8) {tcp : TCP}
    {raw : RawPDU} (hseq : tcp.seq = seq) (hraw : tcp.innerPdu = some raw)
    (hsize : raw.payload.length ≤ 65535) :
    (genericProcess finSent ⟨seq, payload, ∅⟩ tcp).half =
        ⟨seq + raw.payloadSize, payload ++ raw.payload, ∅⟩ ∧
      (genericProcess finSent ⟨seq, payload, ∅⟩ tcp).addedSome = true := by
  have hlen := payloadSize_toNat (show raw.payload.length < 4294967296 by omega)
  have hend : compareSeqNumbers (addSequenceNumbers seq raw.payloadSize) seq ≥ 0 := by
    rw [ge_iff_le, ← not_lt, compareSeqNumbers_lt_zero_iff]
    have hseq_lt := seq.toNat_lt
    have hsub := toNat_sub_cases seq (addSequenceNumbers seq raw.payloadSize)
    have hadd := addSequenceNumbers_cases seq raw.payloadSize
    omega
  unfold genericProcess
  rw [hraw, hseq]
  dsimp only
  rw [if_pos hend, startDrain_inOrder, drain_inOrder]
  exact ⟨rfl, rfl⟩

/-! ### One packet of the client -/

/-- A segment of the client at `seq`, with the bytes `bytes`. -/
def PDU.Sends (info : StreamInfo) (seq : UInt32) (bytes : List UInt8) (pdu : PDU) : Prop :=
  ∃ ip tcp raw, pdu = ⟨some ip, some tcp⟩ ∧ packetInfo ip tcp = info ∧
    tcp.getFlag .FIN = false ∧ tcp.getFlag .RST = false ∧ tcp.seq = seq ∧
    tcp.innerPdu = some raw ∧ raw.payload = bytes ∧ bytes ≠ [] ∧ bytes.length ≤ 65535

theorem PDU.Sends.ne_nil {info : StreamInfo} {seq : UInt32} {bytes : List UInt8} {pdu : PDU}
    (h : pdu.Sends info seq bytes) : bytes ≠ [] := by
  obtain ⟨-, -, -, -, -, -, -, -, -, -, hne, -⟩ := h
  exact hne

/-- The connection is established, nothing is pending, and the client's next byte is
expected at `seq`. -/
structure Follower.Expects (f : Follower) (info : StreamInfo) (seq : UInt32) : Prop where
  wf : f.WF
  session : ∃ s, f.sessions.find? info.swap = some s ∧ s.synAckSent = true ∧
    s.client = ⟨seq, [], ∅⟩ ∧ s.server.payload = []

/-- The packet causes one call of `data_fun`, with its bytes. -/
theorem Follower.Expects.step {f : Follower} {info : StreamInfo} {seq : UInt32}
    {bytes : List UInt8} {pdu : PDU} (h : f.Expects info seq) (hpdu : pdu.Sends info seq bytes) :
    ∃ shown : TCPCapStream, (f.step pdu).2 = [.data shown] ∧ shown.info = info ∧
      shown.client.payload = bytes ∧ shown.server.payload = [] ∧
      (f.step pdu).1.Expects info (seq + UInt32.ofNat bytes.length) := by
  obtain ⟨s, hs, hack, hclient, hserver⟩ := h.session
  obtain ⟨ip, tcp, raw, rfl, hinfo, hfin, hrst, hseq, hraw, rfl, -, hsize⟩ := hpdu
  have hsinfo : s.info = info := h.wf.info_eq _ s hs
  have hlive := h.wf.live _ s hs
  have hside : s.sideOf ip tcp = .client := by
    rw [TCPCapStream.sideOf, if_pos]
    rw [TCPCapStream.fromClient, hsinfo, ← hinfo]
    simp [packetInfo]
  have hreceive : s.receive ip tcp =
      (s.setHalf .client ⟨seq + raw.payloadSize, [], ∅⟩,
        [.data (s.setHalf .client ⟨seq + raw.payloadSize, raw.payload, ∅⟩)]) := by
    have hhalf : s.half .client = ⟨seq, [], ∅⟩ := hclient
    obtain ⟨hprocessed, hadded⟩ :=
      genericProcess_inOrder s.finSent [] hseq hraw hsize
    rw [TCPCapStream.receive_open hack hlive ⟨hfin, hrst⟩, hside, hhalf, hprocessed, hadded]
    rfl
  have hwf := h.wf.step ⟨some ip, some tcp⟩
  have hends : s.info.sameEnds (packetInfo ip tcp) = true :=
    StreamInfo.sameEnds_iff.mpr (Or.inl (hinfo.trans hsinfo.symm))
  rw [h.wf.step_own hs hends, hreceive] at hwf ⊢
  refine ⟨_, rfl, hsinfo, rfl, hserver, hwf,
    s.setHalf .client ⟨seq + raw.payloadSize, [], ∅⟩, ?_, hack, rfl, hserver⟩
  rw [Follower.find?_store, if_pos rfl]
  exact if_neg (by simp [hlive])

/-! ### A whole stream -/

/-- The packets carry the segments of `cut` one after the other, from `seq` on. -/
def InOrder (info : StreamInfo) : UInt32 → List PDU → List (List UInt8) → Prop
  | _, [], [] => True
  | seq, pdu :: pdus, bytes :: cut =>
      pdu.Sends info seq bytes ∧ InOrder info (seq + UInt32.ofNat bytes.length) pdus cut
  | _, _, _ => False

section

variable {info : StreamInfo} {seq : UInt32} {pdus : List PDU}

theorem inOrder_nil_iff : InOrder info seq pdus [] ↔ pdus = [] := by
  cases pdus with
  | nil => exact iff_of_true trivial rfl
  | cons pdu pdus => exact iff_of_false id (List.cons_ne_nil pdu pdus)

/-- The first packet carries the first segment. -/
theorem inOrder_cons_iff {bytes : List UInt8} {cut : List (List UInt8)} :
    InOrder info seq pdus (bytes :: cut) ↔
      ∃ pdu rest, pdus = pdu :: rest ∧ pdu.Sends info seq bytes ∧
        InOrder info (seq + UInt32.ofNat bytes.length) rest cut := by
  cases pdus with
  | nil => simp [InOrder]
  | cons pdu pdus => simp [InOrder]

end

end CLabs.Tcp
