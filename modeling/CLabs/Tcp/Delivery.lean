import CLabs.Tcp.Follower
import CLabs.Tcp.Reassembly

/-!
# CLabs.Tcp.Delivery

**What `data_fun` is shown of a direction.** `Reassembly` is about successive calls of
`generic_process`. The follower calls `cap` after each of them that reports new data,
and `cap` drops the sender's payload together with its pending fragments. This module
follows one direction of one connection through whole runs of the follower, whatever
else is on the network.

* `follow_delivers_prefix`: the bytes shown so far are always the first
  `my_seq - s0` bytes that were sent.
* `follow_delivers_all`: they are all of them once all have been captured, provided
  that no segment that reached `my_seq` left a gap before a pending fragment
  (`Gapless`). The proviso is needed: `freed_fragment_is_lost` is a run in which
  a fragment behind a gap is freed by `cap`, and `Capped.drops` says that this
  happens at every segment that does not meet it.
-/

namespace CLabs.Tcp

open CLabs.Lib

/-! ### A direction of a connection -/

/-- The direction of a segment, by the test of `update` and `cap`. -/
def StreamInfo.senderSide (info : StreamInfo) (ip : IP) (tcp : TCP) : Side :=
  if ip.srcAddr == info.clientAddr && tcp.sport == info.clientPort then .client else .server

theorem sideOf_eq_senderSide (s : TCPCapStream) (ip : IP) (tcp : TCP) :
    s.sideOf ip tcp = s.info.senderSide ip tcp := rfl

/-- The segment, if it belongs to the direction `side` of the connection. -/
def PDU.segment (info : StreamInfo) (side : Side) (pdu : PDU) : Option TCP :=
  match pdu.ip, pdu.tcp with
  | some ip, some tcp =>
      if info.sameEnds (packetInfo ip tcp) && info.senderSide ip tcp == side then some tcp
      else none
  | _, _ => none

/-- The segments of a direction, in the order captured. -/
def segments (info : StreamInfo) (side : Side) (pdus : List PDU) : List TCP :=
  pdus.filterMap (PDU.segment info side)

/-- The bytes of a direction that successive calls of `data_fun` show. -/
def delivered (info : StreamInfo) (side : Side) (events : List Event) : List UInt8 :=
  events.flatMap fun e =>
    match e with
    | .data s => if s.info = info then (s.half side).payload else []
    | .fin _ => []

/-- A packet of a run in which the direction transfers `S` from sequence number `s0`
on: its own segments are slices of `S` in their place, and neither end closes the
connection. About packets of other connections nothing is said. -/
structure Transfers (info : StreamInfo) (side : Side) (s0 : UInt32) (S : List UInt8)
    (pdu : PDU) : Prop where
  keepsOpen : ∀ ip tcp, pdu = ⟨some ip, some tcp⟩ → info.sameEnds (packetInfo ip tcp) = true →
    tcp.getFlag .FIN = false ∧ tcp.getFlag .RST = false
  isSegment : ∀ tcp, pdu.segment info side = some tcp → SegmentOf s0 S tcp

/-- The connection is established and the direction expects `s0`, with nothing received
yet. -/
def Follower.Ready (f : Follower) (info : StreamInfo) (side : Side) (s0 : UInt32) : Prop :=
  ∃ s, f.sessions.find? info.swap = some s ∧ s.synAckSent = true ∧ s.half side = ⟨s0, [], ∅⟩

/-- The segment reaches `my_seq` without a gap. -/
def Reaches (my : Half) (tcp : TCP) : Prop :=
  ∃ raw, tcp.innerPdu = some raw ∧ tcp.seq.toNat ≤ my.seq.toNat ∧
    my.seq.toNat ≤ tcp.seq.toNat + raw.payload.length

/-- If the segment reaches `my_seq`, it closes every gap before a pending byte. -/
def Gapless (my : Half) (tcp : TCP) : Prop :=
  Reaches my tcp → ∀ q ∈ held my.frags, ∀ p, my.seq.toNat ≤ p → p ≤ q →
    p ∈ tcp.extent ∪ held my.frags

/-- `Gapless` for a packet and the entry of the connection. -/
def Follower.GaplessAt (f : Follower) (info : StreamInfo) (side : Side) (pdu : PDU) : Prop :=
  ∀ s tcp, f.sessions.find? info.swap = some s → pdu.segment info side = some tcp →
    Gapless (s.half side) tcp

section

variable {info : StreamInfo} {side : Side}

theorem delivered_append (events events' : List Event) :
    delivered info side (events ++ events') =
      delivered info side events ++ delivered info side events' :=
  List.flatMap_append

/-- Calls for other streams do not count. -/
theorem delivered_eq_nil {events : List Event} (h : ∀ e ∈ events, e.stream.info ≠ info) :
    delivered info side events = [] := by
  refine List.flatMap_eq_nil_iff.mpr fun e he => ?_
  cases e with
  | data s => exact if_neg (h _ he)
  | fin s => rfl

theorem segment_eq_some {ip : IP} {tcp : TCP}
    (hends : info.sameEnds (packetInfo ip tcp) = true) (hside : info.senderSide ip tcp = side) :
    PDU.segment info side ⟨some ip, some tcp⟩ = some tcp := by
  simp [PDU.segment, hends, hside]

theorem segment_eq_none_of_side {ip : IP} {tcp : TCP} (hside : info.senderSide ip tcp ≠ side) :
    PDU.segment info side ⟨some ip, some tcp⟩ = none := by
  simp [PDU.segment, hside]

theorem segment_eq_none_of_foreign {pdu : PDU} (hpdu : pdu.isBetween info = false) :
    pdu.segment info side = none := by
  obtain ⟨_ | ip, _ | tcp⟩ := pdu
  · rfl
  · rfl
  · rfl
  · have hends : info.sameEnds (packetInfo ip tcp) = false := hpdu
    simp [PDU.segment, hends]

end

/-! ### One segment -/

section

variable {s0 : UInt32} {S : List UInt8} {R : Set ℕ} {my : Half} {tcp : TCP}

/-- After `cap` the positions received are those passed on. -/
theorem Reassembled.capped {pre : List UInt8} {base : ℕ}
    (h : Reassembled s0 S pre base R my) :
    Reassembled s0 S [] (my.seq.toNat - s0.toNat) (Set.Ico s0.toNat my.seq.toNat)
      ⟨my.seq, [], ∅⟩ := by
  have hbase := h.base_le
  have hle := h.seq_le
  refine ⟨⟨by dsimp only; omega, hle, ?_, ?_, ?_⟩, ?_⟩
  · rw [slice_self, List.append_nil]
  · intro key raw hfind
    simp at hfind
  · rw [held_empty, Set.union_empty]
  · intro key hkey
    rw [OrdMap.mem_iff] at hkey
    simp at hkey

/-- A direction between two packets: what it has passed on is forgotten, what is
pending lies after a gap. -/
def Capped (s0 : UInt32) (S : List UInt8) (R : Set ℕ) (my : Half) : Prop :=
  Reassembled s0 S [] (my.seq.toNat - s0.toNat) R my

theorem Capped.payload_eq (h : Capped s0 S R my) : my.payload = [] := by
  rw [Reassembly.payload_eq h.toReassembly, slice_self, List.append_nil]

/-- A segment that reaches `my_seq` and closes all gaps leaves nothing pending. -/
theorem Capped.held_eq_empty (hw : Window s0 S) (h : Capped s0 S R my) (htcp : SegmentOf s0 S tcp)
    (finSent : Bool) (hreach : Reaches my tcp) (hgap : Gapless my tcp) :
    held (genericProcess finSent my tcp).half.frags = ∅ := by
  have hstep := genericProcess_reassembled hw h finSent (htcp.isSlice hw)
  have hmono := hstep.base_le
  have hstart := h.inWindow.1
  generalize genericProcess finSent my tcp = p at hstep hmono
  refine Set.eq_empty_iff_forall_notMem.mpr fun q hq => hstep.not_mem ?_
  -- `q` lies after the new `my_seq`, so all before `q` being received includes `my_seq`
  have hqR : q ∈ R ∪ tcp.extent := by
    rw [← hstep.received]
    exact Or.inr hq
  obtain ⟨key, raw, hfind, hkq⟩ := hq
  have hafter := UInt32.lt_iff_toNat_lt.mp (hstep.after key (OrdMap.mem_iff_exists.mpr ⟨raw, hfind⟩))
  have hlt : p.half.seq.toNat < q := lt_of_lt_of_le hafter hkq.1
  rw [← h.received] at hqR ⊢
  rcases hqR with (hq | hq) | hq
  · exact absurd hq.2 (by omega)
  · rcases hgap hreach q hq p.half.seq.toNat (by omega) hlt.le with hp | hp
    · exact Or.inr hp
    · exact Or.inl (Or.inr hp)
  · obtain ⟨seg, hseg, hle, -⟩ := hreach
    simp only [TCP.extent, hseg] at hq ⊢
    exact Or.inr ⟨by omega, lt_trans hlt hq.2⟩

/-- What a segment and the `cap` after it do to a direction. -/
theorem Capped.process (hw : Window s0 S) (h : Capped s0 S R my) (htcp : SegmentOf s0 S tcp)
    (finSent : Bool) :
    ∃ R', Capped s0 S R' (if (genericProcess finSent my tcp).addedSome then
          ⟨(genericProcess finSent my tcp).half.seq, [], ∅⟩
        else (genericProcess finSent my tcp).half) ∧
      (Gapless my tcp → R' = R ∪ tcp.extent) ∧
      my.seq.toNat ≤ (genericProcess finSent my tcp).half.seq.toNat ∧
      (genericProcess finSent my tcp).half.payload =
        slice S (my.seq.toNat - s0.toNat)
          ((genericProcess finSent my tcp).half.seq.toNat - s0.toNat) := by
  have hstep := genericProcess_reassembled hw h finSent (htcp.isSlice hw)
  have hmono := hstep.base_le
  have hstart := h.inWindow.1
  have hpayload : (genericProcess finSent my tcp).half.payload = _ := hstep.payload_eq
  rw [List.nil_append] at hpayload
  by_cases hadd : (genericProcess finSent my tcp).addedSome = true
  · rw [if_pos hadd]
    refine ⟨_, hstep.capped, ?_, by omega, hpayload⟩
    intro hgap
    have hempty := h.held_eq_empty hw htcp finSent
      (genericProcess_addedSome hw h (htcp.isSlice hw) hadd) hgap
    rw [← hstep.received, hempty, Set.union_empty]
  · rw [if_neg hadd]
    refine ⟨R ∪ tcp.extent, ?_, fun _ => rfl, by omega, hpayload⟩
    have hseq := (genericProcess_unchanged (Bool.not_eq_true _ ▸ hadd)).1
    unfold Capped
    rw [hseq]
    exact hstep

/-- At every segment that leaves a gap before a pending byte the flag goes up, so that
`cap` follows, and that byte is not among those passed on. -/
theorem Capped.drops (hw : Window s0 S) (h : Capped s0 S R my) (htcp : SegmentOf s0 S tcp)
    (finSent : Bool) (hgap : ¬ Gapless my tcp) :
    (genericProcess finSent my tcp).addedSome = true ∧
      ∃ q ∈ held my.frags, (genericProcess finSent my tcp).half.seq.toNat ≤ q := by
  simp only [Gapless, not_forall] at hgap
  obtain ⟨⟨raw, hraw, hle, hend⟩, q, hq, p, hmy, hpq, hp⟩ := hgap
  refine ⟨genericProcess_addedSome_of_le hw h hraw (htcp.isSlice hw raw hraw) hle hend, q, hq, ?_⟩
  have hstep := genericProcess_reassembled hw h finSent (htcp.isSlice hw)
  by_contra hlt
  -- a position that was passed on had been received
  have hpR : p ∈ R ∪ tcp.extent := by
    rw [← hstep.received]
    exact Or.inl ⟨le_trans h.inWindow.1 hmy, by omega⟩
  rw [← h.received] at hpR
  rcases hpR with (hpR | hpR) | hpR
  · exact absurd hpR.2 (not_lt.mpr hmy)
  · exact hp (Or.inr hpR)
  · exact hp (Or.inl hpR)

end

/-! ### One packet of the connection -/

/-- An established stream whose direction `side` has received the positions `R`. -/
structure Delivering (s0 : UInt32) (S : List UInt8) (side : Side) (R : Set ℕ)
    (s : TCPCapStream) : Prop where
  synAckSent : s.synAckSent = true
  finSent : s.finSent = false
  capped : Capped s0 S R (s.half side)

section

variable {s0 : UInt32} {S : List UInt8} {R : Set ℕ} {side : Side} {s : TCPCapStream}
  {ip : IP} {tcp : TCP}

/-- A segment of the direction: the calls show the bytes by which `my_seq` moves on. -/
theorem Delivering.receive_own (hw : Window s0 S) (h : Delivering s0 S side R s)
    (hopen : tcp.getFlag .FIN = false ∧ tcp.getFlag .RST = false)
    (hside : s.sideOf ip tcp = side) (htcp : SegmentOf s0 S tcp) :
    ∃ R', Delivering s0 S side R' (s.receive ip tcp).1 ∧
      (Gapless (s.half side) tcp → R' = R ∪ tcp.extent) ∧
      (s.half side).seq.toNat ≤ ((s.receive ip tcp).1.half side).seq.toNat ∧
      delivered s.info side (s.receive ip tcp).2 =
        slice S ((s.half side).seq.toNat - s0.toNat)
          (((s.receive ip tcp).1.half side).seq.toNat - s0.toNat) := by
  subst hside
  obtain ⟨R', hcapped, hR', hmono, hpayload⟩ := h.capped.process hw htcp s.finSent
  rw [TCPCapStream.receive_open h.synAckSent h.finSent hopen]
  dsimp only
  have hunchanged := @genericProcess_unchanged s.finSent (s.half (s.sideOf ip tcp)) tcp
  generalize genericProcess s.finSent (s.half (s.sideOf ip tcp)) tcp = p at *
  have hseq : (if p.addedSome then (⟨p.half.seq, [], ∅⟩ : Half) else p.half).seq = p.half.seq := by
    split_ifs <;> rfl
  rw [TCPCapStream.half_setHalf, hseq]
  refine ⟨R', ⟨by simp [h.synAckSent], by simp [h.finSent], by simpa using hcapped⟩, hR', hmono, ?_⟩
  rw [← hpayload]
  by_cases hadd : p.addedSome = true
  · simp [delivered, hadd]
  · rw [if_neg hadd, (hunchanged (Bool.not_eq_true _ ▸ hadd)).2, h.capped.payload_eq]
    rfl

/-- A segment of the other direction: the calls show nothing of this one. -/
theorem Delivering.receive_other (h : Delivering s0 S side R s)
    (hopen : tcp.getFlag .FIN = false ∧ tcp.getFlag .RST = false)
    (hside : s.sideOf ip tcp ≠ side) :
    Delivering s0 S side R (s.receive ip tcp).1 ∧
      (s.receive ip tcp).1.half side = s.half side ∧
      delivered s.info side (s.receive ip tcp).2 = [] := by
  rw [TCPCapStream.receive_open h.synAckSent h.finSent hopen]
  dsimp only
  generalize genericProcess s.finSent (s.half (s.sideOf ip tcp)) tcp = p
  have hhalf : ∀ g : Half, (s.setHalf (s.sideOf ip tcp) g).half side = s.half side :=
    fun g => s.half_setHalf_of_ne g hside.symm
  refine ⟨⟨by simp [h.synAckSent], by simp [h.finSent], by rw [hhalf]; exact h.capped⟩, hhalf _, ?_⟩
  split_ifs
  · simp [delivered, hhalf, h.capped.payload_eq]
  · rfl

end

/-! ### Whole runs -/

/-- The follower has received the positions `R` of the direction, and shown `out`. -/
structure Follower.Delivers (f : Follower) (info : StreamInfo) (side : Side) (s0 : UInt32)
    (S : List UInt8) (R : Set ℕ) (out : List UInt8) : Prop where
  wf : f.WF
  session : ∃ s, f.sessions.find? info.swap = some s ∧ Delivering s0 S side R s ∧
    out = slice S 0 ((s.half side).seq.toNat - s0.toNat)

section

variable {info : StreamInfo} {side : Side} {s0 : UInt32} {S : List UInt8} {R : Set ℕ}
  {out : List UInt8} {f : Follower} {pdu : PDU}

theorem Follower.Ready.delivers (hwf : f.WF) (h : f.Ready info side s0) :
    f.Delivers info side s0 S ∅ [] := by
  obtain ⟨s, hs, hack, hhalf⟩ := h
  refine ⟨hwf, s, hs, ⟨hack, hwf.live _ s hs, ?_⟩, ?_⟩
  · rw [hhalf]
    refine ⟨⟨?_, ?_, ?_, ?_, ?_⟩, ?_⟩
    · dsimp only; omega
    · dsimp only; omega
    · rw [slice_self, List.append_nil]
    · intro key raw hfind
      simp at hfind
    · rw [Set.Ico_self, held_empty, Set.union_empty]
    · intro key hkey
      rw [OrdMap.mem_iff] at hkey
      simp at hkey
  · rw [hhalf, Nat.sub_self, slice_self]

theorem extents_append (tcps tcps' : List TCP) :
    extents (tcps ++ tcps') = extents tcps ∪ extents tcps' := by
  ext p
  simp only [extents, Set.mem_ofPred_eq, List.mem_append, Set.mem_union, or_and_right, exists_or]

/-- A packet of another connection changes nothing. -/
theorem Follower.Delivers.step_foreign (h : f.Delivers info side s0 S R out)
    (hforeign : pdu.isBetween info = false) :
    (f.step pdu).1.Delivers info side s0 S R (out ++ delivered info side (f.step pdu).2) := by
  obtain ⟨s, hs, hdel, hout⟩ := h.session
  obtain ⟨hfind, hevents⟩ := h.wf.step_foreign hforeign
  have hnone : delivered info side (f.step pdu).2 = [] := by
    refine delivered_eq_nil fun e he heq => ?_
    have := hevents e he
    rw [heq, StreamInfo.sameEnds_iff.mpr (Or.inl rfl)] at this
    exact absurd this (by decide)
  refine ⟨h.wf.step pdu, s, ?_, hdel, ?_⟩
  · rw [hfind _ (StreamInfo.sameEnds_iff.mpr (Or.inr rfl)), hs]
  · rw [hnone, List.append_nil, hout]

/-- A packet of the connection, in either direction. -/
theorem Follower.Delivers.step_own (hw : Window s0 S) (h : f.Delivers info side s0 S R out)
    {ip : IP} {tcp : TCP} (hpdu : Transfers info side s0 S ⟨some ip, some tcp⟩)
    (hends : info.sameEnds (packetInfo ip tcp) = true) :
    ∃ R', (f.step ⟨some ip, some tcp⟩).1.Delivers info side s0 S R'
        (out ++ delivered info side (f.step ⟨some ip, some tcp⟩).2) ∧
      (f.GaplessAt info side ⟨some ip, some tcp⟩ →
        R' = R ∪ extents (segments info side [⟨some ip, some tcp⟩])) := by
  obtain ⟨s, hs, hdel, hout⟩ := h.session
  have hinfo : s.info = info := h.wf.info_eq _ s hs
  have hopen := hpdu.keepsOpen ip tcp rfl hends
  have hwf := h.wf.step ⟨some ip, some tcp⟩
  have hstep := h.wf.step_own hs (hinfo.symm ▸ hends)
  rw [hstep] at hwf ⊢
  -- the session stays in the table
  have hfind : ∀ {R'}, Delivering s0 S side R' (s.receive ip tcp).1 →
      (f.store info.swap (s.receive ip tcp).1).sessions.find? info.swap =
        some (s.receive ip tcp).1 := by
    intro R' hdel'
    rw [Follower.find?_store, if_pos rfl, hdel'.finSent]
    rfl
  by_cases hside : s.sideOf ip tcp = side
  · have hseg : PDU.segment info side ⟨some ip, some tcp⟩ = some tcp :=
      segment_eq_some hends (by rwa [← hinfo, ← sideOf_eq_senderSide])
    obtain ⟨R', hdel', hR', hmono, hshown⟩ :=
      hdel.receive_own hw hopen hside (hpdu.isSegment tcp hseg)
    refine ⟨R', ⟨hwf, _, hfind hdel', hdel', ?_⟩, fun hgap => ?_⟩
    · rw [hinfo] at hshown
      rw [hout, hshown, slice_append_slice _ (Nat.zero_le _) (Nat.sub_le_sub_right hmono _)]
    · rw [hR' (hgap s tcp hs hseg)]
      simp [segments, hseg, extents]
  · have hseg : PDU.segment info side ⟨some ip, some tcp⟩ = none :=
      segment_eq_none_of_side (by rwa [← hinfo, ← sideOf_eq_senderSide])
    obtain ⟨hdel', hhalf, hshown⟩ := hdel.receive_other hopen hside
    refine ⟨R, ⟨hwf, _, hfind hdel', hdel', ?_⟩, fun _ => ?_⟩
    · rw [hinfo] at hshown
      rw [hout, hshown, List.append_nil, hhalf]
    · simp [segments, hseg, extents]

/-- The step lemma. -/
theorem Follower.Delivers.step (hw : Window s0 S) (h : f.Delivers info side s0 S R out)
    (hpdu : Transfers info side s0 S pdu) :
    ∃ R', (f.step pdu).1.Delivers info side s0 S R'
        (out ++ delivered info side (f.step pdu).2) ∧
      (f.GaplessAt info side pdu → R' = R ∪ extents (segments info side [pdu])) := by
  by_cases hown : pdu.isBetween info = true
  · obtain ⟨ip, tcp, rfl, hends⟩ := PDU.eq_of_isBetween hown
    exact h.step_own hw hpdu hends
  · rw [Bool.not_eq_true] at hown
    refine ⟨R, h.step_foreign hown, fun _ => ?_⟩
    simp [segments, segment_eq_none_of_foreign hown, extents]

/-- The run lemma. -/
theorem Follower.Delivers.follow (hw : Window s0 S) (h : f.Delivers info side s0 S R out)
    {pdus : List PDU} (hpdus : ∀ pdu ∈ pdus, Transfers info side s0 S pdu) :
    ∃ R', (f.follow pdus).1.Delivers info side s0 S R'
        (out ++ delivered info side (f.follow pdus).2) ∧
      ((∀ before pdu after, pdus = before ++ pdu :: after →
          (f.follow before).1.GaplessAt info side pdu) →
        R' = R ∪ extents (segments info side pdus)) := by
  induction pdus using List.reverseRecOn with
  | nil =>
      refine ⟨R, ?_, fun _ => ?_⟩
      · show f.Delivers info side s0 S R (out ++ [])
        rwa [List.append_nil]
      · simp [segments, extents]
  | append_singleton pdus pdu ih =>
      obtain ⟨R', hrun, hR'⟩ := ih fun pdu' hmem => hpdus pdu' (List.mem_append_left _ hmem)
      obtain ⟨R'', hstep, hR''⟩ := hrun.step hw
        (hpdus pdu (List.mem_append_right _ (List.mem_singleton.mpr rfl)))
      rw [Follower.follow_snoc, delivered_append, ← List.append_assoc]
      refine ⟨R'', hstep, fun hgap => ?_⟩
      have hbefore := hR' fun before pdu' after hsplit =>
        hgap before pdu' (after ++ [pdu]) (by rw [hsplit]; simp)
      rw [hR'' (hgap pdus pdu [] rfl), hbefore, Set.union_assoc, ← extents_append]
      simp [segments]

end

/-! ### From the handshake on -/

/-- Until the handshake is over nothing is stored. -/
structure Follower.OpeningEmpty (f : Follower) : Prop where
  wf : f.WF
  empty : ∀ key s, f.sessions.find? key = some s → s.synAckSent = false →
    ∀ side, (s.half side).payload = [] ∧ (s.half side).frags = ∅

theorem Follower.OpeningEmpty.step {f : Follower} (h : f.OpeningEmpty) (pdu : PDU) :
    (f.step pdu).1.OpeningEmpty := by
  refine ⟨h.wf.step pdu, ?_⟩
  obtain ⟨-, heq⟩ | ⟨ip, tcp, key, s, -, hs, -, -, heq⟩ | ⟨ip, tcp, -, -, -, -, heq⟩ :=
    f.step_cases pdu
  · rw [heq]
    exact h.empty
  · rw [heq]
    intro k t ht hopening
    rw [Follower.find?_store] at ht
    split_ifs at ht with hk
    · obtain rfl := Option.some.inj ht
      cases hack : s.synAckSent with
      | true =>
          rw [TCPCapStream.receive_established hack] at hopening
          exact absurd hopening (by simp [hack])
      | false =>
          rw [TCPCapStream.receive_opening hack (h.wf.live key s hs)] at hopening ⊢
          by_cases hflags : tcp.flags = synAckFlags
          · rw [if_pos hflags] at hopening
            exact absurd hopening (by simp)
          · rw [if_neg hflags]
            exact h.empty key s hs hack
    · exact h.empty k t ht hopening
  · rw [heq]
    intro k t ht hopening side
    rw [OrdMap.find?_insert] at ht
    split_ifs at ht
    · obtain rfl := Option.some.inj ht
      cases side <;> exact ⟨rfl, rfl⟩
    · exact h.empty k t ht hopening side

theorem openingEmpty_follow (pdus : List PDU) : (Follower.init.follow pdus).1.OpeningEmpty := by
  refine run_invariant Follower.OpeningEmpty (fun _ => True) (fun _ pdu _ h => h.step pdu) ?_
    (fun _ _ => trivial)
  exact ⟨Follower.WF.init, fun key s hs => by simp [Follower.init] at hs⟩

/-- **The handshake sets both directions up.** The `SYN|ACK` makes the client's
direction expect its `ack_seq`, and the server's its `seq + 1`. -/
theorem ready_of_handshake {before : List PDU} {info : StreamInfo} {s : TCPCapStream}
    (hs : (Follower.init.follow before).1.sessions.find? info.swap = some s)
    (hopening : s.synAckSent = false) {ip : IP} {tcp : TCP}
    (hends : info.sameEnds (packetInfo ip tcp) = true) (hflags : tcp.flags = synAckFlags) :
    (Follower.init.follow (before ++ [⟨some ip, some tcp⟩])).1.Ready info .client tcp.ackSeq ∧
      (Follower.init.follow (before ++ [⟨some ip, some tcp⟩])).1.Ready info .server
        (tcp.seq + 1) := by
  have h := openingEmpty_follow before
  have hinfo : s.info = info := h.wf.info_eq _ s hs
  have hlive := h.wf.live _ s hs
  have hclient := h.empty _ s hs hopening .client
  have hserver := h.empty _ s hs hopening .server
  have hfind : (Follower.init.follow (before ++ [⟨some ip, some tcp⟩])).1.sessions.find? info.swap =
      some (s.receive ip tcp).1 := by
    have hfin : (s.receive ip tcp).1.finSent = false := by
      rw [TCPCapStream.receive_opening hopening hlive, if_pos hflags]
      exact hlive
    rw [Follower.follow_snoc, h.wf.step_own hs (hinfo.symm ▸ hends), Follower.find?_store,
      if_pos rfl, hfin]
    rfl
  rw [TCPCapStream.receive_opening hopening hlive, if_pos hflags] at hfind
  refine ⟨⟨_, hfind, rfl, ?_⟩, ⟨_, hfind, rfl, ?_⟩⟩
  · show (⟨tcp.ackSeq, s.client.payload, s.client.frags⟩ : Half) = _
    rw [show s.client.payload = [] from hclient.1, show s.client.frags = ∅ from hclient.2]
  · show (⟨tcp.seq + 1, s.server.payload, s.server.frags⟩ : Half) = _
    rw [show s.server.payload = [] from hserver.1, show s.server.frags = ∅ from hserver.2]

/-! ### Main results -/

section

variable {info : StreamInfo} {side : Side} {s0 : UInt32} {S : List UInt8}

/-- **Delivered data is a prefix of what was sent**, at every point of every run. -/
theorem follow_delivers_prefix (hw : Window s0 S) {before : List PDU}
    (hready : (Follower.init.follow before).1.Ready info side s0) {pdus : List PDU}
    (hpdus : ∀ pdu ∈ pdus, Transfers info side s0 S pdu) :
    ∃ s, ((Follower.init.follow before).1.follow pdus).1.sessions.find? info.swap = some s ∧
      s0.toNat ≤ (s.half side).seq.toNat ∧ (s.half side).seq.toNat ≤ s0.toNat + S.length ∧
      delivered info side ((Follower.init.follow before).1.follow pdus).2 =
        S.take ((s.half side).seq.toNat - s0.toNat) := by
  obtain ⟨R, h, -⟩ := (hready.delivers (Follower.WF.init.follow before)).follow hw hpdus
  obtain ⟨s, hs, hdel, hout⟩ := h.session
  refine ⟨s, hs, hdel.capped.inWindow.1, hdel.capped.inWindow.2, ?_⟩
  rw [List.nil_append] at hout
  rw [hout, slice_zero]

/-- **No captured byte is lost**, as long as no segment that reaches `my_seq` leaves a
gap before a pending byte. -/
theorem follow_delivers_all (hw : Window s0 S) {before : List PDU}
    (hready : (Follower.init.follow before).1.Ready info side s0) {pdus : List PDU}
    (hpdus : ∀ pdu ∈ pdus, Transfers info side s0 S pdu)
    (hgap : ∀ done pdu rest, pdus = done ++ pdu :: rest →
      ((Follower.init.follow before).1.follow done).1.GaplessAt info side pdu)
    (hcover : Covers s0 S (segments info side pdus)) :
    delivered info side ((Follower.init.follow before).1.follow pdus).2 = S := by
  obtain ⟨R, h, hR⟩ := (hready.delivers (Follower.WF.init.follow before)).follow hw hpdus
  obtain ⟨s, -, hdel, hout⟩ := h.session
  have hall : Set.Ico s0.toNat (s0.toNat + S.length) ⊆ R := by
    rw [hR hgap]
    exact Set.subset_union_of_subset_right (hcover.subset hw) _
  rw [List.nil_append] at hout
  rw [hout, hdel.capped.complete hall, Nat.add_sub_cancel_left, slice_zero_length]

end

/-! ### Runs of one connection -/

/-- The client `1:5000` talks to the server `2:80`. -/
def sampleInfo : StreamInfo := ⟨1, 2, 5000, 80⟩

/-- `SYN` and `SYN|ACK`; the client's data starts at sequence number 100. -/
def sampleHandshake : List PDU :=
  [⟨some ⟨1, 2⟩, some ⟨5000, 80, 99, 0, 0x02, none⟩⟩,
    ⟨some ⟨2, 1⟩, some ⟨80, 5000, 20, 100, 0x12, none⟩⟩]

/-- A data segment of the client. -/
def sampleSegment (ident : Nat) (seq : UInt32) (bytes : List UInt8) : TCP :=
  ⟨5000, 80, seq, 21, 0x18, some ⟨ident, bytes⟩⟩

/-- The segment as it is captured. -/
def sampleData (ident : Nat) (seq : UInt32) (bytes : List UInt8) : PDU :=
  ⟨some ⟨1, 2⟩, some (sampleSegment ident seq bytes)⟩

theorem sampleHandshake_ready :
    (Follower.init.follow sampleHandshake).1.Ready sampleInfo .client 100 :=
  ⟨_, rfl, rfl, rfl⟩

section

variable {S : List UInt8} (ident : Nat) {i j : Nat} (hij : i ≤ j) (hj : j ≤ S.length)

include hij hj

theorem sampleSegment_carries :
    Carries 100 S (sampleSegment ident (100 + UInt32.ofNat i) (slice S i j)) i j :=
  ⟨hij, hj, rfl, _, rfl, rfl⟩

theorem sampleData_transfers :
    Transfers sampleInfo .client 100 S (sampleData ident (100 + UInt32.ofNat i) (slice S i j)) := by
  refine ⟨?_, ?_⟩
  · intro ip tcp heq _
    obtain ⟨-, rfl⟩ : _ ∧ _ = tcp := by simpa [sampleData] using heq
    simp [sampleSegment, TCP.getFlag, Flag.bit]
  · intro tcp hseg
    obtain rfl : _ = tcp := Option.some.inj hseg
    exact Or.inr ⟨i, j, sampleSegment_carries ident hij hj⟩

end

/-- Five bytes; when the first two arrive, the third and the fifth are waiting. -/
def gapRun : List PDU :=
  [sampleData 0 102 [3], sampleData 1 104 [5], sampleData 2 100 [1, 2], sampleData 3 103 [4]]

theorem gapRun_transfers : ∀ pdu ∈ gapRun, Transfers sampleInfo .client 100 [1, 2, 3, 4, 5] pdu := by
  intro pdu hpdu
  simp only [gapRun, List.mem_cons, List.not_mem_nil, or_false] at hpdu
  rcases hpdu with rfl | rfl | rfl | rfl
  · exact sampleData_transfers 0 (i := 2) (j := 3) (by decide) (by decide)
  · exact sampleData_transfers 1 (i := 4) (j := 5) (by decide) (by decide)
  · exact sampleData_transfers 2 (i := 0) (j := 2) (by decide) (by decide)
  · exact sampleData_transfers 3 (i := 3) (j := 4) (by decide) (by decide)

/-- The fifth byte was captured and is never shown: `cap` freed it when the first three
were passed on, since the fourth was missing. -/
theorem freed_fragment_is_lost :
    (Follower.init.follow sampleHandshake).1.Ready sampleInfo .client 100 ∧
    (∀ pdu ∈ gapRun, Transfers sampleInfo .client 100 [1, 2, 3, 4, 5] pdu) ∧
    Covers 100 [1, 2, 3, 4, 5] (segments sampleInfo .client gapRun) ∧
    delivered sampleInfo .client
      ((Follower.init.follow sampleHandshake).1.follow gapRun).2 = [1, 2, 3, 4] := by
  refine ⟨sampleHandshake_ready, gapRun_transfers, ?_, by decide⟩
  intro x hx
  have hx5 : x < 5 := hx
  rcases (by omega : x < 2 ∨ x = 2 ∨ x = 3 ∨ x = 4) with hx | rfl | rfl | rfl
  · exact ⟨sampleSegment 2 100 [1, 2], by decide, 0, 2,
      sampleSegment_carries 2 (by decide) (by decide), by omega, hx⟩
  · exact ⟨sampleSegment 0 102 [3], by decide, 2, 3,
      sampleSegment_carries 0 (by decide) (by decide), by decide, by decide⟩
  · exact ⟨sampleSegment 3 103 [4], by decide, 3, 4,
      sampleSegment_carries 3 (by decide) (by decide), by decide, by decide⟩
  · exact ⟨sampleSegment 1 104 [5], by decide, 4, 5,
      sampleSegment_carries 1 (by decide) (by decide), by decide, by decide⟩

/-- Three bytes; the first arrives last, and closes the gap. -/
def swappedRun : List PDU := [sampleData 0 101 [2, 3], sampleData 1 100 [1]]

theorem follow_delivers_all_swappedRun :
    delivered sampleInfo .client
      ((Follower.init.follow sampleHandshake).1.follow swappedRun).2 = [1, 2, 3] := by
  refine follow_delivers_all (S := [1, 2, 3]) ⟨by decide, by decide⟩ sampleHandshake_ready
    ?_ ?_ ?_
  · intro pdu hpdu
    simp only [swappedRun, List.mem_cons, List.not_mem_nil, or_false] at hpdu
    rcases hpdu with rfl | rfl
    · exact sampleData_transfers 0 (i := 1) (j := 3) (by decide) (by decide)
    · exact sampleData_transfers 1 (i := 0) (j := 1) (by decide) (by decide)
  · intro done pdu rest hsplit s tcp hs hseg _ q hq p hmy hpq
    rcases done with _ | ⟨pdu₀, _ | ⟨pdu₁, done⟩⟩
    · -- nothing is pending when the first segment arrives
      have hfrags : (((Follower.init.follow sampleHandshake).1.follow []).1.sessions.find?
          sampleInfo.swap).map (fun s => (s.half .client).frags) = some ∅ := by decide
      rw [hs, Option.map_some, Option.some.injEq] at hfrags
      rw [hfrags, held_empty] at hq
      exact absurd hq (Set.notMem_empty q)
    · -- the second arrives when bytes 101 and 102 are pending
      have hlist : swappedRun = [pdu₀] ++ pdu :: rest := hsplit
      simp only [swappedRun, List.cons_append, List.nil_append, List.cons.injEq] at hlist
      obtain ⟨rfl, rfl, -⟩ := hlist
      have hhalf : (((Follower.init.follow sampleHandshake).1.follow
          [sampleData 0 101 [2, 3]]).1.sessions.find? sampleInfo.swap).map
            (fun s => s.half .client) =
          some ⟨100, [], OrdMap.insert ∅ 101 ⟨0, [2, 3]⟩⟩ := by decide
      rw [hs, Option.map_some, Option.some.injEq] at hhalf
      rw [hhalf] at hmy hq ⊢
      obtain rfl : _ = tcp := Option.some.inj hseg
      obtain ⟨key, frag, hfind, hq⟩ := hq
      rw [OrdMap.find?_insert] at hfind
      split_ifs at hfind with hkey
      · obtain rfl := Option.some.inj hfind
        subst hkey
        have hmy' : 100 ≤ p := hmy
        have hq' : q < 103 := hq.2
        rcases (by omega : p = 100 ∨ 101 ≤ p) with rfl | hp
        · exact Or.inl ⟨by decide, by decide⟩
        · exact Or.inr ⟨101, _, OrdMap.find?_insert_self _ _ _, hp, lt_of_le_of_lt hpq hq.2⟩
      · simp at hfind
    · have hlist := congrArg List.length hsplit
      simp [swappedRun] at hlist
  · intro x hx
    have hx3 : x < 3 := hx
    rcases (by omega : x < 1 ∨ 1 ≤ x) with hx | hx
    · exact ⟨sampleSegment 1 100 [1], by decide, 0, 1,
        sampleSegment_carries 1 (by decide) (by decide), by omega, hx⟩
    · exact ⟨sampleSegment 0 101 [2, 3], by decide, 1, 3,
        sampleSegment_carries 0 (by decide) (by decide), hx, hx3⟩

theorem follow_delivers_prefix_gapRun :
    ∃ s, ((Follower.init.follow sampleHandshake).1.follow gapRun).1.sessions.find?
        sampleInfo.swap = some s ∧
      delivered sampleInfo .client
          ((Follower.init.follow sampleHandshake).1.follow gapRun).2 =
        [1, 2, 3, 4, 5].take ((s.half .client).seq.toNat - 100) := by
  obtain ⟨s, hs, -, -, hshown⟩ := follow_delivers_prefix (S := [1, 2, 3, 4, 5])
    ⟨by decide, by decide⟩ sampleHandshake_ready gapRun_transfers
  exact ⟨s, hs, hshown⟩

end CLabs.Tcp
