import CLabs.Netfilter.Frame

/-!
# CLabs.Netfilter.Checksums

**Packets leave the hooks with valid checksums.** A checksum is valid if the ones'
complement sum of what it covers is `0xFFFF`: the IP header, and for TCP the pseudo-header
and the whole segment.

Each checksum is stored over a field that has been set to zero, so it is valid right after
(`onesSum_updateIpCheck`, `onesSum_updateTcpCheck`). What the hooks write later is not covered
by it: the TOS byte and the IP checksum belong neither to the pseudo-header nor to the segment.
`Agrees` is this, and a checksum that has been stored once is not changed by storing it again.
-/

namespace CLabs.Netfilter

open CLabs.Lib

/-! ### What the checksums cover -/

/-- The pseudo-header of a segment. -/
def pseudoHeader (m : Nat → UInt8) (ip tcplen : Nat) : List UInt8 :=
  saddr m ip ++ daddr m ip ++ ([0, IPPROTO_TCP] ++ be16 tcplen)

/-- What the TCP checksum covers. -/
def tcpText (m : Nat → UInt8) (ip tcp tcplen : Nat) : List UInt8 :=
  pseudoHeader m ip tcplen ++ load m tcp tcplen

/-- Both checksums of a packet are valid. -/
structure ValidChecksums (skb : SkBuff) : Prop where
  ip : onesSum (words (load skb.mem 0 (ihl skb.mem 0 * 4))) = 0xFFFF
  tcp : onesSum (words
    (tcpText skb.mem 0 (tcpAt skb.mem) (skb.len - tcpAt skb.mem))) = 0xFFFF

/-- Two memories agree on the addresses of a packet and from its segment on. -/
def Agrees (ip tcp : Nat) (m m' : Nat → UInt8) : Prop :=
  ∀ a, (ip + 12 ≤ a ∧ a < ip + 20) ∨ tcp ≤ a → m a = m' a

section

variable {m m' : Nat → UInt8} {ip tcp tcplen : Nat}

theorem Agrees.saddr_eq (h : Agrees ip tcp m m') : saddr m ip = saddr m' ip :=
  load_congr fun a ha hlt => h a (Or.inl (by omega))

theorem Agrees.daddr_eq (h : Agrees ip tcp m m') : daddr m ip = daddr m' ip :=
  load_congr fun a ha hlt => h a (Or.inl (by omega))

theorem Agrees.load_eq (h : Agrees ip tcp m m') (n : Nat) : load m tcp n = load m' tcp n :=
  load_congr fun a ha _ => h a (Or.inr ha)

theorem Agrees.tcpText_eq (h : Agrees ip tcp m m') :
    tcpText m ip tcp tcplen = tcpText m' ip tcp tcplen := by
  rw [tcpText, tcpText, pseudoHeader, pseudoHeader, h.saddr_eq, h.daddr_eq, h.load_eq]

theorem Agrees.tcpCheckOf_eq (h : Agrees ip tcp m m') :
    tcpCheckOf m ip tcp tcplen = tcpCheckOf m' ip tcp tcplen := by
  rw [tcpCheckOf, tcpCheckOf, csumPartial, csumPartial, h.saddr_eq, h.daddr_eq, h.load_eq]

/-- Equal writes of the TCP checksum keep the agreement. -/
theorem Agrees.setTcpCheck (h : Agrees ip tcp m m') (sum : Nat) :
    Agrees ip tcp (setTcpCheck m tcp sum) (setTcpCheck m' tcp sum) := by
  intro a ha
  unfold Netfilter.setTcpCheck store
  rw [h a ha]

end

/-! ### The IP checksum -/

section

variable {m : Nat → UInt8} {ip : Nat}

@[simp] theorem setIpCheck_setIpCheck (sum sum' : Nat) :
    setIpCheck (setIpCheck m ip sum) ip sum' = setIpCheck m ip sum' :=
  store_store rfl

theorem ihl_setIpCheck (sum : Nat) : ihl (setIpCheck m ip sum) ip = ihl m ip :=
  ihl_congr (setIpCheck_of_ne (by omega))

theorem ihl_updateIpCheck : ihl (updateIpCheck m ip) ip = ihl m ip :=
  ihl_congr (updateIpCheck_of_ne (by omega))

theorem tcpAt_updateIpCheck : tcpAt (updateIpCheck m 0) = tcpAt m :=
  tcpAt_congr (updateIpCheck_of_ne (by omega))

/-- Its field is at an even place of the header. -/
theorem load_setIpCheck {n : Nat} (h : 12 ≤ n) (sum : Nat) :
    load (setIpCheck m ip sum) ip n =
      load m ip 10 ++ (be16 sum ++ load m (ip + 12) (n - 12)) :=
  load_store_within h

theorem onesSum_updateIpCheck (h : 5 ≤ ihl m ip) :
    onesSum (words (load (updateIpCheck m ip) ip (ihl m ip * 4))) = 0xFFFF := by
  have hn : 12 ≤ ihl m ip * 4 := by omega
  have hover : updateIpCheck m ip =
      setIpCheck m ip (ipFastCsum (setIpCheck m ip 0) ip (ihl m ip)) := by
    unfold updateIpCheck
    dsimp only
    rw [ihl_setIpCheck, setIpCheck_setIpCheck]
  rw [hover, load_setIpCheck hn, ipFastCsum, load_setIpCheck hn]
  exact onesSum_with_checksum (by rw [length_load]) _

/-- Storing it again changes nothing. -/
theorem updateIpCheck_updateIpCheck : updateIpCheck (updateIpCheck m ip) ip = updateIpCheck m ip := by
  have hzero : setIpCheck (updateIpCheck m ip) ip 0 = setIpCheck m ip 0 := by
    simp [updateIpCheck]
  rw [updateIpCheck, hzero, updateIpCheck]

end

/-! ### The TCP checksum -/

section

variable {m m' : Nat → UInt8} {ip tcp tcplen : Nat}

theorem length_pseudoHeader : (pseudoHeader m ip tcplen).length = 12 := by
  simp [pseudoHeader, saddr, daddr]

/-- The words of the pseudo-header. -/
theorem words_pseudoHeader (h : tcplen ≤ 65535) :
    words (pseudoHeader m ip tcplen) =
      words (saddr m ip ++ daddr m ip) ++ [IPPROTO_TCP.toNat, tcplen] := by
  have heven : (saddr m ip ++ daddr m ip).length % 2 = 0 := by simp [saddr, daddr]
  have htail : words ([0, IPPROTO_TCP] ++ be16 tcplen) = [IPPROTO_TCP.toNat, tcplen] := by
    have hlen := words_be16 h []
    rw [List.append_nil] at hlen
    rw [words_append rfl, hlen]
    rfl
  rw [pseudoHeader, words_append heven, htail]

/-- `tcp_v4_check` and `csum_partial` give the checksum of pseudo-header and segment. -/
theorem tcpCheckOf_eq (h : tcplen ≤ 65535) :
    tcpCheckOf m ip tcp tcplen = checksum (words (tcpText m ip tcp tcplen)) := by
  have hfirst : ∀ w ∈ words (saddr m ip ++ daddr m ip) ++ [IPPROTO_TCP.toNat, tcplen],
      w ≤ 65535 := by
    rw [← words_pseudoHeader h]
    exact fun _ => le_of_mem_words
  have hrest : ∀ w ∈ 0 :: words (load m tcp tcplen), w ≤ 65535 := by
    intro w hw
    rcases List.mem_cons.mp hw with rfl | hw
    · omega
    · exact le_of_mem_words hw
  have hpseudo : words (tcpText m ip tcp tcplen) =
      words (saddr m ip ++ daddr m ip) ++ [IPPROTO_TCP.toNat, tcplen] ++
        words (load m tcp tcplen) := by
    rw [tcpText, words_append (by rw [length_pseudoHeader]), words_pseudoHeader h]
  rw [tcpCheckOf, tcpV4Check, checksum, checksum, csumPartial, onesSum_append_onesSum hfirst hrest,
    onesSum_words, hpseudo, onesSum_eq]
  · simp only [List.sum_append, List.sum_cons, Nat.zero_add]
  · intro w hw
    rcases List.mem_append.mp hw with hw | hw
    · exact hfirst w hw
    · exact hrest w hw

theorem load_setTcpCheck (h : 18 ≤ tcplen) (sum : Nat) :
    load (setTcpCheck m tcp sum) tcp tcplen =
      load m tcp 16 ++ (be16 sum ++ load m (tcp + 18) (tcplen - 18)) :=
  load_store_within h

/-- The field is not among the addresses. -/
theorem pseudoHeader_setTcpCheck (h : ip + 20 ≤ tcp) (sum : Nat) :
    pseudoHeader (setTcpCheck m tcp sum) ip tcplen = pseudoHeader m ip tcplen := by
  have hsaddr : saddr (setTcpCheck m tcp sum) ip = saddr m ip :=
    load_congr fun a _ ha => setTcpCheck_of_ne (by omega)
  have hdaddr : daddr (setTcpCheck m tcp sum) ip = daddr m ip :=
    load_congr fun a _ ha => setTcpCheck_of_ne (by omega)
  rw [pseudoHeader, pseudoHeader, hsaddr, hdaddr]

/-- The text covered, around the checksum's field. -/
theorem tcpText_setTcpCheck (h : ip + 20 ≤ tcp) (hlen : 18 ≤ tcplen) (sum : Nat) :
    tcpText (setTcpCheck m tcp sum) ip tcp tcplen =
      pseudoHeader m ip tcplen ++ load m tcp 16 ++
        (be16 sum ++ load m (tcp + 18) (tcplen - 18)) := by
  rw [tcpText, pseudoHeader_setTcpCheck h, load_setTcpCheck hlen, List.append_assoc]

@[simp] theorem setTcpCheck_setTcpCheck (sum sum' : Nat) :
    setTcpCheck (setTcpCheck m tcp sum) tcp sum' = setTcpCheck m tcp sum' :=
  store_store rfl

theorem updateTcpCheck_eq :
    updateTcpCheck m ip tcp tcplen =
      setTcpCheck m tcp (tcpCheckOf (setTcpCheck m tcp 0) ip tcp tcplen) :=
  setTcpCheck_setTcpCheck _ _

theorem onesSum_updateTcpCheck (h : ip + 20 ≤ tcp) (hlen : 18 ≤ tcplen) (hmax : tcplen ≤ 65535) :
    onesSum (words (tcpText (updateTcpCheck m ip tcp tcplen) ip tcp tcplen)) = 0xFFFF := by
  rw [updateTcpCheck_eq, tcpText_setTcpCheck h hlen, tcpCheckOf_eq hmax,
    tcpText_setTcpCheck h hlen]
  refine onesSum_with_checksum ?_ _
  rw [List.length_append, length_pseudoHeader, length_load]

/-- In a memory that agrees with one in which it has been stored, storing it changes nothing. -/
theorem updateTcpCheck_of_agrees (h : Agrees ip tcp m' (updateTcpCheck m ip tcp tcplen)) :
    updateTcpCheck m' ip tcp tcplen = m' := by
  have hagain : Agrees ip tcp (setTcpCheck m' tcp 0) (setTcpCheck m tcp 0) := by
    have hzero := h.setTcpCheck 0
    rwa [updateTcpCheck_eq, setTcpCheck_setTcpCheck] at hzero
  rw [updateTcpCheck_eq, hagain.tcpCheckOf_eq]
  refine store_eq_self ?_
  have hfield : load m' (tcp + 16) 2 = load (updateTcpCheck m ip tcp tcplen) (tcp + 16) 2 :=
    load_congr fun a ha _ => h a (Or.inr (by omega))
  rw [length_be16, hfield, updateTcpCheck_eq]
  exact load_store

end

/-! ### The hooks -/

section

variable {m : Nat → UInt8} {tcp : Nat}

/-- The IP checksum is covered by no TCP checksum. -/
theorem agrees_updateIpCheck (h : 20 ≤ tcp) : Agrees 0 tcp (updateIpCheck m 0) m :=
  fun a ha => updateIpCheck_of_ne (by omega)

/-- Neither is the TOS byte. -/
theorem agrees_setTos (h : 20 ≤ tcp) (value : UInt8) : Agrees 0 tcp (setTos m 0 value) m :=
  fun a ha => setTos_of_ne (by omega)

/-- **Both updates.** The IP checksum is stored last, and since the TCP checksum nothing has
been written that it covers. -/
theorem validChecksums_update {skb : SkBuff} (m' : Nat → UInt8) (hihl : 5 ≤ ihl m 0)
    (hagrees : Agrees 0 (tcpAt m) m (updateTcpCheck m' 0 (tcpAt m) (skb.len - tcpAt m)))
    (hlen : tcpAt m + 20 ≤ skb.len) (hmax : skb.len ≤ 65535) :
    ValidChecksums { skb with mem := updateIpCheck m 0 } := by
  have htcp : 20 ≤ tcpAt m := by
    unfold tcpAt
    omega
  refine ⟨?_, ?_⟩
  · show onesSum (words (load (updateIpCheck m 0) 0 (ihl (updateIpCheck m 0) 0 * 4))) = 0xFFFF
    rw [ihl_updateIpCheck]
    exact onesSum_updateIpCheck hihl
  · show onesSum (words (tcpText (updateIpCheck m 0) 0 (tcpAt (updateIpCheck m 0))
      (skb.len - tcpAt (updateIpCheck m 0)))) = 0xFFFF
    rw [tcpAt_updateIpCheck, (agrees_updateIpCheck htcp).tcpText_eq, hagrees.tcpText_eq]
    exact onesSum_updateTcpCheck (by omega) (by omega) (by omega)

end

section

variable {skb : SkBuff}

/-- What `hook_func` does to a packet whose TOS is not zero. -/
theorem hookFunc_eq (h : TcpPacket skb) (htos : tos skb.mem 0 ≠ 0) :
    hookFunc skb = some (.accept, { skb with
      mem := updateIpCheck
        (updateTcpCheck skb.mem 0 (tcpAt skb.mem) (skb.len - tcpAt skb.mem)) 0 }) := by
  have hlinear := linearized_of_linear h.linear
  obtain ⟨mem, networkHeader, len, frags, tailroom⟩ := skb
  obtain rfl : networkHeader = 0 := h.atHeader
  unfold hookFunc
  dsimp only
  rw [if_neg htos, if_neg (not_not.mpr h.tcp), hlinear]
  rfl

/-- Before the TCP header the payload is not. -/
theorem rewritePayload_of_lt (h : TcpPacket skb) {a : Nat} (ha : a < 20) :
    rewritePayload skb.mem (payloadAt skb.mem) a = skb.mem a := by
  have htcp := h.tcpAt_ge
  have hpayload : tcpAt skb.mem ≤ payloadAt skb.mem := Nat.le_add_right _ _
  rw [rewritePayload_eq]
  split_ifs
  · exact store_of_lt (by omega)
  · rfl

/-- The memory before the IP checksum is stored. -/
def rewrittenMem (skb : SkBuff) : Nat → UInt8 :=
  let m := updateTcpCheck (rewritePayload skb.mem (payloadAt skb.mem)) 0 (tcpAt skb.mem)
    (skb.len - tcpAt skb.mem)
  setTos m 0 (tos m 0 + 1)

theorem rewritePacket_eq (h : TcpPacket skb) :
    rewritePacket skb (tcpAt skb.mem) (payloadAt skb.mem) =
      { skb with mem := updateIpCheck (rewrittenMem skb) 0 } := by
  have hihl : ihl (rewritePayload skb.mem (payloadAt skb.mem)) 0 * 4 = tcpAt skb.mem :=
    tcpAt_congr (rewritePayload_of_lt h (by omega))
  unfold rewritePacket
  dsimp only
  rw [h.atHeader, hihl]
  rfl

/-- Of the first ten bytes only the TOS byte is written. -/
theorem rewrittenMem_of_lt (h : TcpPacket skb) {a : Nat} (ha : a < 10) (hne : a ≠ 1) :
    rewrittenMem skb a = skb.mem a := by
  have htcp := h.tcpAt_ge
  unfold rewrittenMem
  rw [setTos_of_ne (by omega), updateTcpCheck_of_ne (by omega), rewritePayload_of_lt h (by omega)]

theorem ihl_rewrittenMem (h : TcpPacket skb) : ihl (rewrittenMem skb) 0 = ihl skb.mem 0 :=
  ihl_congr (rewrittenMem_of_lt h (by omega) (by omega))

theorem tcpAt_rewrittenMem (h : TcpPacket skb) : tcpAt (rewrittenMem skb) = tcpAt skb.mem :=
  tcpAt_congr (rewrittenMem_of_lt h (by omega) (by omega))

theorem rewrittenMem_agrees (h : TcpPacket skb) :
    Agrees 0 (tcpAt skb.mem) (rewrittenMem skb)
      (updateTcpCheck (rewritePayload skb.mem (payloadAt skb.mem)) 0 (tcpAt skb.mem)
        (skb.len - tcpAt skb.mem)) :=
  agrees_setTos h.tcpAt_ge _

/-- The rewritten packet is still a packet of TCP. -/
theorem TcpPacket.rewrite (h : TcpPacket skb) :
    TcpPacket { skb with mem := updateIpCheck (rewrittenMem skb) 0 } where
  linear := h.linear
  atHeader := h.atHeader
  headers := by
    show 5 ≤ ihl (updateIpCheck (rewrittenMem skb) 0) 0
    rw [ihl_updateIpCheck, ihl_rewrittenMem h]
    exact h.headers
  tcp := by
    show updateIpCheck (rewrittenMem skb) 0 9 = IPPROTO_TCP
    rw [updateIpCheck_of_ne (by omega), rewrittenMem_of_lt h (by omega) (by omega)]
    exact h.tcp

/-- A second computation finds both checksums as they are. -/
theorem hookFunc_rewritten (h : TcpPacket skb) :
    hookFunc { skb with mem := updateIpCheck (rewrittenMem skb) 0 } =
      some (.accept, { skb with mem := updateIpCheck (rewrittenMem skb) 0 }) := by
  by_cases htos : tos (updateIpCheck (rewrittenMem skb) 0) 0 = 0
  · -- the TOS byte has wrapped around
    unfold hookFunc
    dsimp only
    rw [h.atHeader, if_pos htos]
  · have hagrees := fun a ha =>
      (agrees_updateIpCheck (m := rewrittenMem skb) h.tcpAt_ge a ha).trans
        (rewrittenMem_agrees h a ha)
    rw [hookFunc_eq h.rewrite htos]
    dsimp only
    rw [tcpAt_updateIpCheck, tcpAt_rewrittenMem h, updateTcpCheck_of_agrees hagrees,
      updateIpCheck_updateIpCheck]

/-- Packets leave `hook_func_out` with valid checksums. -/
theorem validChecksums_rewritten (h : TcpPacket skb) (hlen : tcpAt skb.mem + 20 ≤ skb.len)
    (hmax : skb.len ≤ 65535) :
    ValidChecksums { skb with mem := updateIpCheck (rewrittenMem skb) 0 } := by
  refine validChecksums_update (rewritePayload skb.mem (payloadAt skb.mem)) ?_ ?_ ?_ hmax
  · rw [ihl_rewrittenMem h]
    exact h.headers
  · rw [tcpAt_rewrittenMem h]
    exact rewrittenMem_agrees h
  · rw [tcpAt_rewrittenMem h]
    exact hlen

/-- Packets leave `hook_func` with valid checksums. -/
theorem validChecksums_hookFunc (h : TcpPacket skb) (hlen : tcpAt skb.mem + 20 ≤ skb.len)
    (hmax : skb.len ≤ 65535) :
    ValidChecksums { skb with
      mem := updateIpCheck
        (updateTcpCheck skb.mem 0 (tcpAt skb.mem) (skb.len - tcpAt skb.mem)) 0 } := by
  have htcp := h.tcpAt_ge
  have hfirst : updateTcpCheck skb.mem 0 (tcpAt skb.mem) (skb.len - tcpAt skb.mem) 0 = skb.mem 0 :=
    updateTcpCheck_of_ne (by omega)
  refine validChecksums_update skb.mem ?_ ?_ ?_ hmax
  · rw [ihl_congr hfirst]
    exact h.headers
  · rw [tcpAt_congr hfirst]
    exact fun a _ => rfl
  · rw [tcpAt_congr hfirst]
    exact hlen

end

/-- **Rewritten packets leave with valid checksums.** After `hook_func_out`, and `hook_func`
then changes nothing; and after `hook_func` for every packet whose TOS is not zero. -/
theorem checksums_valid {skb : SkBuff} (h : TcpPacket skb) (hlen : skb.len = totLen skb.mem 0)
    (hsegment : tcpAt skb.mem + 20 ≤ totLen skb.mem 0) :
    (ToFilter skb → ∃ skb', hookFuncOut skb = some (.accept, skb') ∧ ValidChecksums skb' ∧
      hookFunc skb' = some (.accept, skb')) ∧
    (tos skb.mem 0 ≠ 0 → ∃ skb', hookFunc skb = some (.accept, skb') ∧ ValidChecksums skb') := by
  have hmax : skb.len ≤ 65535 := hlen ▸ ntohs_le _ _
  refine ⟨fun hfilter => ?_, fun htos => ?_⟩
  · rw [hookFuncOut_eq h hfilter, rewritePacket_eq h]
    exact ⟨_, rfl, validChecksums_rewritten h (hlen ▸ hsegment) hmax, hookFunc_rewritten h⟩
  · exact ⟨_, hookFunc_eq h htos, validChecksums_hookFunc h (hlen ▸ hsegment) hmax⟩

/-- A packet of the filter. -/
theorem checksums_valid_irrx :
    ∃ skb', hookFuncOut (samplePacket (ascii "irrx") []) = some (.accept, skb') ∧
      ValidChecksums skb' ∧ hookFunc skb' = some (.accept, skb') :=
  (checksums_valid ⟨rfl, rfl, by decide, by decide⟩ (by decide) (by decide)).1
    ⟨by decide, by decide⟩

end CLabs.Netfilter
