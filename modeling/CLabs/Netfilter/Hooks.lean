import CLabs.Lib.CString
import CLabs.Lib.Memory
import CLabs.Lib.OnesComplement

/-!
# CLabs.Netfilter.Hooks

The netfilter hooks that change packets: `hook_func_out` of `test.c` and `hook_func` of
`cs_DADDR.c`. Both recompute the two checksums of a packet; the first also writes into the
payload and counts up the TOS byte.

* A packet is the memory around it, by the distance from `skb->data`. Headers are read and
  written at their places in that memory, each time from the memory as it is by then.
* The part of a packet that is not in that memory is in `frags`. `skb_linearize` copies it
  behind the rest. Where there is no room it moves the buffer, and the hooks go on with
  pointers into the old one: the model gives no result for that.
* The checksum functions of the kernel are the ones of RFC 1071, on words with the high byte
  first; a sum is stored the same way.
* What is only printed is left out.
-/

namespace CLabs.Netfilter

open CLabs.Lib

/-! ### Packets -/

/-- `struct sk_buff`. -/
structure SkBuff where
  mem : Nat → UInt8
  /-- Where `skb_network_header` points. -/
  networkHeader : Nat
  len : Nat
  /-- The bytes of the packet that are in pages of their own. -/
  frags : List UInt8
  /-- Room behind the part of the packet that is in `mem`. -/
  tailroom : Nat

/-- `skb_linearize`; `none` if the buffer is moved. -/
def skbLinearize (skb : SkBuff) : Option SkBuff :=
  if skb.frags.length ≤ skb.tailroom then
    some { skb with
      mem := store skb.mem (skb.len - skb.frags.length) skb.frags
      frags := []
      tailroom := skb.tailroom - skb.frags.length }
  else none

/-- `if (skb_is_nonlinear(skb)) skb_linearize(skb)`. -/
def linearized (skb : SkBuff) : Option SkBuff :=
  if skb.frags ≠ [] then skbLinearize skb else some skb

/-- `NF_DROP` and `NF_ACCEPT`. -/
inductive Verdict
  | drop | accept
  deriving Repr, DecidableEq

section

variable (m : Nat → UInt8) (ip tcp : Nat)

/-- `ntohs` of a field. -/
def ntohs (p : Nat) : Nat := (m p).toNat * 256 + (m (p + 1)).toNat

/-- `ip_header->ihl`. -/
def ihl : Nat := (m ip).toNat % 16

/-- `ip_header->tos`. -/
def tos : UInt8 := m (ip + 1)

/-- `ntohs(ip_header->tot_len)`. -/
def totLen : Nat := ntohs m (ip + 2)

/-- `ip_header->protocol`. -/
def protocol : UInt8 := m (ip + 9)

/-- `ip_header->saddr`. -/
def saddr : List UInt8 := load m (ip + 12) 4

/-- `ip_header->daddr`. -/
def daddr : List UInt8 := load m (ip + 16) 4

/-- `ntohs(tcp_header->dest)`. -/
def dest : Nat := ntohs m (tcp + 2)

/-- `tcp_header->doff`. -/
def doff : Nat := (m (tcp + 12)).toNat / 16

/-- `ip_header->tos = _`. -/
def setTos (value : UInt8) : Nat → UInt8 := store m (ip + 1) [value]

/-- `ip_header->check = _`. -/
def setIpCheck (sum : Nat) : Nat → UInt8 := store m (ip + 10) (be16 sum)

/-- `tcp_header->check = _`. -/
def setTcpCheck (sum : Nat) : Nat → UInt8 := store m (tcp + 16) (be16 sum)

end

/-- `IPPROTO_TCP`. -/
def IPPROTO_TCP : UInt8 := 6

/-! ### Functions of the kernel -/

/-- `strncmp(p, s, n)`, for a literal `s`. -/
def strncmp (m : Nat → UInt8) (p : Nat) : List UInt8 → Nat → Int
  | _, 0 => 0
  | [], _ + 1 => (m p).toNat
  | c :: s, n + 1 => if m p = c then strncmp m (p + 1) s n else (m p).toNat - c.toNat

/-- `strcpy(p, s)`, for a literal `s`: the NUL is copied too. -/
def strcpy (m : Nat → UInt8) (p : Nat) (s : List UInt8) : Nat → UInt8 := store m p (s ++ [0])

/-- `ip_fast_csum(ip, ihl)`. -/
def ipFastCsum (m : Nat → UInt8) (ip ihl : Nat) : Nat := checksum (words (load m ip (ihl * 4)))

/-- `csum_partial(buff, len, sum)`. -/
def csumPartial (m : Nat → UInt8) (buff len sum : Nat) : Nat :=
  onesSum (sum :: words (load m buff len))

/-- `tcp_v4_check(len, saddr, daddr, base)`. -/
def tcpV4Check (len : Nat) (saddr daddr : List UInt8) (base : Nat) : Nat :=
  checksum (words (saddr ++ daddr) ++ [IPPROTO_TCP.toNat, len] ++ [base])

/-! ### The hooks -/

/-- The TCP checksum of a segment in which it is zero. -/
def tcpCheckOf (m : Nat → UInt8) (ip tcp tcplen : Nat) : Nat :=
  tcpV4Check tcplen (saddr m ip) (daddr m ip) (csumPartial m tcp tcplen 0)

/-- Both hooks: zero the TCP checksum, then store the new one. -/
def updateTcpCheck (m : Nat → UInt8) (ip tcp tcplen : Nat) : Nat → UInt8 :=
  let m := setTcpCheck m tcp 0
  setTcpCheck m tcp (tcpCheckOf m ip tcp tcplen)

/-- Both hooks: zero the IP checksum, then store the new one. -/
def updateIpCheck (m : Nat → UInt8) (ip : Nat) : Nat → UInt8 :=
  let m := setIpCheck m ip 0
  setIpCheck m ip (ipFastCsum m ip (ihl m ip))

/-- `check_addrs` prints the addresses and accepts. -/
def checkAddrs : Verdict := .accept

/-- `payload_length`, an `unsigned int`. -/
def payloadLength (m : Nat → UInt8) (ip payloadOffset : Nat) : Nat :=
  (2 ^ 32 + totLen m ip - payloadOffset) % 2 ^ 32

/-- `strncmp(data, "irr", 3) == 0` and `strcpy(data, "ale")`. -/
def rewritePayload (m : Nat → UInt8) (payloadOffset : Nat) : Nat → UInt8 :=
  if strncmp m payloadOffset (ascii "irr") 3 = 0 then strcpy m payloadOffset (ascii "ale") else m

/-- What `hook_func_out` does to a packet with a payload, once it is linear. -/
def rewritePacket (skb : SkBuff) (tcp payloadOffset : Nat) : SkBuff :=
  let ip := skb.networkHeader
  let m := rewritePayload skb.mem payloadOffset
  let m := updateTcpCheck m ip tcp (skb.len - ihl m ip * 4)
  let m := setTos m ip (tos m ip + 1)
  { skb with mem := updateIpCheck m ip }

/-- `hook_func_out`. -/
def hookFuncOut (skb : SkBuff) : Option (Verdict × SkBuff) :=
  let ip := skb.networkHeader
  if protocol skb.mem ip = IPPROTO_TCP then
    let tcp := ihl skb.mem ip * 4
    if dest skb.mem tcp = 8888 then
      let payloadOffset := ihl skb.mem ip * 4 + doff skb.mem tcp * 4
      if payloadLength skb.mem ip payloadOffset ≠ 0 then
        (linearized skb).map fun skb => (checkAddrs, rewritePacket skb tcp payloadOffset)
      else some (checkAddrs, skb)
    else some (checkAddrs, skb)
  else some (checkAddrs, skb)

/-- `hook_func` of `cs_DADDR.c`. -/
def hookFunc (skb : SkBuff) : Option (Verdict × SkBuff) :=
  let ip := skb.networkHeader
  if tos skb.mem ip = 0 then some (.accept, skb)
  else if protocol skb.mem ip ≠ IPPROTO_TCP then some (.accept, skb)
  else
    let tcp := ihl skb.mem ip * 4
    (linearized skb).map fun skb =>
      let m := updateTcpCheck skb.mem ip tcp (skb.len - ihl skb.mem ip * 4)
      (.accept, { skb with mem := updateIpCheck m ip })

/-! ### String functions -/

/-- `strncmp` compares the bytes, when there is no NUL among those of the literal. -/
theorem strncmp_eq_zero_iff {m : Nat → UInt8} {p : Nat} {s : List UInt8} {n : Nat}
    (h : n ≤ s.length) : strncmp m p s n = 0 ↔ load m p n = s.take n := by
  induction s generalizing p n with
  | nil =>
      obtain rfl : n = 0 := Nat.le_zero.mp h
      exact iff_of_true rfl rfl
  | cons c s ih =>
      cases n with
      | zero => exact iff_of_true rfl rfl
      | succ n =>
          have hload : load m p (n + 1) = m p :: load m (p + 1) n := by
            rw [Nat.add_comm, load_add]
            rfl
          rw [strncmp, hload, List.take_succ_cons, List.cons.injEq]
          by_cases hc : m p = c
          · rw [if_pos hc, ih (Nat.le_of_succ_le_succ h), and_iff_right hc]
          · have hne : (m p).toNat ≠ c.toNat := fun heq => hc (UInt8.toNat_inj.mp heq)
            rw [if_neg hc]
            exact iff_of_false (by omega) fun hand => hc hand.1

/-! ### Packets that are rewritten -/

/-- A linear IPv4 packet that carries TCP, with `skb->data` at its header. -/
structure TcpPacket (skb : SkBuff) : Prop where
  linear : skb.frags = []
  atHeader : skb.networkHeader = 0
  headers : 5 ≤ ihl skb.mem 0
  tcp : protocol skb.mem 0 = IPPROTO_TCP

/-- Where the TCP header is. -/
def tcpAt (m : Nat → UInt8) : Nat := ihl m 0 * 4

/-- Where the payload is. -/
def payloadAt (m : Nat → UInt8) : Nat := ihl m 0 * 4 + doff m (tcpAt m) * 4

theorem ihl_congr {m m' : Nat → UInt8} {ip : Nat} (h : m ip = m' ip) : ihl m ip = ihl m' ip := by
  rw [ihl, ihl, h]

theorem tcpAt_congr {m m' : Nat → UInt8} (h : m 0 = m' 0) : tcpAt m = tcpAt m' := by
  rw [tcpAt, tcpAt, ihl_congr h]

theorem TcpPacket.tcpAt_ge {skb : SkBuff} (h : TcpPacket skb) : 20 ≤ tcpAt skb.mem := by
  have hihl := h.headers
  unfold tcpAt
  omega

/-- It goes to port 8888 and has a payload. -/
structure ToFilter (skb : SkBuff) : Prop where
  dest_eq : dest skb.mem (tcpAt skb.mem) = 8888
  payload : payloadAt skb.mem < totLen skb.mem 0

theorem ntohs_le (m : Nat → UInt8) (p : Nat) : ntohs m p ≤ 65535 := by
  have hhigh := (m p).toNat_lt
  have hlow := (m (p + 1)).toNat_lt
  unfold ntohs
  omega

theorem linearized_of_linear {skb : SkBuff} (h : skb.frags = []) : linearized skb = some skb := by
  rw [linearized, if_neg (by simp [h])]

/-- What `hook_func_out` does to such a packet. -/
theorem hookFuncOut_eq {skb : SkBuff} (h : TcpPacket skb) (hfilter : ToFilter skb) :
    hookFuncOut skb = some (.accept, rewritePacket skb (tcpAt skb.mem) (payloadAt skb.mem)) := by
  have hpayload := hfilter.payload
  have htot : totLen skb.mem 0 ≤ 65535 := ntohs_le _ _
  have hlength : payloadLength skb.mem 0 (payloadAt skb.mem) ≠ 0 := by
    unfold payloadLength
    omega
  unfold hookFuncOut
  dsimp only
  rw [h.atHeader, if_pos h.tcp,
    if_pos (show dest skb.mem (ihl skb.mem 0 * 4) = 8888 from hfilter.dest_eq),
    if_pos (show payloadLength skb.mem 0 (ihl skb.mem 0 * 4 +
      doff skb.mem (ihl skb.mem 0 * 4) * 4) ≠ 0 from hlength), linearized_of_linear h.linear]
  rfl

/-! ### What each write leaves as it is -/

section

variable {m : Nat → UInt8} {ip tcp a : Nat}

theorem setTos_of_ne {value : UInt8} (h : a ≠ ip + 1) : setTos m ip value a = m a := by
  refine store_of_outside ?_
  rw [List.length_singleton]
  omega

theorem setIpCheck_of_ne {sum : Nat} (h : a ≠ ip + 10 ∧ a ≠ ip + 11) :
    setIpCheck m ip sum a = m a := by
  refine store_of_outside ?_
  rw [length_be16]
  omega

theorem setTcpCheck_of_ne {sum : Nat} (h : a ≠ tcp + 16 ∧ a ≠ tcp + 17) :
    setTcpCheck m tcp sum a = m a := by
  refine store_of_outside ?_
  rw [length_be16]
  omega

theorem updateIpCheck_of_ne (h : a ≠ ip + 10 ∧ a ≠ ip + 11) : updateIpCheck m ip a = m a := by
  unfold updateIpCheck
  rw [setIpCheck_of_ne h, setIpCheck_of_ne h]

theorem updateTcpCheck_of_ne {tcplen : Nat} (h : a ≠ tcp + 16 ∧ a ≠ tcp + 17) :
    updateTcpCheck m ip tcp tcplen a = m a := by
  unfold updateTcpCheck
  rw [setTcpCheck_of_ne h, setTcpCheck_of_ne h]

end

/-- Outside the TOS byte and the checksums only the payload is rewritten. -/
theorem rewritePacket_of_ne {skb : SkBuff} {tcp payloadOffset a : Nat} (h : skb.networkHeader = 0)
    (htos : a ≠ 1) (hip : a ≠ 10 ∧ a ≠ 11) (htcp : a ≠ tcp + 16 ∧ a ≠ tcp + 17) :
    (rewritePacket skb tcp payloadOffset).mem a = rewritePayload skb.mem payloadOffset a := by
  unfold rewritePacket
  dsimp only
  rw [h, updateIpCheck_of_ne (by simpa using hip), setTos_of_ne (by simpa using htos),
    updateTcpCheck_of_ne htcp]

theorem rewritePayload_eq (m : Nat → UInt8) (p : Nat) :
    rewritePayload m p =
      if load m p 3 = ascii "irr" then store m p (ascii "ale" ++ [0]) else m := by
  have hcmp : strncmp m p (ascii "irr") 3 = 0 ↔ load m p 3 = ascii "irr" :=
    strncmp_eq_zero_iff (by decide)
  rw [rewritePayload, strcpy]
  simp only [hcmp]

end CLabs.Netfilter
